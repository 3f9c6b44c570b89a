import Wilupgu.Lib.Atomic
import Wilupgu.Lib.Call
import Wilupgu.Error
import Mathlib.Logic.Function.Basic
import Mathlib.Data.Fin.Tuple.Basic

/-! # Values that become known later

src/tools/plan/deferred.rs. A handle holds what never changes of its slot, its
source; what changes, the `OnceLock` and whether the resolver was taken, is in
memory at the slot's address, and clones share it. Values are of the types
`El t`. A read is a program of atomic actions, so that other threads can act
between any two of them. -/

namespace Wilupgu.Plan

open Atomic Call

/-- `Resolvable<T>`, with the address and the source of its slot. -/
inductive Resolvable {ι : Type} (El : ι → Type) : ι → Type where
  | given {t : ι} (addr : Nat) : Resolvable El t
  | computed {s t : ι} (addr I : Nat) (inputs : Fin I → Resolvable El s)
      (f : (Fin I → El s) → El t) : Resolvable El t

variable {ι : Type} {El : ι → Type} {t : ι}

def Resolvable.addr : Resolvable El t → Nat
  | given a => a
  | computed a _ _ _ => a

/-- A Resolvable of any type. -/
abbrev AnyResolvable (El : ι → Type) := (t : ι) × Resolvable El t

/-- The slots in memory. What was made, and how often each relation's function
ran, is kept for the statements only. -/
structure Slots (El : ι → Type) where
  value : (t : ι) → Nat → Option (El t)
  resolverTaken : Nat → Bool
  next : Nat
  made : List (AnyResolvable El)
  ran : Nat → Nat

def Slots.empty : Slots El := ⟨fun _ _ => none, fun _ => false, 0, [], fun _ => 0⟩

/-- The slot of `r` is one of those there are. -/
def Slots.Made (m : Slots El) (r : Resolvable El t) : Prop := ⟨t, r⟩ ∈ m.made

/-! ## The slot's own operations -/

section Operations

variable [DecidableEq ι]

/-- `OnceLock::set`, and the setting half of `get_or_init`: the first value stays. -/
def Slots.set (m : Slots El) (t : ι) (a : Nat) (v : El t) : Slots El :=
  match m.value t a with
  | some _ => m
  | none => { m with value := Function.update m.value t (Function.update (m.value t) a (some v)) }

def Slots.run (m : Slots El) (a : Nat) : Slots El :=
  { m with ran := Function.update m.ran a (m.ran a + 1) }

/-- `Arc::new` of a slot with this source: an empty `OnceLock` at an address of its own. -/
def withSource (source : Nat → Resolvable El t) : Call (Slots El) Error (Resolvable El t) :=
  total fun m => (source m.next,
    { m with next := m.next + 1, made := ⟨t, source m.next⟩ :: m.made })

def Resolvable.new : Call (Slots El) Error (Resolvable El t) := withSource .given

/-- The address is all that a `Resolver` holds. -/
def Resolvable.resolver (r : Resolvable El t) : Call (Slots El) Error Nat :=
  match r with
  | computed _ _ _ _ => lift (.err .Computed)
  | given a => do
    let taken ← total fun m =>
      (m.resolverTaken a, { m with resolverTaken := Function.update m.resolverTaken a true })
    if taken then
      lift (.err .ResolverTaken)
    else
      pure a

def Resolver.resolve (t : ι) (a : Nat) (value : El t) : Call (Slots El) Error Unit :=
  modify fun m => m.set t a value

def Resolvable.fixed (value : El t) : Call (Slots El) Error (Resolvable El t) := do
  let r ← Resolvable.new
  -- a new Resolvable's resolver is free
  match ← r.resolver.attempt with
  | .ok a => Resolver.resolve t a value
  | .error _ => lift .panic
  pure r

def Relation.new {s : ι} (I : Nat) (inputs : Fin I → Resolvable El s)
    (f : (Fin I → El s) → El t) : Call (Slots El) Error (Resolvable El t) :=
  withSource fun a => .computed a I inputs f

/-! ## Reading -/

/-- What `?` does after a program. -/
def andThen {σ ε α β : Type} (p : Prog σ (Outcome ε α)) (k : α → Prog σ (Outcome ε β)) :
    Prog σ (Outcome ε β) :=
  p.bind fun
    | .ok a => k a
    | .err e => .done (.err e)
    | .panic => .done .panic

/-- `collect` over the inputs: it stops at the first that fails. -/
def collect {σ α : Type} : {I : Nat} → (Fin I → Prog σ (Outcome Error α)) →
    Prog σ (Outcome Error (Fin I → α))
  | 0, _ => .done (.ok Fin.elim0)
  | _ + 1, ps => andThen (ps 0) fun v => andThen (collect fun i => ps i.succ) fun vs =>
    .done (.ok (Fin.cons v vs))

/-- A slot's value, if it has one. -/
def valueOr (t : ι) (a : Nat) (source : Prog (Slots El) (Outcome Error (El t))) :
    Prog (Slots El) (Outcome Error (El t)) :=
  .act id fun m =>
    match m.value t a with
    | some v => .done (.ok v)
    | none => source

/-- The closure of a relation: its function on the values of its inputs. -/
def compute {s : ι} {I : Nat} (a : Nat) (f : (Fin I → El s) → El t)
    (inputs : Fin I → Prog (Slots El) (Outcome Error (El s))) :
    Prog (Slots El) (Outcome Error (El t)) :=
  andThen (collect inputs) fun values => .act (·.run a) fun _ => .done (.ok (f values))

/-- `value`. -/
def Resolvable.read {t : ι} (r : Resolvable El t) : Prog (Slots El) (Outcome Error (El t)) :=
  match r with
  | given a => valueOr t a (.done (.err .NotGivenYet))
  | computed a _ inputs f => valueOr t a (andThen (compute a f fun i => (inputs i).read) fun v =>
    -- a racing read may have kept its own result
    .act (·.set t a v) fun m => .done (.ok ((m.value t a).getD v)))

end Operations

/-! ## What it is worth -/

/-- Every component, if each is there. -/
def allSome {α : Type} {I : Nat} (g : Fin I → Option α) : Option (Fin I → α) :=
  if h : ∀ i, (g i).isSome then some fun i => (g i).get (h i) else none

/-- The value of the relations on what was given so far. -/
def Resolvable.eval (m : Slots El) : {t : ι} → Resolvable El t → Option (El t)
  | _, given a => m.value _ a
  | _, computed _ _ inputs f => (allSome fun i => (inputs i).eval m).map f

/-- The given values it depends on, through any number of relations, or itself. -/
def Resolvable.DependsOn : {t : ι} → Resolvable El t → ι → Nat → Prop
  | t, given a, s, b => s = t ∧ b = a
  | _, computed _ _ inputs _, s, b => ∃ i, (inputs i).DependsOn s b

theorem allSome_eq_some {α : Type} {I : Nat} {g : Fin I → Option α} {vs : Fin I → α} :
    allSome g = some vs ↔ ∀ i, g i = some (vs i) := by
  unfold allSome
  by_cases h : ∀ i, (g i).isSome
  · rw [dif_pos h, Option.some_inj, funext_iff]
    exact forall_congr' fun i => ⟨fun hi => hi ▸ (Option.some_get (h i)).symm,
      fun hi => Option.get_of_eq_some (h i) hi⟩
  · rw [dif_neg h]
    refine ⟨fun hf => absurd hf.symm (Option.some_ne_none vs), fun hall => absurd (fun i => ?_) h⟩
    rw [hall i]
    rfl

theorem allSome_eq_none {α : Type} {I : Nat} {g : Fin I → Option α} :
    allSome g = none ↔ ∃ i, g i = none := by
  unfold allSome
  by_cases h : ∀ i, (g i).isSome
  · rw [dif_pos h]
    refine ⟨fun hf => absurd hf (Option.some_ne_none _), fun hex => ?_⟩
    obtain ⟨i, hi⟩ := hex
    have hsome := h i
    rw [hi] at hsome
    cases hsome
  · rw [dif_neg h]
    rw [not_forall] at h
    exact ⟨fun _ => h.imp fun _ hi => Option.not_isSome_iff_eq_none.mp hi, fun _ => rfl⟩

variable {m m' : Slots El} {r : Resolvable El t}

/-- **It is worth something exactly if all it depends on was given.** -/
theorem Resolvable.eval_isSome_iff :
    (r.eval m).isSome ↔ ∀ s a, r.DependsOn s a → (m.value s a).isSome := by
  induction r with
  | given a =>
    refine ⟨?_, fun h => h _ a ⟨rfl, rfl⟩⟩
    intro h s b hdep
    obtain ⟨rfl, rfl⟩ := hdep
    exact h
  | computed a I inputs f ih =>
    have hall : (eval m (computed a I inputs f)).isSome ↔ ∀ i, ((inputs i).eval m).isSome := by
      rw [eval, Option.isSome_map, allSome]
      split
      · rename_i h
        exact iff_of_true rfl h
      · rename_i h
        exact iff_of_false Bool.false_ne_true h
    rw [hall]
    simp only [ih, DependsOn]
    exact ⟨fun h s b hex => hex.elim fun i hi => h i s b hi, fun h i s b hi => h s b ⟨i, hi⟩⟩

theorem Resolvable.eval_computed_eq_some {s : ι} {a I : Nat} {inputs : Fin I → Resolvable El s}
    {f : (Fin I → El s) → El t} {v : El t} : (computed a I inputs f).eval m = some v ↔
      ∃ vs, (∀ i, (inputs i).eval m = some (vs i)) ∧ f vs = v := by
  rw [eval, Option.map_eq_some_iff]
  simp only [allSome_eq_some]

theorem Resolvable.eval_computed_eq_none {s : ι} {a I : Nat} {inputs : Fin I → Resolvable El s}
    {f : (Fin I → El s) → El t} : (computed a I inputs f).eval m = none ↔
      ∃ i, (inputs i).eval m = none := by
  rw [eval, Option.map_eq_none_iff, allSome_eq_none]

/-- More given values only add to what is worth something. -/
theorem Resolvable.eval_mono (h : ∀ t a (v : El t), m.value t a = some v → m'.value t a = some v)
    {v : El t} (hv : r.eval m = some v) : r.eval m' = some v := by
  induction r with
  | given a => exact h _ a v hv
  | computed a I inputs f ih =>
    rw [eval_computed_eq_some] at hv ⊢
    exact hv.imp fun vs hvs => ⟨fun i => ih i (hvs.1 i), hvs.2⟩

/-- It goes by the given values it depends on, and no others. -/
theorem Resolvable.eval_congr (h : ∀ s a, r.DependsOn s a → m'.value s a = m.value s a) :
    r.eval m' = r.eval m := by
  induction r with
  | given a => exact h _ a ⟨rfl, rfl⟩
  | computed a I inputs f ih =>
    have hin : (fun i => (inputs i).eval m') = fun i => (inputs i).eval m :=
      funext fun i => ih i fun s b hdep => h s b ⟨i, hdep⟩
    rw [eval, eval, hin]

end Wilupgu.Plan
