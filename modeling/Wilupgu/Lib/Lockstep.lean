import Mathlib.Data.DFinsupp.WellFounded
import Mathlib.SetTheory.Ordinal.Rank
import Mathlib.Tactic.Common
import Wilupgu.Lib.Transition

/-! # Blocks of threads with barriers

Threads share a memory, of which each loads and stores one cell at a time, in
any order. A thread at a barrier waits for the other threads of its block.

What a block does is said as if its threads went from barrier to barrier in
lockstep, each on its own: `Plays`. A block that plays so, none of whose cells
another block stores to, comes to that in any order of the threads' steps. -/

namespace Lockstep

open Transition

/-- A program has ended, or loads, stores or waits, and goes on. A barrier is
named by a number. -/
inductive Prog (C V α : Type) where
  | done (a : α)
  | load (c : C) (rest : V → Prog C V α)
  | store (c : C) (v : V) (rest : Prog C V α)
  | barrier (l : Nat) (rest : Prog C V α)

/-- What is done to a cell. -/
inductive Access where
  | load
  | store
  deriving DecidableEq

variable {ι β C V α γ : Type}

namespace Prog

def bind (p : Prog C V α) (k : α → Prog C V γ) : Prog C V γ :=
  match p with
  | done a => k a
  | load c rest => load c fun v => (rest v).bind k
  | store c v rest => store c v (rest.bind k)
  | barrier l rest => barrier l (rest.bind k)

instance : Monad (Prog C V) where
  pure := done
  bind := bind

def read (c : C) : Prog C V V := load c done

def write (c : C) (v : V) : Prog C V Unit := store c v (done ())

def wait (l : Nat) : Prog C V Unit := barrier l (done ())

/-- `for i in l`. -/
def loop {σ : Type} (l : List Nat) (s : σ) (body : σ → Nat → Prog C V σ) : Prog C V σ :=
  match l with
  | [] => pure s
  | i :: l => body s i >>= fun s => loop l s body

/-! ## A thread on its own -/

section Solo

variable [DecidableEq C]

/-- What is left of it at its next barrier, or its end, if nobody else acts. -/
def stop (p : Prog C V α) (m : C → V) : Prog C V α :=
  match p with
  | done a => done a
  | load c rest => (rest (m c)).stop m
  | store c v rest => rest.stop (Function.update m c v)
  | barrier l rest => barrier l rest

/-- The memory by then. -/
def after (p : Prog C V α) (m : C → V) : C → V :=
  match p with
  | done _ => m
  | load c rest => (rest (m c)).after m
  | store c v rest => rest.after (Function.update m c v)
  | barrier _ _ => m

end Solo

/-- Does it load, or store to, the cell in some run: ever, or up to its next barrier? -/
def May (ever : Bool) (p : Prog C V α) (a : Access) (c : C) : Prop :=
  match p with
  | done _ => False
  | load c' rest => (a = .load ∧ c = c') ∨ ∃ v, (rest v).May ever a c
  | store c' _ rest => (a = .store ∧ c = c') ∨ rest.May ever a c
  | barrier _ rest => ever = true ∧ rest.May ever a c

/-- Does it end with `x` in some run, at all or with no barrier before? -/
def Ends (ever : Bool) (p : Prog C V α) (x : α) : Prop :=
  match p with
  | done a => x = a
  | load _ rest => ∃ v, (rest v).Ends ever x
  | store _ _ rest => rest.Ends ever x
  | barrier _ rest => ever = true ∧ rest.Ends ever x

/-! ## One program after the other -/

section Bind

variable {ever : Bool} {a : Access} {c : C} {p : Prog C V α} {k : α → Prog C V γ}

@[simp] theorem pure_eq (a : α) : (Pure.pure a : Prog C V α) = done a := rfl

@[simp] theorem done_bind (a : α) (k : α → Prog C V γ) : done a >>= k = k a := rfl

@[simp] theorem read_bind (c : C) (k : V → Prog C V γ) : read c >>= k = load c k := rfl

@[simp] theorem write_bind (c : C) (v : V) (k : Unit → Prog C V γ) :
    write c v >>= k = store c v (k ()) := rfl

@[simp] theorem wait_bind (l : Nat) (k : Unit → Prog C V γ) :
    wait l >>= k = barrier l (k ()) := rfl

@[simp] theorem store_bind (c : C) (v : V) (p : Prog C V α) (k : α → Prog C V γ) :
    store c v p >>= k = store c v (p >>= k) := rfl

@[simp] theorem barrier_bind (l : Nat) (p : Prog C V α) (k : α → Prog C V γ) :
    barrier l p >>= k = barrier l (p >>= k) := rfl

instance : LawfulMonad (Prog C V) := by
  refine LawfulMonad.mk' _ (fun p => ?_) (fun _ _ => rfl) fun p f g => ?_
  · change p.bind (fun a => done a) = p
    induction p with
    | done a => rfl
    | load c rest ih => simp only [bind, ih]
    | store c v rest ih => simp only [bind, ih]
    | barrier l rest ih => simp only [bind, ih]
  · change (p.bind f).bind g = p.bind fun a => (f a).bind g
    induction p with
    | done a => rfl
    | load c rest ih => simp only [bind, ih]
    | store c v rest ih => simp only [bind, ih]
    | barrier l rest ih => simp only [bind, ih]

theorem may_bind : (p >>= k).May ever a c ↔
    p.May ever a c ∨ ∃ x, p.Ends ever x ∧ (k x).May ever a c := by
  change (p.bind k).May ever a c ↔ _
  induction p with
  | done x => simp [bind, May, Ends]
  | load c' rest ih =>
    simp only [bind, May, Ends, ih]
    grind
  | store c' v rest ih => simp only [bind, May, Ends, ih, or_assoc]
  | barrier l rest ih =>
    simp only [bind, May, Ends, ih]
    tauto

variable [DecidableEq C] {m : C → V}

/-- A program that comes to its end before it comes to a barrier. -/
theorem bind_of_stop {x : α} (h : p.stop m = done x) :
    (p >>= k).stop m = (k x).stop (p.after m) ∧ (p >>= k).after m = (k x).after (p.after m) := by
  change (p.bind k).stop m = _ ∧ (p.bind k).after m = _
  induction p generalizing m with
  | done y =>
    cases h
    exact ⟨rfl, rfl⟩
  | load c rest ih => exact ih (m c) h
  | store c v rest ih => exact ih h
  | barrier l rest => cases h

end Bind

/-! ## What may be done -/

section May

variable {ever : Bool} {a : Access} {c : C} {p : Prog C V α}

theorem May.weaken (h : p.May false a c) : p.May true a c := by
  induction p with
  | done x => exact h
  | load c' rest ih =>
    refine h.imp_right fun hv => ?_
    obtain ⟨v, hv⟩ := hv
    exact ⟨v, ih v hv⟩
  | store c' v rest ih => exact h.imp_right ih
  | barrier l rest => cases h.1

variable [DecidableEq C] {m m' : C → V}

/-- **Frame rule.** Only the cells it may access matter to it. -/
theorem frame (h : ∀ a c, p.May false a c → m c = m' c) :
    p.stop m = p.stop m' ∧ ∀ c, m c = m' c → p.after m c = p.after m' c := by
  induction p generalizing m m' with
  | done x => exact ⟨rfl, fun _ hc => hc⟩
  | load c' rest ih =>
    have hc' : m c' = m' c' := h .load c' (.inl ⟨rfl, rfl⟩)
    simp only [stop, after, ← hc']
    exact ih (m c') fun a c hmay => h a c (.inr ⟨m c', hmay⟩)
  | store c' v rest ih =>
    have hupdate : ∀ c, m c = m' c → Function.update m c' v c = Function.update m' c' v c := by
      intro c hc
      by_cases he : c = c'
      · rw [he, Function.update_self, Function.update_self]
      · rw [Function.update_of_ne he, Function.update_of_ne he, hc]
    have hrest : ∀ a c, rest.May false a c →
        Function.update m c' v c = Function.update m' c' v c :=
      fun a c hmay => hupdate c (h a c (.inr hmay))
    obtain ⟨hstop, hafter⟩ := ih hrest
    exact ⟨hstop, fun c hc => hafter c (hupdate c hc)⟩
  | barrier l rest => exact ⟨rfl, fun _ hc => hc⟩

end May

/-! ## Looking only -/

/-- It only loads cells that `cells` holds of, and ends, without a barrier, with
what `f` says of the memory. -/
structure Looks [DecidableEq C] (p : Prog C V α) (cells : C → Prop) (f : (C → V) → α) : Prop where
  stop : ∀ m, p.stop m = done (f m)
  after : ∀ m, p.after m = m
  may : ∀ ever a c, p.May ever a c → a = .load ∧ cells c

section Looks

variable [DecidableEq C] {p : Prog C V α} {cells : C → Prop} {f : (C → V) → α} {m : C → V}
  {ever : Bool} {a : Access} {c : C}

theorem Looks.pure (x : α) : Looks (Pure.pure x : Prog C V α) cells fun _ => x :=
  ⟨fun _ => rfl, fun _ => rfl, fun _ _ _ h => h.elim⟩

theorem Looks.read {c : C} (hc : cells c) : Looks (read (V := V) c) cells fun m => m c := by
  refine ⟨fun _ => rfl, fun _ => rfl, fun ever a c' h => ?_⟩
  rcases h with ⟨rfl, rfl⟩ | ⟨_, h⟩
  · exact ⟨rfl, hc⟩
  · exact h.elim

theorem Looks.bind_stop (h : Looks p cells f) (k : α → Prog C V γ) :
    (p >>= k).stop m = (k (f m)).stop m := by
  rw [(bind_of_stop (h.stop m)).1, h.after]

theorem Looks.bind_after (h : Looks p cells f) (k : α → Prog C V γ) :
    (p >>= k).after m = (k (f m)).after m := by
  rw [(bind_of_stop (h.stop m)).2, h.after]

/-- It goes on from what it saw. -/
theorem ends_of_stop {x : α} (h : p.stop m = done x) : p.Ends false x := by
  induction p generalizing m with
  | done y =>
    cases h
    exact rfl
  | load c' rest ih => exact ⟨m c', ih (m c') h⟩
  | store c' v rest ih => exact ih h
  | barrier l rest => cases h

theorem Looks.bind_may_of (h : Looks p cells f) {k : α → Prog C V γ} (m : C → V)
    (hmay : (k (f m)).May false a c) : (p >>= k).May false a c :=
  may_bind.mpr (.inr ⟨f m, ends_of_stop (h.stop m), hmay⟩)

theorem Looks.bind_may (h : Looks p cells f) {k : α → Prog C V γ}
    (hmay : (p >>= k).May ever a c) : (a = .load ∧ cells c) ∨ ∃ x, (k x).May ever a c := by
  rcases may_bind.mp hmay with hmay | ⟨x, -, hmay⟩
  · exact .inl (h.may ever a c hmay)
  · exact .inr ⟨x, hmay⟩

theorem Looks.bind (h : Looks p cells f) {k : α → Prog C V γ} {g : α → (C → V) → γ}
    (hk : ∀ x, Looks (k x) cells (g x)) : Looks (p >>= k) cells fun m => g (f m) m := by
  refine ⟨fun m => ?_, fun m => ?_, fun ever a c hmay => ?_⟩
  · rw [h.bind_stop, (hk (f m)).stop]
  · rw [h.bind_after, (hk (f m)).after]
  · rcases h.bind_may hmay with hload | ⟨x, hmay⟩
    · exact hload
    · exact (hk x).may ever a c hmay

theorem Looks.loop {σ : Type} {body : σ → Nat → Prog C V σ} {g : (C → V) → σ → Nat → σ}
    (l : List Nat) (s : σ) (h : ∀ s, ∀ i ∈ l, Looks (body s i) cells fun m => g m s i) :
    Looks (loop l s body) cells fun m => l.foldl (g m) s := by
  induction l generalizing s with
  | nil => exact .pure s
  | cons i l ih =>
    exact (h s i List.mem_cons_self).bind fun s => ih s fun s j hj => h s j (List.mem_cons_of_mem i hj)

end Looks

theorem may_loop {σ : Type} {l : List Nat} {s : σ} {body : σ → Nat → Prog C V σ} {ever : Bool}
    {a : Access} {c : C} (h : (loop l s body).May ever a c) :
    ∃ s, ∃ i ∈ l, (body s i).May ever a c := by
  induction l generalizing s with
  | nil => exact h.elim
  | cons i l ih =>
    rcases may_bind.mp h with h | ⟨s', -, h⟩
    · exact ⟨s, i, List.mem_cons_self, h⟩
    · obtain ⟨s, j, hj, h⟩ := ih h
      exact ⟨s, j, List.mem_cons_of_mem i hj, h⟩

end Prog

/-! ## Steps -/

/-- Where each thread is, and the memory. -/
structure State (ι C V : Type) where
  progs : ι → Prog C V Unit
  mem : C → V

/-- A thread acts, or a block passes a barrier. -/
inductive Event (ι β : Type) where
  | act (i : ι)
  | pass (b : β)

section Steps

variable [DecidableEq ι] [DecidableEq C] (block : ι → β)

/-- One step, of one thread, or of a block all of whose threads are at a barrier. -/
inductive Step : State ι C V → Event ι β → State ι C V → Prop
  | load {s : State ι C V} {i : ι} {c : C} {rest : V → Prog C V Unit} :
      s.progs i = .load c rest →
      Step s (.act i) ⟨Function.update s.progs i (rest (s.mem c)), s.mem⟩
  | store {s : State ι C V} {i : ι} {c : C} {v : V} {rest : Prog C V Unit} :
      s.progs i = .store c v rest →
      Step s (.act i) ⟨Function.update s.progs i rest, Function.update s.mem c v⟩
  | barrier {s : State ι C V} {b : β} {rest : ι → Prog C V Unit} :
      (∃ i, block i = b) →
      (∀ i, block i = b → ∃ l, s.progs i = .barrier l (rest i)) →
      (∀ i, block i ≠ b → rest i = s.progs i) → Step s (.pass b) ⟨rest, s.mem⟩

/-- Every thread has ended. -/
def State.Done (s : State ι C V) : Prop := ∀ i, s.progs i = .done ()

end Steps

/-! ## Runs end -/

/-- What a program goes on as. -/
inductive Prog.Next : Prog C V α → Prog C V α → Prop
  | load (c : C) (rest : V → Prog C V α) (v : V) : Next (rest v) (.load c rest)
  | store (c : C) (v : V) (rest : Prog C V α) : Next rest (.store c v rest)
  | barrier (l : Nat) (rest : Prog C V α) : Next rest (.barrier l rest)

theorem Prog.next_wf : WellFounded (Prog.Next (C := C) (V := V) (α := α)) := by
  refine ⟨fun p => ?_⟩
  induction p with
  | done a => exact ⟨_, fun q h => by cases h⟩
  | load c rest ih =>
    refine ⟨_, fun q h => ?_⟩
    cases h with
    | load _ _ v => exact ih v
  | store c v rest ih =>
    refine ⟨_, fun q h => ?_⟩
    cases h
    exact ih
  | barrier l rest ih =>
    refine ⟨_, fun q h => ?_⟩
    cases h
    exact ih

instance : IsWellFounded (Prog C V α) Prog.Next := ⟨Prog.next_wf⟩

/-- **No run goes on for ever**, whatever the programs are. -/
theorem step_wf [Finite ι] [DecidableEq ι] [DecidableEq C] (block : ι → β) :
    WellFounded fun s' s : State ι C V => ∃ e, Step block s e s' := by
  -- every step brings some programs down, and no program up
  let height : State ι C V → ι → Ordinal := fun s i => IsWellFounded.rank Prog.Next (s.progs i)
  refine Subrelation.wf (r := InvImage (· < ·) height) ?_ (InvImage.wf height wellFounded_lt)
  intro s' s hs
  obtain ⟨e, hs⟩ := hs
  have hone : ∀ (i : ι) (p : Prog C V Unit) (m : C → V), Prog.Next p (s.progs i) →
      height ⟨Function.update s.progs i p, m⟩ < height s := by
    intro i p m hnext
    have hlt := IsWellFounded.rank_lt_of_rel hnext
    refine Pi.lt_def.mpr ⟨fun j => ?_, i, ?_⟩
    · show IsWellFounded.rank Prog.Next (Function.update s.progs i p j) ≤ height s j
      by_cases he : j = i
      · rw [he, Function.update_self]
        exact hlt.le
      · rw [Function.update_of_ne he]
    · show IsWellFounded.rank Prog.Next (Function.update s.progs i p i) < height s i
      rw [Function.update_self]
      exact hlt
  cases hs with
  | @load i c rest hp => exact hone i _ _ (hp ▸ .load c rest _)
  | @store i c v rest hp => exact hone i _ _ (hp ▸ .store c v rest)
  | @barrier b rest hb hat hother =>
    have hlt : ∀ i, block i = b → height ⟨rest, s.mem⟩ i < height s i := by
      intro i hi
      obtain ⟨l, hp⟩ := hat i hi
      exact IsWellFounded.rank_lt_of_rel (hp ▸ .barrier l (rest i))
    obtain ⟨i, hi⟩ := hb
    refine Pi.lt_def.mpr ⟨fun j => ?_, i, hlt i hi⟩
    by_cases hj : block j = b
    · exact (hlt j hj).le
    · show IsWellFounded.rank Prog.Next (rest j) ≤ height s j
      rw [hother j hj]

/-! ## In lockstep -/

variable (block : ι → β)

/-- Up to its next barrier, no thread of the block accesses a cell that another
thread of it may store to. -/
def Quiet (b : β) (p : ι → Prog C V Unit) : Prop :=
  ∀ i j, block i = b → block j = b → i ≠ j → ∀ a c, (p j).May false .store c →
    ¬(p i).May false a c

/-- What becomes of the memory `m` up to the block's next barrier: what its
threads store is there, all else as it was. -/
structure Leaves [DecidableEq C] (b : β) (p : ι → Prog C V Unit) (m m' : C → V) : Prop where
  stored : ∀ i, block i = b → ∀ c, (p i).May false .store c → m' c = (p i).after m c
  kept : ∀ c, (∀ i, block i = b → ¬(p i).May false .store c) → m' c = m c

/-- The block's threads go from barrier to barrier, each time to the same one,
and end in a memory that `Q` holds of. -/
inductive Plays [DecidableEq C] (b : β) (Q : (C → V) → Prop) :
    (ι → Prog C V Unit) → (C → V) → Prop
  | ends {p : ι → Prog C V Unit} {m m' : C → V} : Quiet block b p →
      (∀ i, block i = b → (p i).stop m = .done ()) → Leaves block b p m m' → Q m' → Plays b Q p m
  | meets {p rest : ι → Prog C V Unit} {m m' : C → V} (l : Nat) : Quiet block b p →
      (∀ i, block i = b → (p i).stop m = .barrier l (rest i)) → Leaves block b p m m' →
      Plays b Q rest m' → Plays b Q p m

/-- No block ever accesses a cell that another one may store to. -/
def Apart (p : ι → Prog C V Unit) : Prop :=
  ∀ i j, block i ≠ block j → ∀ a c, (p j).May true .store c → ¬(p i).May true a c

/-- No other block may store to the cell. -/
def Own (p : ι → Prog C V Unit) (b : β) (c : C) : Prop :=
  ∀ j, block j ≠ b → ¬(p j).May true .store c

variable {block} {b : β} {Q : β → (C → V) → Prop} {p : ι → Prog C V Unit} {m₀ m : C → V}
  {s s' : State ι C V}

section Invariant

variable [DecidableEq C]

/-- The block is between two barriers: it set out from `p₀` and `m₁`, from which
it would play in lockstep, and each thread comes to what it would. -/
structure Between (block : ι → β) (Q : (C → V) → Prop) (p : ι → Prog C V Unit) (b : β)
    (p₀ : ι → Prog C V Unit) (m₁ : C → V) (s : State ι C V) : Prop where
  plays : Plays block b Q p₀ m₁
  origin : ∀ i, block i = b → ∀ a c, (p₀ i).May true a c → (p i).May true a c
  may : ∀ i, block i = b → ∀ a c, (s.progs i).May false a c → (p₀ i).May false a c
  stop : ∀ i, block i = b → (s.progs i).stop s.mem = (p₀ i).stop m₁
  stored : ∀ i, block i = b → ∀ c, (p₀ i).May false .store c →
    (s.progs i).after s.mem c = (p₀ i).after m₁ c
  kept : ∀ c, Own block p b c → (∀ i, block i = b → ¬(p₀ i).May false .store c) → s.mem c = m₁ c

/-- Every block is between two barriers, and no thread does more than it might at first. -/
structure InStep (block : ι → β) (Q : β → (C → V) → Prop) (p : ι → Prog C V Unit)
    (m₀ : C → V) (s : State ι C V) : Prop where
  may : ∀ i a c, (s.progs i).May true a c → (p i).May true a c
  between : ∀ b, (∃ i, block i = b) → ∃ p₀ m₁, Between block (Q b) p b p₀ m₁ s
  kept : ∀ c, (∀ i, ¬(p i).May true .store c) → s.mem c = m₀ c

/-- Threads that don't get in each other's way leave some memory. -/
theorem Quiet.exists_leaves (h : Quiet block b p) (m : C → V) : ∃ m', Leaves block b p m m' := by
  have hcell : ∀ c, ∃ v, (∀ i, block i = b → (p i).May false .store c → v = (p i).after m c) ∧
      ((∀ i, block i = b → ¬(p i).May false .store c) → v = m c) := by
    intro c
    by_cases hstored : ∃ i, block i = b ∧ (p i).May false .store c
    · obtain ⟨i, hi, hstore⟩ := hstored
      refine ⟨(p i).after m c, fun j hj hstore' => ?_, fun hnone => absurd hstore (hnone i hi)⟩
      by_cases he : j = i
      · rw [he]
      · exact absurd hstore' (h j i hj hi he _ c hstore)
    · exact ⟨m c, fun i hi hstore => absurd ⟨i, hi, hstore⟩ hstored, fun _ => rfl⟩
  choose m' hstored hkept using hcell
  exact ⟨m', fun i hi c => hstored c i hi, hkept⟩

/-- Threads that only look leave it as it was. -/
theorem leaves_of_looks (h : ∀ i, block i = b → ∀ c, ¬(p i).May false .store c) (m : C → V) :
    Quiet block b p ∧ Leaves block b p m m :=
  ⟨fun _ j _ hj _ _ c hc => absurd hc (h j hj c), fun i hi c hc => absurd hc (h i hi c),
    fun _ _ => rfl⟩

theorem Plays.quiet {Q : (C → V) → Prop} (h : Plays block b Q p m) : Quiet block b p := by
  cases h with
  | ends h | meets _ h => exact h

/-- It is only about the block's own threads. -/
theorem Plays.congr {Q : (C → V) → Prop} {p' : ι → Prog C V Unit} (h : Plays block b Q p m)
    (hp : ∀ i, block i = b → p i = p' i) : Plays block b Q p' m := by
  have hquiet : Quiet block b p → Quiet block b p' := by
    intro hq i j hi hj
    rw [← hp i hi, ← hp j hj]
    exact hq i j hi hj
  have hleaves : ∀ {m m' : C → V}, Leaves block b p m m' → Leaves block b p' m m' := by
    intro m m' hl
    refine ⟨fun i hi => ?_, fun c hc => hl.kept c fun i hi => ?_⟩
    · rw [← hp i hi]
      exact hl.stored i hi
    · rw [hp i hi]
      exact hc i hi
  cases h with
  | ends hq hend hl hQ => exact .ends (hquiet hq) (fun i hi => hp i hi ▸ hend i hi) (hleaves hl) hQ
  | meets l hq hmeet hl hplays =>
    exact .meets l (hquiet hq) (fun i hi => hp i hi ▸ hmeet i hi) (hleaves hl) hplays

theorem Between.start {Q : (C → V) → Prop} (h : Plays block b Q s.progs m)
    (hmay : ∀ i a c, (s.progs i).May true a c → (p i).May true a c) (hp : Apart block p)
    (hm : ∀ c, Own block p b c → s.mem c = m c) : Between block Q p b s.progs m s := by
  -- the cells it accesses are its own
  have hown : ∀ i, block i = b → ∀ a c, (s.progs i).May false a c → s.mem c = m c := by
    intro i hi a c hc
    refine hm c fun j hj hstore => hp i j (fun he => hj (he ▸ hi)) a c hstore ?_
    exact hmay i a c hc.weaken
  refine ⟨h, fun i _ => hmay i, fun _ _ _ _ hc => hc, fun i hi => (Prog.frame (hown i hi)).1, ?_,
    fun c hc _ => hm c hc⟩
  intro i hi c hc
  exact (Prog.frame (hown i hi)).2 c (hown i hi _ c hc)

theorem InStep.start (hp : Apart block p)
    (h : ∀ b, (∃ i, block i = b) → Plays block b (Q b) p m₀) : InStep block Q p m₀ ⟨p, m₀⟩ :=
  ⟨fun _ _ _ hc => hc, fun b hb => ⟨p, m₀, .start (s := ⟨p, m₀⟩) (h b hb) (fun _ _ _ hc => hc) hp
    fun _ _ => rfl⟩, fun _ _ => rfl⟩

/-! ## One thread acts -/

/-- The thread `i` takes one action. -/
structure Acts (i : ι) (s s' : State ι C V) : Prop where
  others : ∀ j, j ≠ i → s'.progs j = s.progs j
  may : ∀ ever a c, (s'.progs i).May ever a c → (s.progs i).May ever a c
  stop : (s'.progs i).stop s'.mem = (s.progs i).stop s.mem
  after : (s'.progs i).after s'.mem = (s.progs i).after s.mem
  mem : ∀ c, ¬(s.progs i).May false .store c → s'.mem c = s.mem c

theorem Step.acts [DecidableEq ι] {i : ι} (h : Step block s (.act i) s') : Acts i s s' := by
  cases h with
  | @load i c rest hp =>
    refine ⟨fun j hj => Function.update_of_ne hj _ _, fun ever a c' hc => ?_, ?_, ?_,
      fun _ _ => rfl⟩
    · simp only [Function.update_self] at hc
      rw [hp]
      exact .inr ⟨_, hc⟩
    · simp only [Function.update_self, hp, Prog.stop]
    · simp only [Function.update_self, hp, Prog.after]
  | @store i c v rest hp =>
    refine ⟨fun j hj => Function.update_of_ne hj _ _, fun ever a c' hc => ?_, ?_, ?_,
      fun c' hc => Function.update_of_ne ?_ _ _⟩
    · simp only [Function.update_self] at hc
      rw [hp]
      exact .inr hc
    · simp only [Function.update_self, hp, Prog.stop]
    · simp only [Function.update_self, hp, Prog.after]
    · rintro rfl
      exact hc (hp ▸ .inl ⟨rfl, rfl⟩)

theorem Between.act {Q : (C → V) → Prop} {p₀ : ι → Prog C V Unit} {m₁ : C → V} {i : ι}
    (h : Between block Q p b p₀ m₁ s) (hp : Apart block p)
    (hmay : ∀ i a c, (s.progs i).May true a c → (p i).May true a c) (ha : Acts i s s') :
    Between block Q p b p₀ m₁ s' := by
  -- no other thread of this block accesses what the thread stores
  have hapart : ∀ j, block j = b → j ≠ i → ∀ a c, (p₀ j).May false a c → s'.mem c = s.mem c := by
    intro j hj hne a c hc
    refine ha.mem c fun hstore => ?_
    by_cases hi : block i = b
    · exact h.plays.quiet j i hj hi hne a c (h.may i hi _ c hstore) hc
    · exact hp j i (fun he => hi (he ▸ hj)) a c (hmay i _ c hstore.weaken)
        (h.origin j hj a c hc.weaken)
  have hframe : ∀ j, block j = b → j ≠ i → ∀ a c, (s.progs j).May false a c →
      s'.mem c = s.mem c := fun j hj hne a c hc => hapart j hj hne a c (h.may j hj a c hc)
  refine ⟨h.plays, h.origin, fun j hj a c hc => ?_, fun j hj => ?_, fun j hj c hc => ?_,
    fun c hc hnone => ?_⟩
  · by_cases he : j = i
    · subst he
      exact h.may j hj a c (ha.may false a c hc)
    · rw [ha.others j he] at hc
      exact h.may j hj a c hc
  · by_cases he : j = i
    · subst he
      rw [ha.stop, h.stop j hj]
    · rw [ha.others j he, (Prog.frame (hframe j hj he)).1, h.stop j hj]
  · by_cases he : j = i
    · subst he
      rw [ha.after, h.stored j hj c hc]
    · rw [ha.others j he, (Prog.frame (hframe j hj he)).2 c (hapart j hj he _ c hc),
        h.stored j hj c hc]
  · rw [ha.mem c, h.kept c hc hnone]
    intro hstore
    by_cases hi : block i = b
    · exact hnone i hi (h.may i hi _ c hstore)
    · exact hc i hi (hmay i _ c hstore.weaken)

theorem InStep.act {i : ι} (h : InStep block Q p m₀ s) (hp : Apart block p) (ha : Acts i s s') :
    InStep block Q p m₀ s' := by
  refine ⟨fun j a c hc => ?_, fun b hb => ?_, fun c hc => ?_⟩
  · by_cases he : j = i
    · subst he
      exact h.may j a c (ha.may true a c hc)
    · rw [ha.others j he] at hc
      exact h.may j a c hc
  · obtain ⟨p₀, m₁, hbetween⟩ := h.between b hb
    exact ⟨p₀, m₁, hbetween.act hp h.may ha⟩
  · rw [ha.mem c fun hstore => hc i (h.may i _ c hstore.weaken), h.kept c hc]

/-! ## A block passes a barrier -/

theorem InStep.pass {rest : ι → Prog C V Unit} (h : InStep block Q p m₀ s) (hp : Apart block p)
    (hb : ∃ i, block i = b) (hat : ∀ i, block i = b → ∃ l, s.progs i = .barrier l (rest i))
    (hother : ∀ i, block i ≠ b → rest i = s.progs i) : InStep block Q p m₀ ⟨rest, s.mem⟩ := by
  have hmay : ∀ i a c, (rest i).May true a c → (p i).May true a c := by
    intro i a c hc
    by_cases hi : block i = b
    · obtain ⟨l, hl⟩ := hat i hi
      exact h.may i a c (hl ▸ ⟨rfl, hc⟩)
    · rw [hother i hi] at hc
      exact h.may i a c hc
  refine ⟨hmay, fun b' hb' => ?_, h.kept⟩
  obtain ⟨p₀, m₁, hbetween⟩ := h.between b' hb'
  by_cases he : b' = b
  · subst he
    -- at the barrier a thread has come to what it comes to on its own
    have hstop : ∀ i, block i = b' → ∃ l, (p₀ i).stop m₁ = .barrier l (rest i) := by
      intro i hi
      obtain ⟨l, hl⟩ := hat i hi
      exact ⟨l, by rw [← hbetween.stop i hi, hl]; rfl⟩
    have hafter : ∀ i, block i = b' → ∀ c, (p₀ i).May false .store c →
        s.mem c = (p₀ i).after m₁ c := by
      intro i hi c hc
      obtain ⟨l, hl⟩ := hat i hi
      rw [← hbetween.stored i hi c hc, hl]
      rfl
    obtain ⟨i₀, hi₀⟩ := hb
    cases hbetween.plays with
    | ends _ hend =>
      obtain ⟨l, hl⟩ := hstop i₀ hi₀
      cases (hend i₀ hi₀).symm.trans hl
    | @meets _ rest' _ m' l hquiet hmeet hleaves hplays =>
      have hsame : ∀ i, block i = b' → rest' i = rest i := by
        intro i hi
        obtain ⟨l, hl⟩ := hstop i hi
        exact (Prog.barrier.inj ((hmeet i hi).symm.trans hl)).2
      refine ⟨rest, m', .start (s := ⟨rest, s.mem⟩) (hplays.congr hsame) hmay hp fun c hc => ?_⟩
      by_cases hstored : ∃ i, block i = b' ∧ (p₀ i).May false .store c
      · obtain ⟨i, hi, hstore⟩ := hstored
        rw [hleaves.stored i hi c hstore]
        exact hafter i hi c hstore
      · have hnone : ∀ i, block i = b' → ¬(p₀ i).May false .store c :=
          fun i hi hstore => hstored ⟨i, hi, hstore⟩
        rw [hleaves.kept c hnone]
        exact hbetween.kept c hc hnone
  · have hsame : ∀ i, block i = b' → rest i = s.progs i :=
      fun i hi => hother i fun hi' => he (hi.symm.trans hi')
    refine ⟨p₀, m₁, hbetween.plays, hbetween.origin, fun i hi => ?_, fun i hi => ?_,
      fun i hi => ?_, hbetween.kept⟩
    · simp only [hsame i hi]
      exact hbetween.may i hi
    · simp only [hsame i hi]
      exact hbetween.stop i hi
    · simp only [hsame i hi]
      exact hbetween.stored i hi

/-! ## What holds meanwhile -/

/-- The block's threads come to one barrier next, or all to their ends. -/
def SameBarrier (block : ι → β) (b : β) (s : State ι C V) : Prop :=
  (∃ l, ∀ i, block i = b → ∃ rest, (s.progs i).stop s.mem = .barrier l rest) ∨
    ∀ i, block i = b → (s.progs i).stop s.mem = .done ()

theorem InStep.meets (h : InStep block Q p m₀ s) (b : β) : SameBarrier block b s := by
  by_cases hb : ∃ i, block i = b
  · obtain ⟨p₀, m₁, hbetween⟩ := h.between b hb
    cases hbetween.plays with
    | ends _ hend => exact .inr fun i hi => (hbetween.stop i hi).trans (hend i hi)
    | meets l _ hmeet =>
      exact .inl ⟨l, fun i hi => ⟨_, (hbetween.stop i hi).trans (hmeet i hi)⟩⟩
  · exact .inr fun i hi => absurd ⟨i, hi⟩ hb

theorem InStep.ends (h : InStep block Q p m₀ s) (hdone : s.Done) (hb : ∃ i, block i = b) :
    ∃ m, Q b m ∧ ∀ c, Own block p b c → s.mem c = m c := by
  obtain ⟨p₀, m₁, hbetween⟩ := h.between b hb
  obtain ⟨i₀, hi₀⟩ := hb
  cases hbetween.plays with
  | meets l _ hmeet =>
    have hstop := (hbetween.stop i₀ hi₀).trans (hmeet i₀ hi₀)
    rw [hdone i₀] at hstop
    cases hstop
  | @ends _ _ m _ _ hleaves hQ =>
    refine ⟨m, hQ, fun c hc => ?_⟩
    by_cases hstored : ∃ i, block i = b ∧ (p₀ i).May false .store c
    · obtain ⟨i, hi, hstore⟩ := hstored
      rw [hleaves.stored i hi c hstore, ← hbetween.stored i hi c hstore, hdone i]
      rfl
    · have hnone : ∀ i, block i = b → ¬(p₀ i).May false .store c :=
        fun i hi hstore => hstored ⟨i, hi, hstore⟩
      rw [hleaves.kept c hnone]
      exact hbetween.kept c hc hnone

theorem InStep.quiet (h : InStep block Q p m₀ s) (hp : Apart block p) {i j : ι} (hne : i ≠ j)
    {a : Access} {c : C} (hstore : (s.progs j).May false .store c) :
    ¬(s.progs i).May false a c := by
  intro hi
  by_cases he : block i = block j
  · obtain ⟨p₀, m₁, hbetween⟩ := h.between (block j) ⟨j, rfl⟩
    exact hbetween.plays.quiet i j he rfl hne a c (hbetween.may j rfl _ c hstore)
      (hbetween.may i he a c hi)
  · exact hp i j he a c (h.may j _ c hstore.weaken) (h.may i a c hi.weaken)

/-! ## Any order of the steps -/

section Runs

variable [DecidableEq ι] {e : Event ι β}

/-- **Step rule.** -/
theorem InStep.step (h : InStep block Q p m₀ s) (hp : Apart block p) (hs : Step block s e s') :
    InStep block Q p m₀ s' := by
  cases e with
  | act i => exact h.act hp hs.acts
  | pass b =>
    cases hs with
    | barrier hb hat hother => exact h.pass hp hb hat hother

theorem InStep.goes_on (h : InStep block Q p m₀ s) : s.Done ∨ ∃ e s', Step block s e s' := by
  by_cases hact : ∃ i s', Step block s (.act i) s'
  · obtain ⟨i, s', hs⟩ := hact
    exact .inr ⟨_, s', hs⟩
  -- every thread has ended or is at a barrier
  have hstop : ∀ i, (s.progs i).stop s.mem = s.progs i := by
    intro i
    rcases hi : s.progs i with x | ⟨c, rest⟩ | ⟨c, v, rest⟩ | ⟨l, rest⟩
    · rfl
    · exact absurd ⟨i, _, .load hi⟩ hact
    · exact absurd ⟨i, _, .store hi⟩ hact
    · rfl
  by_cases hdone : s.Done
  · exact .inl hdone
  obtain ⟨i, hi⟩ := not_forall.mp hdone
  rcases h.meets (block i) with ⟨l, hmeet⟩ | hend
  · refine .inr ⟨.pass (block i), ?_⟩
    have hrest : ∀ j, ∃ rest, (block j = block i → s.progs j = .barrier l rest) ∧
        (block j ≠ block i → rest = s.progs j) := by
      intro j
      by_cases hj : block j = block i
      · obtain ⟨rest, hr⟩ := hmeet j hj
        exact ⟨rest, fun _ => (hstop j).symm.trans hr, fun hne => absurd hj hne⟩
      · exact ⟨s.progs j, fun he => absurd he hj, fun _ => rfl⟩
    choose rest hat hother using hrest
    exact ⟨_, .barrier ⟨i, rfl⟩ (fun j hj => ⟨l, hat j hj⟩) hother⟩
  · exact absurd ((hstop i).symm.trans (hend i rfl)) hi

/-- **In every order of the steps** the threads of a block meet the same
barriers, no thread accesses a cell, up to its next barrier, that another one may
store to, nothing hangs, and nothing goes on for ever. `Q` holds of the end. -/
structure Correct (block : ι → β) (Q : (C → V) → Prop) (p : ι → Prog C V Unit)
    (m₀ : C → V) : Prop where
  meets : ∀ es s, Runs (Step block) ⟨p, m₀⟩ es s → ∀ b, SameBarrier block b s
  quiet : ∀ es s, Runs (Step block) ⟨p, m₀⟩ es s → ∀ i j, i ≠ j → ∀ a c,
    (s.progs j).May false .store c → ¬(s.progs i).May false a c
  goes_on : ∀ es s, Runs (Step block) ⟨p, m₀⟩ es s → s.Done ∨ ∃ e s', Step block s e s'
  ends : ∀ es s, Runs (Step block) ⟨p, m₀⟩ es s → s.Done → Q s.mem
  finite : ¬∃ run : Nat → State ι C V, ∀ k, ∃ e, Step block (run k) e (run (k + 1))

theorem Correct.mono {Q Q' : (C → V) → Prop} (h : Correct block Q p m₀) (hQ : ∀ m, Q m → Q' m) :
    Correct block Q' p m₀ :=
  ⟨h.meets, h.quiet, h.goes_on, fun es s hr hdone => hQ _ (h.ends es s hr hdone), h.finite⟩

/-- There is an end to come to. -/
theorem Correct.exists_done [Finite ι] {Q : (C → V) → Prop} (h : Correct block Q p m₀) :
    ∃ es s, Runs (Step block) ⟨p, m₀⟩ es s ∧ s.Done := by
  have hall : ∀ s, (∃ es, Runs (Step block) ⟨p, m₀⟩ es s) →
      ∃ es s, Runs (Step block) ⟨p, m₀⟩ es s ∧ s.Done := by
    intro s
    induction s using (step_wf (C := C) (V := V) block).induction with
    | _ s ih =>
      intro hr
      obtain ⟨es, hr⟩ := hr
      rcases h.goes_on es s hr with hdone | ⟨e, s', hs⟩
      · exact ⟨es, s, hr, hdone⟩
      · exact ih s' ⟨e, hs⟩ ⟨es ++ [e], hr.append (.single hs)⟩
  exact hall _ ⟨[], .nil _⟩

/-- **Any order comes to what lockstep comes to.** -/
theorem correct_of_plays [Finite ι] {Q' : (C → V) → Prop} (hp : Apart block p)
    (h : ∀ b, (∃ i, block i = b) → Plays block b (Q b) p m₀)
    (hQ : ∀ m, (∀ b, (∃ i, block i = b) → ∃ m', Q b m' ∧ ∀ c, Own block p b c → m c = m' c) →
      (∀ c, (∀ i, ¬(p i).May true .store c) → m c = m₀ c) → Q' m) : Correct block Q' p m₀ := by
  have hin : ∀ es s, Runs (Step block) ⟨p, m₀⟩ es s → InStep block Q p m₀ s :=
    fun _ _ hr => hr.preserves (fun _ _ _ hi hs => hi.step hp hs) (.start hp h)
  refine ⟨fun es s hr => (hin es s hr).meets, fun es s hr _ _ hne _ _ => (hin es s hr).quiet hp hne,
    fun es s hr => (hin es s hr).goes_on, fun es s hr hdone => ?_, fun hrun => ?_⟩
  · exact hQ s.mem (fun b hb => (hin es s hr).ends hdone hb) (hin es s hr).kept
  · obtain ⟨run, hrun⟩ := hrun
    obtain ⟨s, hs, hmin⟩ := (step_wf block).has_min (Set.range run) ⟨run 0, 0, rfl⟩
    obtain ⟨k, rfl⟩ := hs
    exact hmin _ ⟨k + 1, rfl⟩ (hrun k)

end Runs

end Invariant

end Lockstep
