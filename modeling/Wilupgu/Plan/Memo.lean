import Wilupgu.Lib.Transition
import Wilupgu.Plan.Slots

/-! # Deferred values as a memo

Any number of threads make Resolvables, take resolvers, give values and read,
each read an action at a time. What every finished read returned is kept, with
the slots at its start and its end. -/

namespace Wilupgu.Plan

open Atomic Atomic.Prog Call

variable {ι : Type} {El : ι → Type}

/-! ## Threads -/

/-- A read under way: the slots when it was called, how many reads had ended
before it was, and the actions it still has to take. -/
structure Read (El : ι → Type) where
  t : ι
  r : Resolvable El t
  start : Slots El
  after : Nat
  rest : Prog (Slots El) (Outcome Error (El t))

/-- A read that has returned. -/
structure Ended (El : ι → Type) where
  t : ι
  r : Resolvable El t
  start : Slots El
  after : Nat
  stop : Slots El
  result : Outcome Error (El t)

/-- The slots, the resolvers handed out and not used yet, and the reads. -/
structure Memo (El : ι → Type) where
  slots : Slots El
  resolvers : List (ι × Nat)
  reads : Nat → Option (Read El)
  ended : List (Ended El)

def Memo.init : Memo El := ⟨.empty, [], fun _ => none, []⟩

def Memo.setRead (w : Memo El) (th : Nat) (rd : Option (Read El)) : Memo El :=
  { w with reads := Function.update w.reads th rd }

inductive Event (El : ι → Type) where
  | new (t : ι)
  | fixed {t : ι} (value : El t)
  | relation {s t : ι} (I : Nat) (inputs : Fin I → Resolvable El s) (f : (Fin I → El s) → El t)
  | resolver {t : ι} (r : Resolvable El t) (out : Outcome Error Nat)
  | resolve (t : ι) (a : Nat) (value : El t)
  | value {t : ι} (r : Resolvable El t)
  | act
  | ends

/-- What a call of `resolver` hands over. -/
def handed (t : ι) (out : Outcome Error Nat) (held : List (ι × Nat)) : List (ι × Nat) :=
  match out with
  | .ok a => (t, a) :: held
  | _ => held

/-- Was the resolver of the slot at `a` handed out here? -/
def handsOut (a : Nat) : Nat × Event El → Bool
  | (_, .resolver _ (.ok b)) => b = a
  | _ => false

section Steps

variable [DecidableEq ι]

/-- What thread `e.1` may do next. A thread within a read goes on with it. -/
inductive Memo.Step : Memo El → Nat × Event El → Memo El → Prop
  | new {w : Memo El} {th : Nat} {t : ι} : w.reads th = none → Step w (th, .new t)
      { w with slots := ((Resolvable.new : Call _ _ (Resolvable El t)) w.slots).2 }
  | fixed {w : Memo El} {th : Nat} {t : ι} {v : El t} : w.reads th = none →
      Step w (th, .fixed v) { w with slots := (Resolvable.fixed v w.slots).2 }
  | relation {w : Memo El} {th : Nat} {s t : ι} {I : Nat} {inputs : Fin I → Resolvable El s}
      {f : (Fin I → El s) → El t} : w.reads th = none → (∀ i, w.slots.Made (inputs i)) →
      Step w (th, .relation I inputs f) { w with slots := (Relation.new I inputs f w.slots).2 }
  | resolver {w : Memo El} {th : Nat} {t : ι} {r : Resolvable El t} : w.reads th = none →
      w.slots.Made r → Step w (th, .resolver r (r.resolver w.slots).1)
        { w with slots := (r.resolver w.slots).2,
                 resolvers := handed t (r.resolver w.slots).1 w.resolvers }
  | resolve {w : Memo El} {th : Nat} {t : ι} {a : Nat} {v : El t} : w.reads th = none →
      (t, a) ∈ w.resolvers → Step w (th, .resolve t a v)
        { w with slots := (Resolver.resolve t a v w.slots).2,
                 resolvers := w.resolvers.erase (t, a) }
  | value {w : Memo El} {th : Nat} {t : ι} {r : Resolvable El t} : w.reads th = none →
      w.slots.Made r → Step w (th, .value r)
        (w.setRead th (some ⟨t, r, w.slots, w.ended.length, r.read⟩))
  | act {w : Memo El} {th : Nat} {t : ι} {r : Resolvable El t} {start : Slots El} {n : Nat}
      {put : Slots El → Slots El} {rest : Slots El → Prog (Slots El) (Outcome Error (El t))} :
      w.reads th = some ⟨t, r, start, n, .act put rest⟩ → Step w (th, .act)
        (({ w with slots := put w.slots } : Memo El).setRead th
          (some ⟨t, r, start, n, rest w.slots⟩))
  | ends {w : Memo El} {th : Nat} {t : ι} {r : Resolvable El t} {start : Slots El} {n : Nat}
      {res : Outcome Error (El t)} : w.reads th = some ⟨t, r, start, n, .done res⟩ →
      Step w (th, .ends)
        (({ w with ended := w.ended ++ [⟨t, r, start, n, w.slots, res⟩] } : Memo El).setRead th none)

/-- The runs of all threads, in any interleaving. -/
def Memo.Run (es : List (Nat × Event El)) (w : Memo El) : Prop :=
  Transition.Runs Memo.Step .init es w

end Steps

/-! ## What holds in between -/

/-- Nothing that a read counts on is ever taken back. -/
structure Memo.Good (w : Memo El) : Prop where
  sound : Sound w.slots
  held {t : ι} {a : Nat} : (t, a) ∈ w.resolvers → w.slots.Made (.given a : Resolvable El t)
  reads {th : Nat} {rd : Read El} : w.reads th = some rd → rd.start.Made rd.r ∧
    Sound rd.start ∧ Later rd.start w.slots ∧
    Meets Sound Later Unmoved (Returns rd.r rd.start) rd.rest w.slots
  before {th : Nat} {rd : Read El} {i : Nat} {d : Ended El} : w.reads th = some rd →
    w.ended[i]? = some d → i < rd.after → Later d.stop rd.start
  after {th : Nat} {rd : Read El} : w.reads th = some rd → rd.after ≤ w.ended.length
  ended {d : Ended El} : d ∈ w.ended → Later d.start d.stop ∧ Later d.stop w.slots ∧
    Returns d.r d.start d.stop d.result
  ordered {i : Nat} {d d' : Ended El} : w.ended[i]? = some d → d' ∈ w.ended → i < d'.after →
    Later d.stop d'.start
  counted {d : Ended El} : d ∈ w.ended → d.after ≤ w.ended.length

variable {w w' : Memo El} {m m' : Slots El} {es : List (Nat × Event El)} {th : Nat} {s t : ι}
  {r : Resolvable El t}

/-! ## What the other calls do to the slots -/

/-- A new slot, of a source that reads slots there are. -/
theorem Sound.withSource (h : Sound m) {source : Nat → Resolvable El t}
    (haddr : (source m.next).addr = m.next)
    (hold : ∀ {s a I} {inputs : Fin I → Resolvable El s} {f : (Fin I → El s) → El t},
      source m.next = .computed a I inputs f → ∀ i, m.Made (inputs i)) :
    Sound (Plan.withSource source m).2 ∧ Later m (Plan.withSource source m).2 := by
  have hmade : ∀ {s} {q : Resolvable El s}, (Plan.withSource source m).2.Made q →
      (⟨s, q⟩ : AnyResolvable El) = ⟨t, source m.next⟩ ∨ m.Made q := fun hq => List.mem_cons.mp hq
  have hkeep : ∀ {s} {q : Resolvable El s}, m.Made q → (Plan.withSource source m).2.Made q :=
    fun hq => List.mem_cons_of_mem _ hq
  refine ⟨⟨?_, ?_, ?_, ?_, ?_⟩, ⟨fun hx => List.mem_cons_of_mem _ hx, id, id, fun _ => Nat.le_refl _⟩⟩
  · intro s q hq
    rcases hmade hq with heq | hq
    · cases heq
      exact Nat.lt_succ_of_le (Nat.le_of_eq haddr)
    · exact Nat.lt_succ_of_lt (h.below hq)
  · intro s s' q q' hq hq' hsame
    rcases hmade hq with heq | hq <;> rcases hmade hq' with heq' | hq'
    · exact heq.trans heq'.symm
    · cases heq
      exact absurd (h.below hq') (by omega)
    · cases heq'
      exact absurd (h.below hq) (by omega)
    · exact h.unique hq hq' hsame
  · intro s s' a I inputs f hq i
    rcases hmade hq with heq | hq
    · obtain ⟨rfl, heq⟩ := Sigma.mk.inj heq
      have hsource := (eq_of_heq heq).symm
      have hin := hold hsource i
      rw [hsource] at haddr
      exact ⟨hkeep hin, Nat.lt_of_lt_of_eq (h.below hin) haddr.symm⟩
    · exact ⟨hkeep (h.older hq i).1, (h.older hq i).2⟩
  · intro a ha
    exact h.empty (Nat.le_of_succ_le ha)
  · intro s s' a I inputs f v hq hv
    rcases hmade hq with heq | hq
    · obtain ⟨rfl, heq⟩ := Sigma.mk.inj heq
      rw [(eq_of_heq heq).symm] at haddr
      have hnone : m.value s' a = none := (h.empty (Nat.le_of_eq haddr.symm)).1 s'
      exact absurd (hnone.symm.trans hv) (by simp)
    · have hsame : (Resolvable.computed a I inputs f).eval (Plan.withSource source m).2 =
          (Resolvable.computed a I inputs f).eval m := Resolvable.eval_congr fun _ _ _ => rfl
      exact hsame.trans (h.kept hq hv)

theorem Sound.new (h : Sound m) : Sound ((Resolvable.new : Call _ _ (Resolvable El t)) m).2 ∧
    Later m ((Resolvable.new : Call _ _ (Resolvable El t)) m).2 :=
  h.withSource rfl fun hf => by cases hf

theorem Sound.relation (h : Sound m) {I : Nat} {inputs : Fin I → Resolvable El s}
    {f : (Fin I → El s) → El t} (hin : ∀ i, m.Made (inputs i)) :
    Sound (Relation.new I inputs f m).2 ∧ Later m (Relation.new I inputs f m).2 := by
  refine h.withSource rfl ?_
  intro s' a I' inputs' f' heq
  cases heq
  exact hin

theorem resolver_given (a : Nat) (m : Slots El) : (Resolvable.given a : Resolvable El t).resolver m =
    (if m.resolverTaken a then .err .ResolverTaken else .ok a,
      { m with resolverTaken := Function.update m.resolverTaken a true }) := by
  rw [Resolvable.resolver, bind_run, total_run]
  cases m.resolverTaken a <;> rfl

/-- Only a given value's resolver is handed out, and only if it is free. -/
theorem resolver_ok {a : Nat} (h : (r.resolver m).1 = .ok a) :
    r = .given a ∧ m.resolverTaken a = false ∧ (r.resolver m).2.resolverTaken a = true := by
  cases r with
  | given b =>
    rw [resolver_given] at h ⊢
    cases htaken : m.resolverTaken b <;> rw [htaken] at h <;> cases h
    exact ⟨rfl, htaken, Function.update_self ..⟩
  | computed b I inputs f => cases h

/-- Taking a resolver touches no value. -/
theorem Sound.taken (h : Sound m) {a : Nat} (ha : a < m.next) :
    Sound { m with resolverTaken := Function.update m.resolverTaken a true } ∧
    Later m { m with resolverTaken := Function.update m.resolverTaken a true } := by
  refine ⟨⟨h.below, h.unique, h.older, ?_, ?_⟩, ⟨id, id, ?_, fun _ => Nat.le_refl _⟩⟩
  · intro b hb
    obtain ⟨hvalue, htaken⟩ := h.empty hb
    refine ⟨hvalue, ?_⟩
    have hne : b ≠ a := fun hba => absurd (hba ▸ hb : m.next ≤ a) (Nat.not_le_of_lt ha)
    exact (Function.update_of_ne hne true m.resolverTaken).trans htaken
  · intro s t b I inputs f v hr hv
    have hsame : (Resolvable.computed b I inputs f).eval
        { m with resolverTaken := Function.update m.resolverTaken a true } =
        (Resolvable.computed b I inputs f).eval m := Resolvable.eval_congr fun _ _ _ => rfl
    exact hsame.trans (h.kept hr hv)
  · intro b hb
    by_cases hba : b = a
    · subst hba
      exact Function.update_self ..
    · exact (Function.update_of_ne hba true m.resolverTaken).trans hb

theorem Sound.resolver (h : Sound m) (hr : m.Made r) :
    Sound (r.resolver m).2 ∧ Later m (r.resolver m).2 := by
  cases r with
  | given a =>
    rw [resolver_given]
    exact h.taken (h.below hr)
  | computed a I inputs f => exact ⟨h, .refl m⟩

/-- A call of a thread that reads nothing. -/
theorem Memo.Good.slots (h : w.Good) (hs : Sound m) (hl : Later w.slots m) {held : List (ι × Nat)}
    (hheld : ∀ {t a}, (t, a) ∈ held → m.Made (.given a : Resolvable El t)) :
    ({ w with slots := m, resolvers := held } : Memo El).Good where
  sound := hs
  held := hheld
  reads hrd := by
    obtain ⟨hmade, hstart, hlater, hmeets⟩ := h.reads hrd
    exact ⟨hmade, hstart, hlater.trans hl, hmeets.later agreement hl⟩
  before := h.before
  after := h.after
  ended hd := by
    obtain ⟨h₁, h₂, h₃⟩ := h.ended hd
    exact ⟨h₁, h₂.trans hl, h₃⟩
  ordered := h.ordered
  counted := h.counted

theorem Memo.setRead_self (w : Memo El) (th : Nat) (rd : Option (Read El)) :
    (w.setRead th rd).reads th = rd := Function.update_self ..

theorem Memo.setRead_of_ne (w : Memo El) {th th' : Nat} (rd : Option (Read El)) (h : th' ≠ th) :
    (w.setRead th rd).reads th' = w.reads th' := Function.update_of_ne h ..

/-- A thread's read, if it may be. -/
theorem Memo.Good.setRead (h : w.Good) {th : Nat} {rd : Option (Read El)}
    (hrd : ∀ rd' ∈ rd, (rd'.start.Made rd'.r ∧ Sound rd'.start ∧ Later rd'.start w.slots ∧
      Meets Sound Later Unmoved (Returns rd'.r rd'.start) rd'.rest w.slots) ∧
      (∀ i d, w.ended[i]? = some d → i < rd'.after → Later d.stop rd'.start) ∧
      rd'.after ≤ w.ended.length) : (w.setRead th rd).Good := by
  have hall : ∀ {th' rd'}, (w.setRead th rd).reads th' = some rd' →
      rd = some rd' ∨ w.reads th' = some rd' := by
    intro th' rd' hth'
    by_cases hth : th' = th
    · rw [hth, w.setRead_self] at hth'
      exact .inl hth'
    · rw [w.setRead_of_ne rd hth] at hth'
      exact .inr hth'
  refine ⟨h.sound, h.held, ?_, ?_, ?_, h.ended, h.ordered, h.counted⟩
  · intro th' rd' hth'
    exact (hall hth').elim (fun hnew => (hrd rd' hnew).1) h.reads
  · intro th' rd' i d hth' hd hi
    exact (hall hth').elim (fun hnew => (hrd rd' hnew).2.1 i d hd hi) fun hold => h.before hold hd hi
  · intro th' rd' hth'
    exact (hall hth').elim (fun hnew => (hrd rd' hnew).2.2) h.after

/-- An action of a read. -/
theorem Memo.Good.act (h : w.Good) {rd : Read El} {put : Slots El → Slots El}
    {rest : Slots El → Prog (Slots El) (Outcome Error (El rd.t))} (hrd : w.reads th = some rd)
    (hact : rd.rest = .act put rest) : Unmoved w.slots (put w.slots) ∧
    (({ w with slots := put w.slots } : Memo El).setRead th
      (some ⟨rd.t, rd.r, rd.start, rd.after, rest w.slots⟩)).Good := by
  obtain ⟨hmade, hstart, hlater, hmeets⟩ := h.reads hrd
  rw [hact] at hmeets
  obtain ⟨hs, hmoved, hrest⟩ := hmeets w.slots (.refl _) h.sound
  refine ⟨hmoved, ?_⟩
  have hgood : ({ w with slots := put w.slots } : Memo El).Good :=
    h.slots hs hmoved.later fun hheld => hmoved.later.made (h.held hheld)
  have hbefore := fun i d => h.before (i := i) (d := d) hrd
  have hafter := h.after hrd
  refine hgood.setRead ?_
  intro rd' hrd'
  cases hrd'
  exact ⟨⟨hmade, hstart, hlater.trans hmoved.later, hrest⟩, hbefore, hafter⟩

/-- A read that returns. -/
theorem Memo.Good.ends (h : w.Good) {rd : Read El} {res : Outcome Error (El rd.t)}
    (hrd : w.reads th = some rd) (hdone : rd.rest = .done res) :
    (({ w with ended := w.ended ++ [⟨rd.t, rd.r, rd.start, rd.after, w.slots, res⟩] } :
      Memo El).setRead th none).Good := by
  obtain ⟨hmade, hstart, hlater, hmeets⟩ := h.reads hrd
  rw [hdone] at hmeets
  have hres := hmeets w.slots (.refl _) h.sound
  have hlen : ∀ {i : Nat} {d : Ended El} {ds : List (Ended El)},
      (ds ++ [⟨rd.t, rd.r, rd.start, rd.after, w.slots, res⟩])[i]? = some d → i < ds.length →
        ds[i]? = some d := fun hd hi => (List.getElem?_append_left hi).symm.trans hd
  have hgood : ({ w with ended := w.ended ++ [⟨rd.t, rd.r, rd.start, rd.after, w.slots, res⟩] } :
      Memo El).Good := by
    refine ⟨h.sound, h.held, h.reads, ?_, ?_, ?_, ?_, ?_⟩
    · intro th' rd' i d hrd' hd hi
      exact h.before hrd' (hlen hd (Nat.lt_of_lt_of_le hi (h.after hrd'))) hi
    · intro th' rd' hrd'
      rw [List.length_append]
      exact (h.after hrd').trans (Nat.le_add_right _ _)
    · intro d hd
      rcases List.mem_append.mp hd with hd | hd
      · exact h.ended hd
      · rw [List.mem_singleton.mp hd]
        exact ⟨hlater, .refl _, hres⟩
    · intro i d d' hd hd' hi
      rcases List.mem_append.mp hd' with hd' | hd'
      · exact h.ordered (hlen hd (Nat.lt_of_lt_of_le hi (h.counted hd'))) hd' hi
      · rw [List.mem_singleton.mp hd'] at hi ⊢
        exact h.before hrd (hlen hd (Nat.lt_of_lt_of_le hi (h.after hrd))) hi
    · intro d hd
      rw [List.length_append]
      rcases List.mem_append.mp hd with hd | hd
      · exact (h.counted hd).trans (Nat.le_add_right _ _)
      · rw [List.mem_singleton.mp hd]
        exact (h.after hrd).trans (Nat.le_add_right _ _)
  exact hgood.setRead fun rd' hrd' => absurd hrd' (Option.not_mem_none rd')

/-! ## Every step keeps it -/

variable [DecidableEq ι]

/-- A new Resolvable's resolver is free, so `fixed` never panics. -/
theorem fixed_run (h : Sound m) (v : El t) : Resolvable.fixed v m = (.ok (.given m.next),
    ({ ((Resolvable.new : Call _ _ (Resolvable El t)) m).2 with
      resolverTaken := Function.update m.resolverTaken m.next true } : Slots El).set t m.next v) := by
  have htaken : m.resolverTaken m.next = false := (h.empty (Nat.le_refl _)).2
  have hnew : (Resolvable.new : Call (Slots El) Error (Resolvable El t)) m =
      (.ok (.given m.next), ((Resolvable.new : Call _ _ (Resolvable El t)) m).2) := rfl
  have hfree : ((Resolvable.new : Call _ _ (Resolvable El t)) m).2.resolverTaken m.next = false :=
    htaken
  rw [Resolvable.fixed, bind_of_ok hnew, bind_run, attempt_run, resolver_given, hfree]
  rfl

theorem Sound.fixed (h : Sound m) (v : El t) :
    Sound (Resolvable.fixed v m).2 ∧ Later m (Resolvable.fixed v m).2 := by
  rw [fixed_run h]
  obtain ⟨hs₁, hl₁⟩ := h.new (t := t)
  obtain ⟨hs₂, hl₂⟩ := hs₁.taken (Nat.lt_succ_self m.next)
  have hmade : Slots.Made { ((Resolvable.new : Call _ _ (Resolvable El t)) m).2 with
      resolverTaken := Function.update m.resolverTaken m.next true }
      (.given m.next : Resolvable El t) := List.mem_cons_self
  exact ⟨hs₂.set hmade (.inl ⟨_, rfl⟩), (hl₁.trans hl₂).trans (Slots.later_set _ _ v)⟩

/-- A read that starts. -/
theorem Memo.Good.value (h : w.Good) (hr : w.slots.Made r) :
    (w.setRead th (some ⟨t, r, w.slots, w.ended.length, r.read⟩)).Good := by
  refine h.setRead ?_
  intro rd hrd
  cases hrd
  refine ⟨⟨hr, h.sound, .refl _, meets_read h.sound hr (.refl _) h.sound⟩, ?_, Nat.le_refl _⟩
  intro i d hd _
  exact (h.ended (List.mem_of_getElem? hd)).2.1

/-- **A step** keeps all this, and takes nothing back. -/
theorem Memo.Good.step {e : Nat × Event El} (h : w.Good) (hs : w.Step e w') :
    w'.Good ∧ Later w.slots w'.slots := by
  cases hs with
  | new hidle =>
    obtain ⟨hs, hl⟩ := h.sound.new
    exact ⟨h.slots hs hl fun hheld => hl.made (h.held hheld), hl⟩
  | fixed hidle =>
    obtain ⟨hs, hl⟩ := h.sound.fixed _
    exact ⟨h.slots hs hl fun hheld => hl.made (h.held hheld), hl⟩
  | relation hidle hin =>
    obtain ⟨hs, hl⟩ := h.sound.relation hin
    exact ⟨h.slots hs hl fun hheld => hl.made (h.held hheld), hl⟩
  | @resolver th t r hidle hr =>
    obtain ⟨hs, hl⟩ := h.sound.resolver hr
    refine ⟨h.slots hs hl ?_, hl⟩
    intro s a hheld
    cases hout : (r.resolver w.slots).1 with
    | ok b =>
      rw [hout, handed, List.mem_cons] at hheld
      rcases hheld with hnew | hheld
      · obtain ⟨rfl, rfl⟩ := Prod.mk.inj hnew
        exact hl.made ((resolver_ok hout).1 ▸ hr)
      · exact hl.made (h.held hheld)
    | err e =>
      rw [hout] at hheld
      exact hl.made (h.held hheld)
    | panic =>
      rw [hout] at hheld
      exact hl.made (h.held hheld)
  | @resolve th t a v hidle hheld =>
    have hs := h.sound.set (v := v) (h.held hheld) (.inl ⟨a, rfl⟩)
    have hl := Slots.later_set w.slots a v
    exact ⟨h.slots hs hl fun hheld => hl.made (h.held (List.mem_of_mem_erase hheld)), hl⟩
  | value hidle hr => exact ⟨h.value hr, .refl _⟩
  | act hrd =>
    obtain ⟨hmoved, hgood⟩ := h.act hrd rfl
    exact ⟨hgood, hmoved.later⟩
  | ends hrd => exact ⟨h.ends hrd rfl, .refl _⟩

end Wilupgu.Plan
