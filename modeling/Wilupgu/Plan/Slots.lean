import Wilupgu.Plan.Deferred

/-! # What the slots keep

Each slot of a relation is empty, or keeps what the relation is worth. A read
leaves all slots so, whatever other threads do between its actions, and what it
returns is what its Resolvable was worth at its start or at its end. -/

namespace Wilupgu.Plan

open Atomic Atomic.Prog Call

variable {ι : Type} {El : ι → Type} {s t : ι}

/-- Addresses are unique, inputs are older, and what is kept is right. -/
structure Sound (m : Slots El) : Prop where
  below {t : ι} {r : Resolvable El t} : m.Made r → r.addr < m.next
  unique {s t : ι} {q : Resolvable El s} {r : Resolvable El t} : m.Made q → m.Made r →
    q.addr = r.addr → (⟨s, q⟩ : AnyResolvable El) = ⟨t, r⟩
  older {s t : ι} {a I : Nat} {inputs : Fin I → Resolvable El s} {f : (Fin I → El s) → El t} :
    m.Made (.computed a I inputs f) → ∀ i, m.Made (inputs i) ∧ (inputs i).addr < a
  empty {a : Nat} : m.next ≤ a → (∀ t, m.value t a = none) ∧ m.resolverTaken a = false
  kept {s t : ι} {a I : Nat} {inputs : Fin I → Resolvable El s} {f : (Fin I → El s) → El t}
    {v : El t} : m.Made (.computed a I inputs f) → m.value t a = some v →
    (Resolvable.computed a I inputs f).eval m = some v

/-- What any action does to the slots: nothing is taken back. -/
structure Later (m m' : Slots El) : Prop where
  made {x : AnyResolvable El} : x ∈ m.made → x ∈ m'.made
  value {t : ι} {a : Nat} {v : El t} : m.value t a = some v → m'.value t a = some v
  taken {a : Nat} : m.resolverTaken a = true → m'.resolverTaken a = true
  ran (a : Nat) : m.ran a ≤ m'.ran a

/-- What a read does: what anything is worth stays as it is. -/
structure Unmoved (m m' : Slots El) : Prop where
  later : Later m m'
  eval {t : ι} {r : Resolvable El t} : m.Made r → r.eval m' = r.eval m

variable {m m₀ m' m'' : Slots El} {q : Resolvable El s} {r : Resolvable El t} {v : El t}

theorem Later.refl (m : Slots El) : Later m m := ⟨id, id, id, fun _ => Nat.le_refl _⟩

theorem Later.trans (h : Later m m') (h' : Later m' m'') : Later m m'' :=
  ⟨fun hx => h'.made (h.made hx), fun hv => h'.value (h.value hv), fun ha => h'.taken (h.taken ha),
    fun a => (h.ran a).trans (h'.ran a)⟩

theorem Later.eval (h : Later m m') (hv : r.eval m = some v) : r.eval m' = some v :=
  Resolvable.eval_mono (fun _ _ _ => h.value) hv

theorem Unmoved.refl (m : Slots El) : Unmoved m m := ⟨.refl m, fun _ => rfl⟩

theorem Unmoved.trans (h : Unmoved m m') (h' : Unmoved m' m'') : Unmoved m m'' :=
  ⟨h.later.trans h'.later, fun hr => (h'.eval (h.later.made hr)).trans (h.eval hr)⟩

theorem agreement : Agreement (σ := Slots El) Later Unmoved := ⟨.refl, .trans, Unmoved.later⟩

/-- What a given value is depended on by, was made after it. -/
theorem Sound.made_given (h : Sound m) (hr : m.Made r) {a : Nat} (hd : r.DependsOn s a) :
    m.Made (.given a : Resolvable El s) := by
  induction r with
  | given b =>
    obtain ⟨rfl, rfl⟩ := hd
    exact hr
  | computed b I inputs f ih =>
    obtain ⟨i, hi⟩ := hd
    exact ih i (h.older hr i).1 hi

/-! ## Slots that are set -/

section Set

variable [DecidableEq ι] {a b : Nat}

theorem Slots.set_value_self (m : Slots El) (a : Nat) (v : El t) :
    (m.set t a v).value t a = some ((m.value t a).getD v) := by
  unfold Slots.set
  split
  · rename_i w hw
    rw [hw, Option.getD_some]
  · rename_i hw
    rw [hw, Option.getD_none]
    simp

theorem Slots.set_value_of_ne (m : Slots El) (v : El t) (h : ¬(s = t ∧ b = a)) :
    (m.set t a v).value s b = m.value s b := by
  unfold Slots.set
  split
  · rfl
  · by_cases hs : s = t
    · subst hs
      have hb : b ≠ a := fun hb => h ⟨rfl, hb⟩
      simp [hb]
    · simp [Function.update_of_ne hs]

@[simp] theorem Slots.set_made (m : Slots El) (a : Nat) (v : El t) :
    (m.set t a v).made = m.made := by
  unfold Slots.set
  split <;> rfl

@[simp] theorem Slots.set_next (m : Slots El) (a : Nat) (v : El t) :
    (m.set t a v).next = m.next := by
  unfold Slots.set
  split <;> rfl

@[simp] theorem Slots.set_taken (m : Slots El) (a : Nat) (v : El t) :
    (m.set t a v).resolverTaken = m.resolverTaken := by
  unfold Slots.set
  split <;> rfl

@[simp] theorem Slots.set_ran (m : Slots El) (a : Nat) (v : El t) :
    (m.set t a v).ran = m.ran := by
  unfold Slots.set
  split <;> rfl

theorem Slots.made_set {w : El s} : (m.set s a w).Made r ↔ m.Made r := by
  rw [Made, Slots.set_made, Made]

/-- The first value stays. -/
theorem Slots.later_set (m : Slots El) (a : Nat) (v : El t) : Later m (m.set t a v) := by
  refine ⟨fun hx => by rwa [Slots.set_made], ?_, fun ha => by rwa [Slots.set_taken], ?_⟩
  · intro s b w hw
    by_cases hsb : s = t ∧ b = a
    · obtain ⟨rfl, rfl⟩ := hsb
      rw [Slots.set_value_self, hw, Option.getD_some]
    · rw [Slots.set_value_of_ne m v hsb, hw]
  · intro b
    rw [Slots.set_ran]

/-- A slot takes a value that was given, or what its relation is worth. -/
theorem Sound.set (h : Sound m) (hr : m.Made r)
    (hv : (∃ a, r = .given a) ∨ r.eval m = some v) : Sound (m.set t r.addr v) := by
  refine ⟨?_, ?_, ?_, ?_, ?_⟩
  · intro s q hq
    rw [Slots.set_next]
    exact h.below (Slots.made_set.mp hq)
  · intro s s' q q' hq hq'
    exact h.unique (Slots.made_set.mp hq) (Slots.made_set.mp hq')
  · intro s s' a I inputs f hq i
    rw [Slots.made_set]
    exact h.older (Slots.made_set.mp hq) i
  · intro a ha
    rw [Slots.set_next] at ha
    obtain ⟨hvalue, htaken⟩ := h.empty ha
    refine ⟨?_, by rwa [Slots.set_taken]⟩
    intro s
    rw [Slots.set_value_of_ne m v, hvalue]
    intro hsa
    exact absurd (h.below hr) (by omega)
  · intro s s' a I inputs f w hq hw
    have hq' := Slots.made_set.mp hq
    refine (Slots.later_set m r.addr v).eval ?_
    by_cases hsa : s' = t ∧ a = r.addr
    · obtain ⟨rfl, ha⟩ := hsa
      have hsame : Resolvable.computed a I inputs f = r :=
        eq_of_heq (Sigma.mk.inj (h.unique hq' hr ha)).2
      rcases hv with hgiven | hv
      · obtain ⟨b, rfl⟩ := hgiven
        cases hsame
      · subst hsame
        -- what was there before was right, and so is what is put there now
        rw [← show a = (Resolvable.computed a I inputs f).addr from rfl, Slots.set_value_self] at hw
        cases hold : m.value s' a with
        | none =>
          rw [hold] at hw
          exact Option.some.inj hw ▸ hv
        | some w' =>
          rw [hold] at hw
          exact Option.some.inj hw ▸ h.kept hq' hold
    · rw [Slots.set_value_of_ne m v hsa] at hw
      exact h.kept hq' hw

/-- No given value is at a relation's address. -/
theorem Sound.eval_set {I : Nat} {inputs : Fin I → Resolvable El s} {f : (Fin I → El s) → El t}
    (h : Sound m) (hr : m.Made (.computed a I inputs f)) {u : ι} {q : Resolvable El u}
    (hq : m.Made q) : q.eval (m.set t a v) = q.eval m := by
  refine Resolvable.eval_congr ?_
  intro u' b hd
  refine Slots.set_value_of_ne m v ?_
  intro hub
  obtain ⟨rfl, rfl⟩ := hub
  have hsame := h.unique (h.made_given hq hd) hr rfl
  cases hsame

end Set

/-! ## Reading, whatever other threads do -/

/-- What a read returns: a value that is right by now, or an error that was right at the start. -/
def Returns (r : Resolvable El t) (m₀ m : Slots El) (res : Outcome Error (El t)) : Prop :=
  (∃ v, res = .ok v ∧ r.eval m = some v) ∨ res = .err .NotGivenYet ∧ r.eval m₀ = none

def ReturnsAll {I : Nat} (x : Fin I → Resolvable El t) (m₀ m : Slots El)
    (res : Outcome Error (Fin I → El t)) : Prop :=
  (∃ vs, res = .ok vs ∧ ∀ i, (x i).eval m = some (vs i)) ∨
    res = .err .NotGivenYet ∧ ∃ i, (x i).eval m₀ = none

/-- What the slot keeps, is right by now. -/
theorem meets_valueOr {a : Nat} {source : Prog (Slots El) (Outcome Error (El t))}
    (hkept : ∀ m₁ v, Later m m₁ → Sound m₁ → m₁.value t a = some v → r.eval m₁ = some v)
    (hsource : ∀ m₁, Later m m₁ → Sound m₁ → m₁.value t a = none →
      Meets Sound Later Unmoved (Returns r m₀) source m₁) :
    Meets Sound Later Unmoved (Returns r m₀) (valueOr t a source) m := by
  intro m₁ hm₁ hs₁
  refine ⟨hs₁, .refl m₁, ?_⟩
  cases hv : m₁.value t a with
  | some v =>
    simp only [hv]
    exact fun m₂ hm₂ _ => .inl ⟨v, rfl, hm₂.eval (hkept m₁ v hm₁ hs₁ hv)⟩
  | none =>
    simp only [hv]
    exact hsource m₁ hm₁ hs₁ hv

variable [DecidableEq ι]

theorem meets_collect {I : Nat} {x : Fin I → Resolvable El t} (hm : Later m₀ m) (hs : Sound m)
    (h : ∀ i m, Later m₀ m → Sound m →
      Meets Sound Later Unmoved (Returns (x i) m₀) (x i).read m) :
    Meets Sound Later Unmoved (ReturnsAll x m₀) (collect fun i => (x i).read) m := by
  induction I generalizing m with
  | zero => exact fun _ _ _ => .inl ⟨Fin.elim0, rfl, fun i => i.elim0⟩
  | succ I ih =>
    rw [collect]
    refine (h 0 m hm hs).bind agreement hs ?_
    intro res m₁ hm₁ hs₁ hres
    rcases hres with ⟨v, rfl, hv⟩ | ⟨rfl, hnone⟩
    · refine (ih (x := fun i => x i.succ) (hm.trans hm₁) hs₁ fun i => h i.succ).bind agreement hs₁ ?_
      intro res m₂ hm₂ hs₂ hres
      rcases hres with ⟨vs, rfl, hvs⟩ | ⟨rfl, i, hnone⟩
      · intro m₃ hm₃ hs₃
        refine .inl ⟨Fin.cons v vs, rfl, ?_⟩
        intro i
        refine Fin.cases ?_ (fun i => ?_) i
        · exact (hm₂.trans hm₃).eval hv
        · exact hm₃.eval (hvs i)
      · exact fun _ _ _ => .inr ⟨rfl, i.succ, hnone⟩
    · exact fun _ _ _ => .inr ⟨rfl, 0, hnone⟩

omit [DecidableEq ι] in
theorem Sound.run (h : Sound m) (a : Nat) : Sound (m.run a) ∧ Unmoved m (m.run a) := by
  have hvalue : (m.run a).value = m.value := rfl
  have heval : ∀ {t : ι} (r : Resolvable El t), r.eval (m.run a) = r.eval m :=
    fun r => Resolvable.eval_congr fun _ _ _ => rfl
  refine ⟨⟨h.below, h.unique, h.older, h.empty, ?_⟩, ⟨id, id, id, ?_⟩, fun _ => heval _⟩
  · intro s t a I inputs f v hr hv
    rw [heval]
    exact h.kept hr hv
  · intro b
    by_cases hb : b = a
    · subst hb
      exact Nat.le_of_lt (by simp [Slots.run])
    · simp [Slots.run, hb]

/-- **A read**, by induction on the Resolvable: its inputs are read first. -/
theorem meets_read (hs₀ : Sound m₀) (hr : m₀.Made r) (hm : Later m₀ m) (hs : Sound m) :
    Meets Sound Later Unmoved (Returns r m₀) r.read m := by
  induction r generalizing m with
  | @given t a =>
    rw [Resolvable.read]
    refine meets_valueOr (fun _ _ _ _ hv => hv) ?_
    intro m₁ hm₁ _ hv _ _ _
    refine .inr ⟨rfl, ?_⟩
    cases hv₀ : m₀.value t a with
    | none => exact hv₀
    | some v =>
      rw [(hm.trans hm₁).value hv₀] at hv
      cases hv
  | @computed s t a I inputs f ih =>
    rw [Resolvable.read]
    have hmade : ∀ {m₁}, Later m m₁ → m₁.Made (.computed a I inputs f) :=
      fun hm₁ => (hm.trans hm₁).made hr
    refine meets_valueOr (fun m₁ v hm₁ hs₁ hv => hs₁.kept (hmade hm₁) hv) ?_
    intro m₁ hm₁ hs₁ _
    have hin := meets_collect (x := inputs) (hm.trans hm₁) hs₁ fun i m hm hs =>
      ih i (hs₀.older hr i).1 hm hs
    have hcompute : Meets Sound Later Unmoved (Returns (.computed a I inputs f) m₀)
        (compute a f fun i => (inputs i).read) m₁ := by
      refine hin.bind agreement hs₁ ?_
      intro res m₂ hm₂ hs₂ hres
      rcases hres with ⟨vs, rfl, hvs⟩ | ⟨rfl, i, hnone⟩
      · intro m₃ hm₃ hs₃
        obtain ⟨hsrun, hrun⟩ := hs₃.run a
        refine ⟨hsrun, hrun, ?_⟩
        intro m₄ hm₄ hs₄
        have hlater := (hm₃.trans hrun.later).trans hm₄
        exact .inl ⟨f vs, rfl,
          Resolvable.eval_computed_eq_some.mpr ⟨vs, fun i => hlater.eval (hvs i), rfl⟩⟩
      · exact fun _ _ _ => .inr ⟨rfl, Resolvable.eval_computed_eq_none.mpr ⟨i, hnone⟩⟩
    refine hcompute.bind agreement hs₁ ?_
    intro res m₂ hm₂ hs₂ hres
    rcases hres with ⟨v, rfl, hv⟩ | ⟨rfl, hnone⟩
    · intro m₃ hm₃ hs₃
      have hmade₃ := hmade ((hm₁.trans hm₂).trans hm₃)
      refine ⟨hs₃.set hmade₃ (.inr (hm₃.eval hv)),
        ⟨Slots.later_set m₃ a v, fun hq => hs₃.eval_set hmade₃ hq⟩, ?_⟩
      intro m₄ hm₄ _
      refine .inl ⟨_, rfl, ((Slots.later_set m₃ a v).trans hm₄).eval ?_⟩
      -- a value that another read kept is the same one
      cases hold : m₃.value t a with
      | none => exact hm₃.eval hv
      | some w => exact hs₃.kept hmade₃ hold
    · exact fun _ _ _ => .inr ⟨rfl, hnone⟩

/-! ## Reading alone -/

/-- What a read would return if it took no time. -/
def Resolvable.valueIn (r : Resolvable El t) (m : Slots El) : Outcome Error (El t) :=
  match r.eval m with
  | some v => .ok v
  | none => .err .NotGivenYet

/-- **Alone, a read returns what its Resolvable is worth**, and moves nothing. -/
theorem read_solo (hs : Sound m) (hr : m.Made r) : (r.read.solo m).1 = r.valueIn m ∧
    Sound (r.read.solo m).2 ∧ Unmoved m (r.read.solo m).2 := by
  obtain ⟨hs', hmoved, hres⟩ :=
    (meets_read hs hr (.refl m) hs).solo agreement Unmoved.refl Unmoved.trans hs
  refine ⟨?_, hs', hmoved⟩
  rcases hres with ⟨v, hv, heval⟩ | ⟨he, hnone⟩
  · rw [hv, Resolvable.valueIn, ← hmoved.eval hr, heval]
  · rw [he, Resolvable.valueIn, hnone]

end Wilupgu.Plan
