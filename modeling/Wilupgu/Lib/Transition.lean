import Mathlib.Data.List.Forall2

/-! # Runs of a labelled transition system

A system is a step relation on states, its labels say what each step is. The
rules below are how facts about one step become facts about whole runs. -/

namespace Transition

variable {σ τ ε φ : Type*}

/-- The steps labelled `es`, in order, lead from one state to another. -/
inductive Runs (step : σ → ε → σ → Prop) : σ → List ε → σ → Prop
  | nil (s : σ) : Runs step s [] s
  | cons {s t u : σ} {e : ε} {es : List ε} :
      step s e t → Runs step t es u → Runs step s (e :: es) u

/-- A state some run from `init` ends in. -/
def Reachable (step : σ → ε → σ → Prop) (init s : σ) : Prop := ∃ es, Runs step init es s

/-- The steps that also meet a condition on the state before and the label. -/
def Where (step : σ → ε → σ → Prop) (ok : σ → ε → Prop) (s : σ) (e : ε) (t : σ) : Prop :=
  step s e t ∧ ok s e

/-- The steps to a state of some kind. -/
def Into (step : σ → ε → σ → Prop) (P : σ → Prop) (s : σ) (e : ε) (t : σ) : Prop :=
  step s e t ∧ P t

variable {step : σ → ε → σ → Prop} {s t u : σ} {e : ε} {es es' : List ε}

theorem Runs.append (h : Runs step s es t) (h' : Runs step t es' u) :
    Runs step s (es ++ es') u := by
  induction h with
  | nil => exact h'
  | cons hs _ ih => exact .cons hs (ih h')

theorem Runs.single (h : step s e t) : Runs step s [e] t := .cons h (.nil t)

theorem Runs.split (h : Runs step s (es ++ es') u) : ∃ t, Runs step s es t ∧ Runs step t es' u := by
  induction es generalizing s with
  | nil => exact ⟨s, .nil s, h⟩
  | cons e es ih =>
    cases h with
    | cons hs hr =>
      obtain ⟨t, h₁, h₂⟩ := ih hr
      exact ⟨t, .cons hs h₁, h₂⟩

/-- What one step preserves, a run preserves. -/
theorem Runs.preserves {I : σ → Prop} (hstep : ∀ s e t, I s → step s e t → I t)
    (h : Runs step s es t) (hs : I s) : I t := by
  induction h with
  | nil => exact hs
  | cons hst _ ih => exact ih (hstep _ _ _ hs hst)

/-- A run of one system is a run of any system with at least its steps. -/
theorem Runs.mono {step' : σ → ε → σ → Prop} (hsub : ∀ s e t, step s e t → step' s e t)
    (h : Runs step s es t) : Runs step' s es t := by
  induction h with
  | nil => exact .nil _
  | cons hs _ ih => exact .cons (hsub _ _ _ hs) ih

theorem Runs.of_where {ok : σ → ε → Prop} (h : Runs (Where step ok) s es t) : Runs step s es t :=
  h.mono fun _ _ _ => And.left

/-- What an invariant gives of each step, every step of a run meets. -/
theorem Runs.where_of_invariant {I : σ → Prop} {ok : σ → ε → Prop}
    (hstep : ∀ s e t, I s → step s e t → I t) (hok : ∀ s e t, I s → step s e t → ok s e)
    (h : Runs step s es t) (hs : I s) : Runs (Where step ok) s es t := by
  induction h with
  | nil => exact .nil _
  | cons hst _ ih => exact .cons ⟨hst, hok _ _ _ hs hst⟩ (ih (hstep _ _ _ hs hst))

/-- Every step of a run meets the condition, or there is a first one that doesn't. -/
theorem Runs.where_or (ok : σ → ε → Prop) (h : Runs step s es u) :
    Runs (Where step ok) s es u ∨ ∃ es₁ t e t' es₂,
      Runs (Where step ok) s es₁ t ∧ step t e t' ∧ ¬ok t e ∧ Runs step t' es₂ u := by
  induction h with
  | nil => exact .inl (.nil _)
  | @cons s t u e es hs hr ih =>
    by_cases hok : ok s e
    · rcases ih with hall | ⟨es₁, t₁, e₁, t', es₂, hr₁, hs₁, hbad, hrest⟩
      · exact .inl (.cons ⟨hs, hok⟩ hall)
      · exact .inr ⟨e :: es₁, t₁, e₁, t', es₂, .cons ⟨hs, hok⟩ hr₁, hs₁, hbad, hrest⟩
    · exact .inr ⟨[], s, e, t, es, .nil s, hs, hok, hr⟩

/-- **Exactness rule.** If a step keeps `P` exactly where it meets a condition, a
run goes through states with `P` alone exactly if all its steps meet it. -/
theorem Runs.into_iff_where {I P : σ → Prop} {ok : σ → ε → Prop}
    (hstep : ∀ s e t, I s → step s e t → I t)
    (hiff : ∀ s e t, I s → P s → step s e t → (P t ↔ ok s e))
    (hI : I s) (hP : P s) :
    Runs (Into step P) s es u ↔ Runs (Where step ok) s es u := by
  constructor
  · intro hr
    induction hr with
    | nil => exact .nil _
    | cons hs _ ih =>
      obtain ⟨hs, hP'⟩ := hs
      exact .cons ⟨hs, (hiff _ _ _ hI hP hs).mp hP'⟩ (ih (hstep _ _ _ hI hs) hP')
  · intro hr
    induction hr with
    | nil => exact .nil _
    | cons hs _ ih =>
      obtain ⟨hs, hok⟩ := hs
      have hP' := (hiff _ _ _ hI hP hs).mpr hok
      exact .cons ⟨hs, hP'⟩ (ih (hstep _ _ _ hI hs) hP')

theorem Reachable.refl : Reachable step s s := ⟨[], .nil s⟩

theorem Reachable.snoc (h : Reachable step s t) (hs : step t e u) : Reachable step s u :=
  h.elim fun _ hr => ⟨_, hr.append (.single hs)⟩

theorem Reachable.trans (h : Reachable step s t) (h' : Runs step t es u) : Reachable step s u :=
  h.elim fun _ hr => ⟨_, hr.append h'⟩

/-- **Invariant rule.** What holds at the start and is kept by every step
holds in every reachable state. -/
theorem Reachable.invariant {I : σ → Prop} (h : Reachable step s t) (hinit : I s)
    (hstep : ∀ s e t, I s → step s e t → I t) : I t :=
  h.elim fun _ hr => hr.preserves hstep hinit

/-- **Simulation rule.** If every step from related states is matched by a
step of the other system to related states again, every run is matched. -/
theorem Runs.simulates {step' : τ → φ → τ → Prop} {R : σ → τ → Prop} {label : ε → φ}
    (hsim : ∀ s e t s', R s s' → step s e t → ∃ t', step' s' (label e) t' ∧ R t t')
    (h : Runs step s es t) {s' : τ} (hR : R s s') :
    ∃ t', Runs step' s' (es.map label) t' ∧ R t t' := by
  induction h generalizing s' with
  | nil => exact ⟨s', .nil s', hR⟩
  | cons hs _ ih =>
    obtain ⟨m', hs', hm⟩ := hsim _ _ _ _ hR hs
    obtain ⟨t', hr', ht⟩ := ih hm
    exact ⟨t', .cons hs' hr', ht⟩

/-- The same with steps of the same labels. -/
theorem Runs.follows {step' : τ → ε → τ → Prop} {R : σ → τ → Prop}
    (hsim : ∀ s e t s', R s s' → step s e t → ∃ t', step' s' e t' ∧ R t t')
    (h : Runs step s es t) {s' : τ} (hR : R s s') : ∃ t', Runs step' s' es t' ∧ R t t' := by
  obtain ⟨t', hr, ht⟩ : ∃ t', Runs step' s' (es.map id) t' ∧ R t t' := h.simulates hsim hR
  rw [List.map_id] at hr
  exact ⟨t', hr, ht⟩

/-- **Agreement rule.** If two systems' steps of one label from one state end
alike, their runs of the same labels do, as long as the first one's are `ok`. -/
theorem Runs.agree {step' : σ → ε → σ → Prop} (label : ε → φ) (ok : ε → Prop)
    (hstep : ∀ s e t e' t', step s e t → step' s e' t' → label e = label e' → ok e →
      e = e' ∧ t = t')
    (h : Runs step s es t) {es' : List ε} {t' : σ} (h' : Runs step' s es' t')
    (hlabel : es.map label = es'.map label) (hok : ∀ e ∈ es, ok e) : es = es' ∧ t = t' := by
  induction h generalizing es' with
  | nil =>
    cases h' with
    | nil => exact ⟨rfl, rfl⟩
    | cons _ _ => cases hlabel
  | cons hs _ ih =>
    cases h' with
    | nil => cases hlabel
    | cons hs' hr' =>
      obtain ⟨hfirst, hrest⟩ := List.cons.inj hlabel
      obtain ⟨rfl, rfl⟩ := hstep _ _ _ _ _ hs hs' hfirst (hok _ List.mem_cons_self)
      obtain ⟨rfl, rfl⟩ := ih hr' hrest fun e he => hok e (List.mem_cons_of_mem _ he)
      exact ⟨rfl, rfl⟩

end Transition
