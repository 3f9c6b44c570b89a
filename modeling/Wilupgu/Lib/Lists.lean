import Mathlib.Data.List.Forall2
import Mathlib.Data.List.Nodup
import Mathlib.Order.Lattice

/-! # Lists related entry by entry, and lists put together -/

namespace List.Forall₂

variable {α β γ : Type*} {R : α → β → Prop} {l : List α} {l' : List β}

theorem exists_of_mem_left (h : Forall₂ R l l') {a : α} (ha : a ∈ l) : ∃ b ∈ l', R a b := by
  induction h with
  | nil => cases ha
  | cons hr _ ih =>
    rcases mem_cons.mp ha with rfl | ha
    · exact ⟨_, mem_cons_self, hr⟩
    · obtain ⟨b, hb, hab⟩ := ih ha
      exact ⟨b, mem_cons_of_mem _ hb, hab⟩

theorem exists_of_mem_right (h : Forall₂ R l l') {b : β} (hb : b ∈ l') : ∃ a ∈ l, R a b :=
  exists_of_mem_left (R := fun b a => R a b) (Forall₂.flip h) hb

theorem exists_getElem?_left (h : Forall₂ R l l') {i : Nat} {a : α} (ha : l[i]? = some a) :
    ∃ b, l'[i]? = some b ∧ R a b := by
  induction h generalizing i with
  | nil => cases ha
  | cons hr _ ih =>
    cases i with
    | zero =>
      cases ha
      exact ⟨_, rfl, hr⟩
    | succ i => exact ih ha

/-- Two lists related to the same one are related. -/
theorem of_both {S : α → γ → Prop} {T : β → γ → Prop} {l'' : List γ} (h : Forall₂ R l l')
    (h' : Forall₂ S l l'') (hT : ∀ a b c, R a b → S a c → T b c) : Forall₂ T l' l'' := by
  induction h generalizing l'' with
  | nil =>
    cases h'
    exact .nil
  | cons hr _ ih =>
    cases h' with
    | cons hs hrest => exact .cons (hT _ _ _ hr hs) (ih hrest)

/-- Entries related to entries pairwise apart are apart. -/
theorem pairwise {S : β → β → Prop} {T : α → α → Prop} (h : Forall₂ R l l') (hs : l'.Pairwise S)
    (hT : ∀ a b a' b', R a b → R a' b' → S b b' → T a a') : l.Pairwise T := by
  induction h with
  | nil => exact .nil
  | cons hr hrest ih =>
    obtain ⟨hhead, htail⟩ := pairwise_cons.mp hs
    refine .cons (fun a' ha' => ?_) (ih htail)
    obtain ⟨b', hb', hr'⟩ := hrest.exists_of_mem_left ha'
    exact hT _ _ _ _ hr hr' (hhead b' hb')

/-- One entry of the second list replaced. -/
theorem set_right (h : Forall₂ R l l') {i : Nat} {b : β} (hb : ∀ a, l[i]? = some a → R a b) :
    Forall₂ R l (l'.set i b) := by
  induction h generalizing i with
  | nil => exact .nil
  | cons hr hrest ih =>
    cases i with
    | zero => exact .cons (hb _ rfl) hrest
    | succ i => exact .cons hr (ih hb)

theorem map_eq_map {f : α → γ} {g : β → γ} (h : Forall₂ R l l') (hR : ∀ a b, R a b → f a = g b) :
    l.map f = l'.map g := by
  induction h with
  | nil => rfl
  | cons hr _ ih => rw [map_cons, map_cons, hR _ _ hr, ih]

/-- One for each, if there is one for each. -/
theorem exists_of_forall (h : ∀ a ∈ l, ∃ b, R a b) : ∃ l', Forall₂ R l l' := by
  induction l with
  | nil => exact ⟨[], .nil⟩
  | cons a rest ih =>
    obtain ⟨b, hb⟩ := h a mem_cons_self
    obtain ⟨rest', hrest⟩ := ih fun a' ha' => h a' (mem_cons_of_mem a ha')
    exact ⟨b :: rest', .cons hb hrest⟩

end List.Forall₂

/-- Lists put together have no duplicates if what is in each of them tells which it is in. -/
theorem List.nodup_flatMap_of_key {α β : Type*} {l : List α} {f : α → List β} (key : β → α)
    (hl : l.Nodup) (hf : ∀ a, (f a).Nodup) (hkey : ∀ a, ∀ b ∈ f a, key b = a) :
    (l.flatMap f).Nodup := by
  refine List.nodup_flatMap.mpr ⟨fun a _ => hf a, hl.imp fun {a a'} hne => ?_⟩
  refine List.disjoint_left.mpr fun b hb hb' => hne ?_
  rw [← hkey a b hb, hkey a' b hb']

/-- What is found by a key that no other entry has. -/
theorem List.find?_key_eq_some {α β : Type*} [DecidableEq β] {l : List α} {key : α → β}
    (hl : (l.map key).Nodup) {k : β} {a : α} :
    l.find? (fun x => key x = k) = some a ↔ a ∈ l ∧ key a = k := by
  have hkey : ∀ {b}, l.find? (fun x => key x = k) = some b → key b = k := fun h => by
    simpa using List.find?_some h
  refine ⟨fun h => ⟨List.mem_of_find?_eq_some h, hkey h⟩, fun ⟨ha, hk⟩ => ?_⟩
  rcases hfound : l.find? fun x => key x = k with _ | b
  · have hnone := List.find?_eq_none.mp hfound a ha
    simp [hk] at hnone
  · rw [List.inj_on_of_nodup_map hl (List.mem_of_find?_eq_some hfound) ha
      ((hkey hfound).trans hk.symm)]

/-- **Keeping the larger one** from left to right leaves the first of the largest. -/
theorem List.foldl_larger {α β : Type*} [LinearOrder β] (key : α → β) {f : α → α → α}
    (hf : ∀ w d, f w d = if key w < key d then d else w) (w : α) (l : List α) :
    ∃ i : Nat, (w :: l)[i]? = some (l.foldl f w) ∧ (∀ x ∈ w :: l, key x ≤ key (l.foldl f w)) ∧
      ∀ j < i, ∀ x, (w :: l)[j]? = some x → key x < key (l.foldl f w) := by
  induction l generalizing w with
  | nil => exact ⟨0, rfl, by simp, fun j hj => absurd hj (Nat.not_lt_zero j)⟩
  | cons d l ih =>
    rw [List.foldl_cons, hf]
    by_cases hwd : key w < key d
    · rw [if_pos hwd]
      obtain ⟨i, hi, hmax, hfirst⟩ := ih d
      refine ⟨i + 1, hi, ?_, ?_⟩
      · intro x hx
        rcases List.mem_cons.mp hx with rfl | hx
        · exact hwd.le.trans (hmax d List.mem_cons_self)
        · exact hmax x hx
      · intro j hj x hx
        cases j with
        | zero =>
          cases hx
          exact hwd.trans_le (hmax d List.mem_cons_self)
        | succ j => exact hfirst j (Nat.lt_of_succ_lt_succ hj) x hx
    · rw [if_neg hwd]
      obtain ⟨i, hi, hmax, hfirst⟩ := ih w
      have hdw : key d ≤ key w := not_lt.mp hwd
      have hall : ∀ x ∈ w :: d :: l, key x ≤ key (l.foldl f w) := by
        intro x hx
        rcases List.mem_cons.mp hx with rfl | hx
        · exact hmax x List.mem_cons_self
        · rcases List.mem_cons.mp hx with rfl | hx
          · exact hdw.trans (hmax w List.mem_cons_self)
          · exact hmax x (List.mem_cons_of_mem _ hx)
      cases i with
      | zero => exact ⟨0, hi, hall, fun j hj => absurd hj (Nat.not_lt_zero j)⟩
      | succ i =>
        have hlt := hfirst 0 (Nat.succ_pos i) w rfl
        refine ⟨i + 2, hi, hall, ?_⟩
        intro j hj x hx
        rcases j with _ | _ | j
        · cases hx
          exact hlt
        · cases hx
          exact hdw.trans_lt hlt
        · exact hfirst (j + 1) (by omega) x hx
