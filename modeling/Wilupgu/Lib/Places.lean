import Mathlib.Data.List.AList

/-! # Numbered places

What stands at numbered places, each holding one value or none. `Places` is
Mathlib's `AList` over numbers; this file adds the list of the values that
stand somewhere, and how it changes when one is put down or taken away. -/

abbrev Places (α : Type) := AList fun _ : Nat => α

namespace AList

variable {α : Type} {s : Places α} {k k' : Nat} {a b : α}

/-- The values that stand somewhere. -/
def values (s : Places α) : List α := s.entries.map Sigma.snd

/-- Nothing stands at `k`. -/
def Free (s : Places α) (k : Nat) : Prop := s.lookup k = none

instance (s : Places α) (k : Nat) : Decidable (s.Free k) :=
  inferInstanceAs (Decidable (s.lookup k = none))

/-- What stands where, from a list with no number twice. -/
def ofList {β : Type} (key : β → Nat) (val : β → α) (l : List β) (h : (l.map key).Nodup) :
    Places α where
  entries := l.map fun b => ⟨key b, val b⟩
  nodupKeys := by
    rw [List.NodupKeys, List.keys, List.map_map]
    exact h

/-- Only the values that `f` holds of. -/
def keep (s : Places α) (f : α → Bool) : Places α where
  entries := s.entries.filter fun e => f e.2
  nodupKeys := s.nodupKeys.sublist List.filter_sublist

/-- The value at `k` moved to `k'`. -/
def move (s : Places α) (k k' : Nat) : Places α :=
  match s.lookup k with
  | some a => (s.erase k).insert k' a
  | none => s

/-- The values at `k` and `k'` in each other's place. -/
def swap (s : Places α) (k k' : Nat) : Places α :=
  match s.lookup k, s.lookup k' with
  | some a, some b => (s.insert k b).insert k' a
  | _, _ => s

theorem free_iff : s.Free k ↔ k ∉ s := AList.lookup_eq_none

theorem lookup_insert_eq (s : Places α) (k k' : Nat) (a : α) :
    (s.insert k a).lookup k' = if k' = k then some a else s.lookup k' := by
  split
  · subst k'
    exact AList.lookup_insert s
  · exact AList.lookup_insert_ne ‹_›

theorem lookup_insert_self (h : s.lookup k = some a) (k' : Nat) :
    (s.insert k a).lookup k' = s.lookup k' := by
  rw [lookup_insert_eq]
  split
  · subst k'
    exact h.symm
  · rfl

theorem lookup_erase_eq (s : Places α) (k k' : Nat) :
    (s.erase k).lookup k' = if k' = k then none else s.lookup k' := by
  split
  · subst k'
    exact AList.lookup_erase k s
  · exact AList.lookup_erase_ne ‹_›

theorem lookup_ofList {β : Type} {key : β → Nat} {val : β → α} {l : List β}
    {h : (l.map key).Nodup} :
    (ofList key val l h).lookup k = some a ↔ ∃ b ∈ l, key b = k ∧ val b = a := by
  rw [← Option.mem_def, AList.mem_lookup_iff]
  simp only [ofList, List.mem_map, Sigma.mk.injEq, heq_eq_eq]

theorem lookup_keep {f : α → Bool} :
    (s.keep f).lookup k = some a ↔ s.lookup k = some a ∧ f a = true := by
  simp only [← Option.mem_def, AList.mem_lookup_iff, keep, List.mem_filter]

theorem lookup_move (h : s.lookup k = some a) (x : Nat) :
    (s.move k k').lookup x =
      if x = k' then some a else if x = k then none else s.lookup x := by
  simp only [move, h, lookup_insert_eq, lookup_erase_eq]

theorem lookup_swap (h : s.lookup k = some a) (h' : s.lookup k' = some b) (x : Nat) :
    (s.swap k k').lookup x =
      if x = k' then some a else if x = k then some b else s.lookup x := by
  simp only [swap, h, h', lookup_insert_eq]

/-! ## The values -/

theorem mem_values : a ∈ s.values ↔ ∃ k, s.lookup k = some a := by
  simp only [values, List.mem_map, Sigma.exists, exists_eq_right, ← AList.mem_lookup_iff,
    Option.mem_def]

theorem values_insert (s : Places α) (k : Nat) (a : α) :
    (s.insert k a).values = a :: (s.erase k).values := rfl

theorem erase_of_free (h : s.Free k) : s.erase k = s :=
  AList.ext (List.kerase_of_notMem_keys (free_iff.mp h))

theorem values_insert_of_free (h : s.Free k) : (s.insert k a).values = a :: s.values := by
  rw [values_insert, erase_of_free h]

/-- Taking a value away leaves the others. -/
theorem values_erase (h : s.lookup k = some a) : s.values.Perm (a :: (s.erase k).values) := by
  have hk : k ∈ s.entries.keys := AList.lookup_isSome.mp (by rw [h]; rfl)
  obtain ⟨b, l₁, l₂, -, he, hk'⟩ := List.exists_of_kerase hk
  have hb : s.lookup k = some b := AList.mem_lookup_iff.mpr (by rw [he]; simp)
  obtain rfl : b = a := Option.some.inj (hb.symm.trans h)
  have herase : (s.erase k).entries = l₁ ++ l₂ := hk'
  rw [values, values, he, herase, List.map_append, List.map_append, List.map_cons]
  exact List.perm_middle

theorem values_move (h : s.lookup k = some a) (hk : k' = k ∨ s.Free k') :
    s.values.Perm (s.move k k').values := by
  have hfree : (s.erase k).Free k' := by
    rw [Free, lookup_erase_eq]
    rcases hk with rfl | hk
    · rw [if_pos rfl]
    · rw [hk, ite_self]
  simp only [move, h]
  rw [values_insert_of_free hfree]
  exact values_erase h

theorem values_swap (h : s.lookup k = some a) (h' : s.lookup k' = some b) :
    s.values.Perm (s.swap k k').values := by
  simp only [swap, h, h']
  by_cases hk : k' = k
  · subst k'
    obtain rfl : b = a := Option.some.inj (h'.symm.trans h)
    rw [AList.insert_insert, values_insert]
    exact values_erase h
  · have hi : (s.insert k b).lookup k' = some b := by rw [lookup_insert_eq, if_neg hk, h']
    have h₁ : (b :: (s.erase k).values).Perm (b :: ((s.insert k b).erase k').values) := by
      rw [← values_insert]
      exact values_erase hi
    rw [values_insert]
    exact (values_erase h).trans (.cons a h₁.cons_inv)

/-- The same values at the same numbers are the same values. -/
theorem values_perm {s s' : Places α} (h : ∀ k, s.lookup k = s'.lookup k) :
    s.values.Perm s'.values := by
  refine List.Perm.map Sigma.snd (List.lookup_ext s.nodupKeys s'.nodupKeys fun k a => ?_)
  have hk : s.entries.dlookup k = s'.entries.dlookup k := h k
  rw [hk]

/-! ## What the values have -/

section Count

variable {β : Type} [BEq β] (f : α → List β) (x : β)

theorem count_insert (s : Places α) (k : Nat) (a : α) :
    ((s.insert k a).values.flatMap f).count x =
      (f a).count x + ((s.erase k).values.flatMap f).count x := by
  rw [values_insert, List.flatMap_cons, List.count_append]

theorem count_insert_of_free (h : s.Free k) :
    ((s.insert k a).values.flatMap f).count x =
      (f a).count x + (s.values.flatMap f).count x := by
  rw [count_insert, erase_of_free h]

theorem count_of_lookup (h : s.lookup k = some a) :
    (s.values.flatMap f).count x = (f a).count x + ((s.erase k).values.flatMap f).count x := by
  rw [((values_erase h).flatMap_right f).count_eq, List.flatMap_cons, List.count_append]

end Count

end AList
