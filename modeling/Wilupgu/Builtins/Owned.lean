import Wilupgu.Builtins.Writes

/-! # Native code keeps to its slots' lengths

A slot may be longer than its builtin needs. What native code does to the
elements needed depends on nothing but them, and it leaves the others, and
every slot it only reads, as they were. -/

namespace Wilupgu.Builtins

open Backend Loops Native

variable {F : Type} {m : List UInt32} {wg : Workgroups} {slots slots' : List (Slot F)}

/-- Native code on the slots: what they hold then, and whether it panicked. It
writes once, at its end, so a panic leaves them as they were. -/
def Builtin.run [Floats F] (b : Builtin) (m : List UInt32) (slots : List (Slot F)) :
    List (Slot F) × Bool :=
  match b.native m slots with
  | .ok ends => (ends, false)
  | _ => (slots, true)

/-- The first `n` elements of slot `i`. -/
def firsts (slots : List (Slot F)) (i n : Nat) : Option (List F) :=
  slots[i]?.map fun slot => slot.elems.take n

/-- The same first elements, `lens` of them slot by slot. -/
def SameFirst (lens : List Nat) (slots slots' : List (Slot F)) : Prop :=
  ∀ i n, lens[i]? = some n → firsts slots i n = firsts slots' i n

/-- As long as before, with the same elements from the needed ones on, and
inputs the same as a whole. -/
structure Untouched (b : Builtin) (lens : List Nat) (slots ends : List (Slot F)) : Prop where
  count : ends.length = slots.length
  longer : ∀ (i n : Nat) (slot slot' : Slot F), lens[i]? = some n → slots[i]? = some slot →
    ends[i]? = some slot' →
      slot'.elems.length = slot.elems.length ∧
        ∀ j, n ≤ j → slot'.elems[j]? = slot.elems[j]?
  inputs : ∀ (i : Nat) (kind : DataKind),
    b.signature.layout[i]? = some (.Input kind) → ends[i]? = slots[i]?

/-! ## The slot that is written -/

theorem run_of_ok [Floats F] {b : Builtin} (hm : b.MetaOk m) (hs : Bound b m wg slots) :
    b.run m slots = (b.written m slots, false) ∨ b.run m slots = (slots, true) := by
  rw [Builtin.run]
  rcases hr : b.native m slots with ends | e | _
  · exact .inl (by rw [native_ok hm hs hr])
  · exact .inr rfl
  · exact .inr rfl

/-- It is no input, and what is written of it is needed. -/
theorem out_spec (b : Builtin) (m : List UInt32) (wg : Workgroups) :
    (∃ role, b.signature.layout[b.out - 1]? = some role ∧ role.isInput = false) ∧
      ∃ n, (b.minLens m wg)[b.out - 1]? = some n ∧ b.owns m ≤ n := by
  cases b <;> refine ⟨⟨_, rfl, rfl⟩, _, rfl, ?_⟩
  all_goals first
    | exact Nat.le_refl _
    | exact partials_pos wg

theorem dotTo_congr [Arith F] {k : Nat} {a a' b b' : Nat → F} (ha : ∀ kk < k, a kk = a' kk)
    (hb : ∀ kk < k, b kk = b' kk) : dotTo k a b = dotTo k a' b' := by
  refine List.foldl_ext _ _ _ fun _ kk hk => ?_
  rw [List.mem_range] at hk
  rw [ha kk hk, hb kk hk]

theorem sumF32_congr [Floats F] {n : Nat} {a a' : Nat → F} (h : ∀ j < n, a j = a' j) :
    sumF32 ((List.range n).map a) = sumF32 ((List.range n).map a') := by
  rw [List.map_congr_left fun j hj => h j (List.mem_range.mp hj)]

/-- Slots are counted from 1, lengths from 0. -/
def Needs (b : Builtin) (m : List UInt32) (wg : Workgroups) (s i : Nat) : Prop :=
  ∃ n, (b.minLens m wg)[s - 1]? = some n ∧ i < n

/-- A value depends on needed elements. -/
theorem value_congr [Floats F] {b : Builtin} {x y : Nat → Nat → F}
    (h : ∀ s i, Needs b m wg s i → x s i = y s i) {i : Nat} (hi : i < b.owns m) (old : F) :
    b.value m x i old = b.value m y i old := by
  have div_lt : ∀ {rows cols}, i < rows * cols → i / cols < rows := fun h =>
    Nat.div_lt_of_lt_mul (by rwa [Nat.mul_comm])
  have mod_lt : ∀ {rows cols}, i < rows * cols → i % cols < cols := fun {rows cols} h =>
    Nat.mod_lt _ (Nat.pos_of_ne_zero fun h0 => by simp [h0] at h)
  cases b with
  | matmul =>
    exact dotTo_congr (fun kk hk => h 1 _ ⟨_, rfl, row_col_lt (div_lt hi) hk⟩)
      fun kk hk => h 2 _ ⟨_, rfl, row_col_lt hk (mod_lt hi)⟩
  | matmulAdd =>
    exact congrArg (Arith.add old) (dotTo_congr
      (fun kk hk => h 1 _ ⟨_, rfl, row_col_lt (div_lt hi) hk⟩)
      fun kk hk => h 2 _ ⟨_, rfl, row_col_lt hk (mod_lt hi)⟩)
  | matmulTrp =>
    refine dotTo_congr (fun kk hk => h 1 _ ⟨_, rfl, row_col_lt (div_lt hi) hk⟩)
      fun kk hk => h 2 _ ⟨_, rfl, ?_⟩
    exact Nat.lt_of_lt_of_eq (row_col_lt (mod_lt hi) hk) (Nat.mul_comm _ _)
  | gemv =>
    exact dotTo_congr (fun kk hk => h 1 _ ⟨_, rfl, hk⟩) fun kk hk => h 2 _ ⟨_, rfl, row_col_lt hk hi⟩
  | gemvAdd =>
    exact congrArg (Arith.add old) (dotTo_congr (fun kk hk => h 1 _ ⟨_, rfl, hk⟩)
      fun kk hk => h 2 _ ⟨_, rfl, row_col_lt hk hi⟩)
  | transpose =>
    have hi' : i < dim m 1 * dim m 0 := by rwa [Nat.mul_comm]
    exact h 1 _ ⟨_, rfl, row_col_lt (mod_lt hi') (div_lt hi')⟩
  | dot =>
    refine sumF32_congr fun j hj => ?_
    rw [h 1 j ⟨_, rfl, hj⟩, h 2 j ⟨_, rfl, hj⟩]
  | sum => exact sumF32_congr fun j hj => h 1 j ⟨_, rfl, hj⟩
  | add | mul | max | min =>
    have hy : x 2 i = y 2 i := h 2 i ⟨_, rfl, hi⟩
    simp only [Builtin.value, hy]
  | scale | clamp | zeroTensor | fillConstant | fillRandom => rfl

/-! ## Two runs -/

theorem elem_eq [Arith F] {lens : List Nat} (h : SameFirst lens slots slots') {s i n : Nat}
    (hn : lens[s - 1]? = some n) (hi : i < n) : elem slots s i = elem slots' s i := by
  have hfirst : ∀ slots : List (Slot F), elem slots s i =
      ((firsts slots (s - 1) n).getD [])[i]?.getD Arith.zero := by
    intro slots
    rw [elem, firsts]
    cases slots[s - 1]? with
    | none => rfl
    | some slot => simp [List.getElem?_take_of_lt hi]
  rw [hfirst, hfirst, h _ n hn]

theorem take_fillTo_congr {k n : Nat} {f g : Nat → F → F} {x y : List F}
    (hxy : x.take n = y.take n) (hfg : ∀ i < k, ∀ v, f i v = g i v) :
    (fillTo k f x).take n = (fillTo k g y).take n := by
  refine List.ext_getElem? fun i => ?_
  rcases Nat.lt_or_ge i n with hi | hi
  · have hentry : x[i]? = y[i]? := by
      rw [← List.getElem?_take_of_lt hi, hxy, List.getElem?_take_of_lt hi]
    rw [List.getElem?_take_of_lt hi, List.getElem?_take_of_lt hi]
    rcases Nat.lt_or_ge i k with hik | hik
    · rw [getElem?_fillTo_of_lt hik, getElem?_fillTo_of_lt hik, hentry]
      exact congrArg (Option.map · _) (funext (hfg i hik))
    · rw [getElem?_fillTo_of_le hik, getElem?_fillTo_of_le hik, hentry]
  · simp [Nat.not_lt.mpr hi]

theorem written_untouched [Floats F] (b : Builtin) (m : List UInt32) (wg : Workgroups)
    (slots : List (Slot F)) : Untouched b (b.minLens m wg) slots (b.written m slots) := by
  obtain ⟨⟨role, hrole, hout⟩, n, hn, hle⟩ := out_spec b m wg
  refine ⟨List.length_set, fun i k slot slot' hk hs hs' => ?_, fun i kind hi => ?_⟩
  · rw [Builtin.written, List.getElem?_set] at hs'
    split at hs'
    · subst i
      split at hs'
      · cases hs'
        obtain rfl : k = n := Option.some.inj (hk.symm.trans hn)
        rw [hs]
        exact ⟨length_fillTo, fun j hj => getElem?_fillTo_of_le (Nat.le_trans hle hj)⟩
      · cases hs'
    · obtain rfl : slot = slot' := Option.some.inj (hs.symm.trans hs')
      exact ⟨rfl, fun _ _ => rfl⟩
  · rw [Builtin.written, List.getElem?_set_ne]
    rintro rfl
    rw [hrole] at hi
    cases hi
    cases hout

theorem untouched_refl (b : Builtin) (lens : List Nat) (slots : List (Slot F)) :
    Untouched b lens slots slots where
  count := rfl
  longer _ _ slot slot' _ hs hs' := by
    obtain rfl : slot = slot' := Option.some.inj (hs.symm.trans hs')
    exact ⟨rfl, fun _ _ => rfl⟩
  inputs _ _ _ := rfl

theorem written_sameFirst [Floats F] {b : Builtin}
    (h : SameFirst (b.minLens m wg) slots slots') :
    SameFirst (b.minLens m wg) (b.written m slots) (b.written m slots') := by
  obtain ⟨-, n, hn, hle⟩ := out_spec b m wg
  intro i k hk
  rw [firsts, firsts, Builtin.written, Builtin.written, List.getElem?_set, List.getElem?_set]
  split
  · subst i
    obtain rfl : k = n := Option.some.inj (hk.symm.trans hn)
    have hfirst := h _ k hk
    unfold firsts at hfirst
    rcases hs : slots[b.out - 1]? with _ | slot
    · rw [hs] at hfirst
      have hs' : slots'[b.out - 1]? = none := by simpa using hfirst.symm
      rw [if_neg (Nat.not_lt.mpr (List.getElem?_eq_none_iff.mp hs)),
        if_neg (Nat.not_lt.mpr (List.getElem?_eq_none_iff.mp hs'))]
    · rcases hs' : slots'[b.out - 1]? with _ | slot'
      · rw [hs, hs'] at hfirst
        cases hfirst
      · rw [hs, hs'] at hfirst
        obtain ⟨hlt, -⟩ := List.getElem?_eq_some_iff.mp hs
        obtain ⟨hlt', -⟩ := List.getElem?_eq_some_iff.mp hs'
        rw [if_pos hlt, if_pos hlt']
        have hneeded : ∀ s i, Needs b m wg s i → elem slots s i = elem slots' s i := by
          intro s i hneed
          obtain ⟨n', hn', hi'⟩ := hneed
          exact elem_eq h hn' hi'
        exact congrArg some (take_fillTo_congr (Option.some.inj hfirst) fun i hi v =>
          value_congr hneeded hi v)
  · exact h i k hk

/-- **Native code keeps to `minLens`**: two runs that return, on slots with the
same needed elements, leave the same needed elements, and every run leaves the
others and its inputs as they were. -/
theorem native_keeps_to_minLens [Floats F] {b : Builtin} (hm : b.MetaOk m)
    (hs : Bound b m wg slots) (hs' : Bound b m wg slots')
    (hsame : SameFirst (b.minLens m wg) slots slots') :
    ((b.run m slots).2 = false → (b.run m slots').2 = false →
      SameFirst (b.minLens m wg) (b.run m slots).1 (b.run m slots').1) ∧
    Untouched b (b.minLens m wg) slots (b.run m slots).1 ∧
    Untouched b (b.minLens m wg) slots' (b.run m slots').1 := by
  have untouched : ∀ {slots : List (Slot F)}, Bound b m wg slots →
      Untouched b (b.minLens m wg) slots (b.run m slots).1 := by
    intro slots hs
    rcases run_of_ok hm hs with hr | hr <;> rw [hr]
    · exact written_untouched b m wg slots
    · exact untouched_refl b _ slots
  refine ⟨fun hok hok' => ?_, untouched hs, untouched hs'⟩
  rcases run_of_ok hm hs with hr | hr
  · rcases run_of_ok hm hs' with hr' | hr'
    · rw [hr, hr']
      exact written_sameFirst hsame
    · rw [hr'] at hok'
      cases hok'
  · rw [hr] at hok
    cases hok

namespace Sample

/-- Two elements of each are needed. -/
def long : List (Slot ℚ) := [.Write [1, 2, 9], .Read [3, 4]]

def other : List (Slot ℚ) := [.Write [1, 2], .Read [3, 4, 7]]

theorem long_other : SameFirst [2, 2] long other := by
  intro i n hn
  rcases i with _ | _ | i
  · cases hn
    rfl
  · cases hn
    rfl
  · cases hn

/-- Adding two elements. -/
theorem add_keeps_to_minLens :
    ((Builtin.add.run [2] long).2 = false → (Builtin.add.run [2] other).2 = false →
      SameFirst [2, 2] (Builtin.add.run [2] long).1 (Builtin.add.run [2] other).1) ∧
    Untouched .add [2, 2] long (Builtin.add.run [2] long).1 ∧
    Untouched .add [2, 2] other (Builtin.add.run [2] other).1 :=
  @native_keeps_to_minLens _ [2] ⟨1, 1, 1⟩ _ _ _ .add rfl
    (.cons ⟨rfl, by decide⟩ (.cons ⟨rfl, by decide⟩ .nil))
    (.cons ⟨rfl, by decide⟩ (.cons ⟨rfl, by decide⟩ .nil)) long_other

end Sample
end Wilupgu.Builtins
