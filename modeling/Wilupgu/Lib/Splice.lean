import Mathlib.Data.List.Basic

/-! # Overwriting a part of a list, and grouping a list

`splice l off data` is `l` with `data` written over it from position `off`.
`chunks w l` groups `l` by `w`, the last group may be shorter. Writing whole
groups and grouping commute. -/

namespace Splice

variable {α β : Type}

/-- `l` with `data` in place of its elements from `off` on. -/
def splice (l : List α) (off : Nat) (data : List α) : List α :=
  l.take off ++ data ++ l.drop (off + data.length)

@[simp] theorem length_splice {l data : List α} {off : Nat} (h : off + data.length ≤ l.length) :
    (splice l off data).length = l.length := by
  simp only [splice, List.length_append, List.length_take, List.length_drop]
  omega

/-- Inside the written part stand the new elements, outside it the old ones. -/
theorem getElem?_splice {l data : List α} {off : Nat} (h : off + data.length ≤ l.length) (i : Nat) :
    (splice l off data)[i]? =
      if off ≤ i ∧ i < off + data.length then data[i - off]? else l[i]? := by
  have hoff : (l.take off).length = off := by simp; omega
  simp only [splice, List.append_assoc]
  by_cases hlo : i < off
  · rw [List.getElem?_append_left (by omega), List.getElem?_take_of_lt hlo, if_neg (by omega)]
  · rw [List.getElem?_append_right (by omega), hoff]
    by_cases hhi : i < off + data.length
    · rw [List.getElem?_append_left (by omega), if_pos (by omega)]
    · rw [List.getElem?_append_right (by omega), List.getElem?_drop, if_neg (by omega)]
      congr 1
      omega

theorem map_splice (f : α → β) (l : List α) (off : Nat) (data : List α) :
    (splice l off data).map f = splice (l.map f) off (data.map f) := by
  simp [splice]

/-- Writing a list over itself changes nothing. -/
theorem splice_self (l : List α) (off len : Nat) :
    splice l off ((l.drop off).take len) = l := by
  unfold splice
  by_cases h : off ≤ l.length
  · rw [List.append_assoc]
    conv_rhs => rw [← List.take_append_drop off l, ← List.take_append_drop len (l.drop off)]
    congr 2
    rw [List.drop_drop]
    by_cases hl : len ≤ l.length - off
    · congr 1
      simp only [List.length_take, List.length_drop]
      omega
    · rw [List.drop_of_length_le (by simp; omega), List.drop_of_length_le (by omega)]
  · have hd : l.drop off = [] := List.drop_of_length_le (by omega)
    rw [List.take_of_length_le (by omega)]
    simp [hd]

/-- A list that isn't changed by writing `data` has it there already. -/
theorem eq_of_splice_self {l data : List α} {off : Nat} (h : splice l off data = l)
    (hle : off + data.length ≤ l.length) : data = (l.drop off).take data.length := by
  have hoff : (l.take off).length = off := by simp; omega
  calc data
      = (((l.take off ++ data) ++ l.drop (off + data.length)).drop off).take data.length := by
        rw [List.append_assoc, List.drop_append, hoff, Nat.sub_self,
          List.drop_of_length_le (Nat.le_of_eq hoff), List.drop_zero, List.nil_append,
          List.take_left]
    _ = (l.drop off).take data.length := by rw [← splice, h]

/-- The start of an overwritten list, when it is overwritten past that start. -/
theorem take_splice {l data : List α} {off k : Nat} (hoff : off ≤ k) (hk : k ≤ l.length)
    (h : off + data.length ≤ l.length) :
    (splice l off data).take k = splice (l.take k) off (data.take (k - off)) := by
  have hlen : (data.take (k - off)).length = min (k - off) data.length := List.length_take
  refine List.ext_getElem? fun i => ?_
  rw [getElem?_splice (by rw [hlen, List.length_take]; omega), hlen]
  by_cases hi : i < k
  · rw [List.getElem?_take_of_lt hi, getElem?_splice h]
    by_cases hin : off ≤ i ∧ i < off + data.length
    · rw [if_pos hin, if_pos (by omega), List.getElem?_take_of_lt (by omega)]
    · rw [if_neg hin, if_neg (by omega), List.getElem?_take_of_lt hi]
  · rw [List.getElem?_eq_none (by rw [List.length_take]; omega), if_neg (by omega),
      List.getElem?_eq_none (by rw [List.length_take]; omega)]

/-! ## Blocks of one length -/

section Blocks

variable (f : α → List β) {n : Nat} (hf : ∀ a, (f a).length = n)
include hf

theorem length_flatMap_const (l : List α) : (l.flatMap f).length = l.length * n := by
  induction l with
  | nil => simp
  | cons a rest ih => rw [List.flatMap_cons, List.length_append, hf, ih, List.length_cons,
      Nat.succ_mul, Nat.add_comm]

theorem take_flatMap (l : List α) (k : Nat) : (l.take k).flatMap f = (l.flatMap f).take (k * n) := by
  induction l generalizing k with
  | nil => simp
  | cons a rest ih =>
    rcases k with _ | k
    · simp
    · have ha : (f a).length ≤ (k + 1) * n := by rw [hf, Nat.succ_mul]; omega
      rw [List.take_succ_cons, List.flatMap_cons, List.flatMap_cons, ih, List.take_append,
        List.take_of_length_le ha, hf, show (k + 1) * n - n = k * n by rw [Nat.succ_mul]; omega]

theorem drop_flatMap (l : List α) (k : Nat) : (l.drop k).flatMap f = (l.flatMap f).drop (k * n) := by
  induction l generalizing k with
  | nil => simp
  | cons a rest ih =>
    rcases k with _ | k
    · simp
    · have ha : (f a).length ≤ (k + 1) * n := by rw [hf, Nat.succ_mul]; omega
      rw [List.drop_succ_cons, List.flatMap_cons, ih, List.drop_append,
        List.drop_of_length_le ha, List.nil_append, hf,
        show (k + 1) * n - n = k * n by rw [Nat.succ_mul]; omega]

/-- Overwriting whole blocks is overwriting the blocks' list. -/
theorem flatMap_splice (l : List α) (off : Nat) (data : List α) :
    (splice l off data).flatMap f = splice (l.flatMap f) (off * n) (data.flatMap f) := by
  simp only [splice, List.flatMap_append, take_flatMap f hf, drop_flatMap f hf,
    length_flatMap_const f hf, Nat.add_mul]

end Blocks

/-! ## Groups -/

/-- `l` in groups of `w`, in order; the last group holds what is left. -/
def chunks (w : Nat) (l : List α) : List (List α) :=
  (List.range ((l.length + w - 1) / w)).map fun i => (l.drop (i * w)).take w

@[simp] theorem length_chunks (w : Nat) (l : List α) :
    (chunks w l).length = (l.length + w - 1) / w := by
  simp [chunks]

theorem length_chunks_mul {w n : Nat} (hw : 0 < w) {l : List α} (h : l.length = n * w) :
    (chunks w l).length = n := by
  rw [length_chunks, h, Nat.add_sub_assoc hw, Nat.mul_comm,
    Nat.mul_add_div hw, Nat.div_eq_of_lt (by omega), Nat.add_zero]

theorem getElem?_chunks {w : Nat} {l : List α} {i : Nat} (h : i < (l.length + w - 1) / w) :
    (chunks w l)[i]? = some ((l.drop (i * w)).take w) := by
  simp [chunks, h]

/-- Grouping a list built from full groups gives these groups. -/
theorem chunks_flatMap (f : β → List α) {w : Nat} (hw : 0 < w) (hf : ∀ b, (f b).length = w)
    (l : List β) : chunks w (l.flatMap f) = l.map f := by
  have hn := length_chunks_mul hw (length_flatMap_const f hf l)
  refine List.ext_getElem? fun i => ?_
  by_cases hi : i < l.length
  · have hgroup : ((l.flatMap f).drop (i * w)).take w = f l[i] := by
      have := take_flatMap f hf (l.drop i) 1
      rw [Nat.one_mul, drop_flatMap f hf] at this
      rw [← this, List.drop_eq_getElem_cons hi, List.take_succ_cons, List.take_zero,
        List.flatMap_singleton]
    rw [getElem?_chunks (by rw [← length_chunks, hn]; exact hi), hgroup]
    simp [hi]
  · rw [List.getElem?_eq_none (by omega), List.getElem?_eq_none (by simp; omega)]

/-- Writing whole groups, then grouping, is grouping, then writing the groups. -/
theorem chunks_splice {w : Nat} (hw : 0 < w) {l data : List α} {n off k : Nat}
    (hl : l.length = n * w) (hd : data.length = k * w) (h : off + k ≤ n) :
    chunks w (splice l (off * w) data) = splice (chunks w l) off (chunks w data) := by
  have hbytes : off * w + k * w ≤ n * w := by rw [← Nat.add_mul]; exact Nat.mul_le_mul_right w h
  have hs : (splice l (off * w) data).length = n * w := by rw [length_splice (by omega), hl]
  have hcl := length_chunks_mul hw hl
  have hcd := length_chunks_mul hw hd
  have hcs := length_chunks_mul hw hs
  refine List.ext_getElem? fun i => ?_
  rw [getElem?_splice (by omega), hcd]
  by_cases hi : i < n
  · rw [getElem?_chunks (by rw [← length_chunks, hcs]; exact hi)]
    have hrow : i * w + w ≤ n * w := by rw [← Nat.succ_mul]; exact Nat.mul_le_mul_right w hi
    by_cases hin : off ≤ i ∧ i < off + k
    · have hlo : off * w ≤ i * w := Nat.mul_le_mul_right w hin.1
      have hhi : i * w + w ≤ off * w + k * w := by
        rw [← Nat.succ_mul, ← Nat.add_mul]; exact Nat.mul_le_mul_right w hin.2
      rw [if_pos hin, getElem?_chunks (by rw [← length_chunks, hcd]; omega)]
      congr 1
      refine List.ext_getElem? fun j => ?_
      by_cases hj : j < w
      · rw [List.getElem?_take_of_lt hj, List.getElem?_take_of_lt hj, List.getElem?_drop,
          List.getElem?_drop, getElem?_splice (by omega), if_pos (by omega)]
        congr 1
        rw [Nat.sub_mul]
        omega
      · rw [List.getElem?_eq_none (by simp; omega), List.getElem?_eq_none (by simp; omega)]
    · rw [if_neg hin, getElem?_chunks (by rw [← length_chunks, hcl]; exact hi)]
      congr 1
      refine List.ext_getElem? fun j => ?_
      by_cases hj : j < w
      · have hout : ¬(off * w ≤ i * w + j ∧ i * w + j < off * w + k * w) := by
          rintro ⟨hlo, hhi⟩
          rcases Nat.lt_or_ge i off with hio | hio
          · have : i * w + w ≤ off * w := by
              rw [← Nat.succ_mul]; exact Nat.mul_le_mul_right w hio
            omega
          · have : off * w + k * w ≤ i * w := by
              rw [← Nat.add_mul]; exact Nat.mul_le_mul_right w (by omega)
            omega
        rw [List.getElem?_take_of_lt hj, List.getElem?_take_of_lt hj, List.getElem?_drop,
          List.getElem?_drop, getElem?_splice (by omega), if_neg (by omega)]
      · rw [List.getElem?_eq_none (by simp; omega), List.getElem?_eq_none (by simp; omega)]
  · rw [List.getElem?_eq_none (by omega), if_neg (by omega), List.getElem?_eq_none (by omega)]

end Splice
