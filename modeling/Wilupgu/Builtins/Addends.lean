import Mathlib.Algebra.BigOperators.Ring.Finset
import Wilupgu.Builtins.Extra

/-! # Addends

What a thread of an accumulating builtin adds to an element depends on the
inputs only. So the sum of the addends tells how often an element is reached:
from inputs of ones an element gets as much as there are threads that reach
it, and from one marked element what no thread reads is missing. -/

namespace Wilupgu.Builtins

open Backend Loops Simt Simt.Thread Gpu Finset

variable {b : Builtin} {m : List UInt32} {wg : Workgroups} {format : Format}

/-! ## What is added, and where -/

/-- The element a thread adds to, counting in 32 bits. -/
def Builtin.reached (b : Builtin) (m : List UInt32) (id : Ids) : Option Nat :=
  match b with
  | .add => if idx .u32 id < dim m 0 then some (idx .u32 id) else none
  | .gemvAdd => if col .u32 id < dim m 1 then some (col .u32 id) else none
  | .matmulAdd =>
    if row .u32 id < dim m 0 ∧ col .u32 id < dim m 1 then
      some (Ints.u32.add (Ints.u32.mul (row .u32 id) (dim m 1)) (col .u32 id))
    else none
  | _ => none

/-- What it adds. -/
def Builtin.addend (b : Builtin) (m : List UInt32) (x : Memory ℚ) (id : Ids) : ℚ :=
  match b with
  | .add => x 2 (idx .u32 id)
  | .gemvAdd => dotTo (dim m 2) (x 1) fun k => x 2 (rowMajor .u32 m k (col .u32 id))
  | .matmulAdd =>
    dotTo (dim m 2) (fun k => x 1 (Ints.u32.add (Ints.u32.mul (row .u32 id) (dim m 2)) k))
      fun k => x 2 (rowMajor .u32 m k (col .u32 id))
  | _ => 0

/-- A launch adds these. -/
def Adds (format : Format) (b : Builtin) (m : List UInt32) (wg : Workgroups) (x : Memory ℚ)
    (addend : Ids → ℚ) : Prop :=
  WritesTo (fun id => format.entry .u32 m id b) b.out (b.reached m)
    (fun id _ old => old + addend id) x (grid b wg)

theorem adds_addend (hb : b.accumulates = true)
    (hK : b = .matmulAdd → dim m 2 + 15 < 2 ^ 32) (x : Memory ℚ) :
    Adds format b m wg x (b.addend m x) := by
  intro id hid mem hmem
  show (format.entry .u32 m id b mem).1 =
    (b.reached m id).map fun i => ⟨b.out, i, mem b.out i + b.addend m x id⟩
  rw [entry_of_accumulates hb]
  cases b with
  | add =>
    rw [entry_add, binary_val, Builtin.reached, Builtin.addend, ← hmem 2 (by decide)]
    split <;> rfl
  | gemvAdd =>
    rw [entry_gemvAdd, gemvWith_val, Builtin.reached, Builtin.addend, ← hmem 1 (by decide),
      ← hmem 2 (by decide)]
    split <;> rfl
  | matmulAdd =>
    rw [matmulAdd_val (tiled_u32 (hK rfl)) hid, Builtin.reached, Builtin.addend,
      ← hmem 1 (by decide), ← hmem 2 (by decide)]
    split <;> rfl
  | _ => cases hb

/-- Where the count of tiles wraps there are none. -/
theorem adds_nothing (hK : 2 ^ 32 ≤ dim m 2 + 15) (x : Memory ℚ) :
    Adds format .matmulAdd m wg x fun _ => 0 := by
  intro id _ mem _
  have hlt := dim_lt m 2
  have hnone : numTiles .u32 m = 0 := by
    rw [numTiles_u32]
    omega
  show (format.entry .u32 m id .matmulAdd mem).1 = _
  rw [entry_of_accumulates rfl, entry_matmulAdd, matmulWith, bind_val, bind_val, hnone,
    Builtin.reached]
  split
  · rw [put_val]
    rfl
  · rfl

/-- **What is added to an element is what native code adds.** -/
theorem sum_addends (hb : b.accumulates = true) (hm : b.MetaOk m)
    (h : ExtraHarmless format b m wg) {slots : List (Slot ℚ)} (hs : Bound b m wg slots)
    {addend : Ids → ℚ} (hadds : Adds format b m wg (elem slots) addend) {i : Nat}
    (hi : i < b.owns m) :
    elem slots b.out i +
        (((grid b wg).filter fun id => b.reached m id = some i).map addend).sum =
      b.value m (elem slots) i (elem slots b.out i) := by
  have hclamp : b ≠ .clamp := by
    rintro rfl
    cases hb
  have hpos : 0 < b.out := by cases b <;> decide
  obtain ⟨ends, hends, hleft⟩ := h slots hs (grid b wg) (.refl _)
  rw [native_eq hclamp hm hs] at hends
  obtain rfl := Outcome.ok.inj hends
  have hout := congrFun (hleft b.out hpos) i
  rw [(launch_eq hadds).2, through_add, elem_written hs hpos, if_pos ⟨rfl, hi⟩] at hout
  exact hout

/-! ## Sums of products -/

theorem dotTo_eq_sum (k : Nat) (a c : Nat → ℚ) : dotTo k a c = ∑ j ∈ range k, a j * c j := by
  induction k with
  | zero => rfl
  | succ k ih =>
    rw [sum_range_succ, ← ih, dotTo, List.range_succ, List.foldl_append]
    rfl

theorem dotTo_ones {k : Nat} {a c : Nat → ℚ} (ha : ∀ j < k, a j = 1) (hc : ∀ j < k, c j = 1) :
    dotTo k a c = k := by
  rw [dotTo_congr ha hc, dotTo_eq_sum]
  simp

/-- One product of ones among zeros. -/
theorem dotTo_marked {k j : Nat} {a c : Nat → ℚ} (hj : j < k) (hone : a j * c j = 1)
    (hzero : ∀ i < k, i ≠ j → a i * c i = 0) : dotTo k a c = 1 := by
  rw [dotTo_eq_sum, ← hone]
  exact sum_eq_single j (fun i hi hne => hzero i (mem_range.mp hi) hne)
    fun h => absurd (mem_range.mpr hj) h

theorem dotTo_zeros {k : Nat} {a c : Nat → ℚ} (h : ∀ j < k, a j * c j = 0) : dotTo k a c = 0 := by
  rw [dotTo_eq_sum]
  exact sum_eq_zero fun j hj => h j (mem_range.mp hj)

/-! ## Inputs -/

/-- `n` elements, by their places. -/
def listed (n : Nat) (v : Nat → ℚ) : List ℚ := (List.range n).map v

theorem length_listed (n : Nat) (v : Nat → ℚ) : (listed n v).length = n := by
  rw [listed, List.length_map, List.length_range]

theorem getD_listed {n i : Nat} (v : Nat → ℚ) (h : i < n) : (listed n v)[i]?.getD 0 = v i := by
  rw [listed, List.getElem?_map, List.getElem?_range h]
  rfl

/-- Slots as long as needed, whose inputs hold `v` and `w` and whose sums start
at 0. -/
def Builtin.given (b : Builtin) (m : List UInt32) (v w : Nat → ℚ) : List (Slot ℚ) :=
  let (M, N, K) := (dim m 0, dim m 1, dim m 2)
  match b with
  | .add => [.Write (listed M fun _ => 0), .Read (listed M w)]
  | .gemvAdd => [.Read (listed K v), .Read (listed (K * N) w), .Write (listed N fun _ => 0)]
  | .matmulAdd =>
    [.Read (listed (M * K) v), .Read (listed (K * N) w), .Write (listed (M * N) fun _ => 0)]
  | _ => []

variable {v w : Nat → ℚ}

theorem bound_given (hb : b.accumulates = true) (wg : Workgroups) (v w : Nat → ℚ) :
    Bound b m wg (b.given m v w) := by
  have hfits : ∀ (n : Nat) (v : Nat → ℚ), n ≤ (listed n v).length := fun n v =>
    Nat.le_of_eq (length_listed n v).symm
  cases b with
  | add => exact .cons ⟨rfl, hfits _ _⟩ (.cons ⟨rfl, hfits _ _⟩ .nil)
  | gemvAdd | matmulAdd =>
    exact .cons ⟨rfl, hfits _ _⟩ (.cons ⟨rfl, hfits _ _⟩ (.cons ⟨rfl, hfits _ _⟩ .nil))
  | _ => cases hb

theorem elem_out_given (hb : b.accumulates = true) {i : Nat} (hi : i < b.owns m) :
    elem (b.given m v w) b.out i = 0 := by
  cases b with
  | add | gemvAdd | matmulAdd => exact getD_listed _ hi
  | _ => cases hb

/-! ## Ones -/

/-- How many products of ones an addend sums up. -/
def Builtin.terms (b : Builtin) (m : List UInt32) : Nat := if b = .add then 1 else dim m 2

/-- Ones everywhere. -/
def ones (_ : Nat) : ℚ := 1

/-- Whatever it reads, a thread that reaches an element adds as many ones. -/
theorem addend_ones (hb : b.accumulates = true) {id : Ids} {i : Nat}
    (h : b.reached m id = some i) :
    b.addend m (elem (b.given m ones ones)) id = b.terms m := by
  have hB : ∀ k < dim m 2, col .u32 id < dim m 1 →
      rowMajor .u32 m k (col .u32 id) < dim m 2 * dim m 1 := fun k hk hc =>
    Nat.lt_of_le_of_lt (u32_index_le _ _ _) (row_col_lt hk hc)
  cases b with
  | add =>
    obtain ⟨hi, -⟩ := Option.ite_none_right_eq_some.mp h
    exact (getD_listed ones hi).trans Nat.cast_one.symm
  | gemvAdd =>
    obtain ⟨hc, -⟩ := Option.ite_none_right_eq_some.mp h
    exact dotTo_ones (fun k hk => getD_listed ones hk) fun k hk => getD_listed ones (hB k hk hc)
  | matmulAdd =>
    obtain ⟨⟨hr, hc⟩, -⟩ := Option.ite_none_right_eq_some.mp h
    refine dotTo_ones (fun k hk => getD_listed ones ?_) fun k hk => getD_listed ones (hB k hk hc)
    exact Nat.lt_of_le_of_lt (u32_index_le _ _ _) (row_col_lt hr hk)
  | _ => cases hb

/-- And so does native code. -/
theorem value_ones (hb : b.accumulates = true) {i : Nat} (hi : i < b.owns m) (old : ℚ) :
    b.value m (elem (b.given m ones ones)) i old = old + b.terms m := by
  cases b with
  | add =>
    have hone : elem (Builtin.add.given m ones ones) 2 i = 1 := getD_listed ones hi
    rw [Builtin.value, hone]
    exact congrArg (old + ·) Nat.cast_one.symm
  | gemvAdd =>
    refine congrArg (old + ·) (dotTo_ones (fun k hk => getD_listed ones hk) fun k hk => ?_)
    exact getD_listed ones (row_col_lt hk hi)
  | matmulAdd =>
    have hi : i < dim m 0 * dim m 1 := hi
    have hcols : 0 < dim m 1 := Nat.pos_of_ne_zero fun h0 => by simp [h0] at hi
    refine congrArg (old + ·) (dotTo_ones (fun k hk => getD_listed ones ?_)
      fun k hk => getD_listed ones (row_col_lt hk (Nat.mod_lt i hcols)))
    exact row_col_lt (Nat.div_lt_of_lt_mul (Nat.mul_comm _ _ ▸ hi)) hk
  | _ => cases hb

/-- **An element that something is added to is reached once.** -/
theorem reached_once (hb : b.accumulates = true) (hm : b.MetaOk m)
    (hK : b = .matmulAdd → dim m 2 + 15 < 2 ^ 32) (hterms : 0 < b.terms m)
    (h : ExtraHarmless format b m wg) {i : Nat} (hi : i < b.owns m) {id id' : Ids}
    (hid : id ∈ grid b wg) (hid' : id' ∈ grid b wg) (hr : b.reached m id = some i)
    (hr' : b.reached m id' = some i) : id = id' := by
  have hsum := sum_addends hb hm h (bound_given hb wg ones ones) (adds_addend hb hK _) hi
  rw [elem_out_given hb hi, value_ones hb hi, add_right_inj] at hsum
  have hmap : ((grid b wg).filter fun id => b.reached m id = some i).map
      (b.addend m (elem (b.given m ones ones))) =
        List.replicate ((grid b wg).filter fun id => b.reached m id = some i).length
          (b.terms m : ℚ) := by
    refine List.eq_replicate_iff.mpr ⟨List.length_map _, fun x hx => ?_⟩
    obtain ⟨id, hid, rfl⟩ := List.mem_map.mp hx
    exact addend_ones hb (of_decide_eq_true (List.mem_filter.mp hid).2)
  rw [hmap, List.sum_replicate, nsmul_eq_mul] at hsum
  have hne : (b.terms m : ℚ) ≠ 0 := Nat.cast_ne_zero.mpr (Nat.pos_iff_ne_zero.mp hterms)
  have hlen := Nat.cast_eq_one.mp ((mul_eq_right₀ hne).mp hsum)
  obtain ⟨id₀, hone⟩ := List.length_eq_one_iff.mp hlen
  have hmem : ∀ {id : Ids}, id ∈ grid b wg → b.reached m id = some i → id = id₀ := by
    intro id hid hr
    refine List.mem_singleton.mp (hone ▸ List.mem_filter.mpr ⟨hid, ?_⟩)
    exact decide_eq_true hr
  rw [hmem hid hr, hmem hid' hr']

/-! ## A mark -/

/-- Where all that is read is 0, native code has nothing to add either. -/
theorem nothing_missed (hb : b.accumulates = true) (hm : b.MetaOk m)
    (h : ExtraHarmless format b m wg) {addend : Ids → ℚ}
    (hadds : Adds format b m wg (elem (b.given m v w)) addend) (hzero : ∀ id, addend id = 0)
    {i : Nat} (hi : i < b.owns m) : b.value m (elem (b.given m v w)) i 0 = 0 := by
  have hsum := sum_addends hb hm h (bound_given hb wg v w) hadds hi
  rw [elem_out_given hb hi, zero_add] at hsum
  rw [← hsum]
  refine List.sum_eq_zero fun x hx => ?_
  obtain ⟨id, -, rfl⟩ := List.mem_map.mp hx
  exact hzero id

/-- One at the first index that 32 bits don't reach. -/
def mark (i : Nat) : ℚ := if i = 2 ^ 32 then 1 else 0

theorem getD_mark {n i : Nat} (h : i < 2 ^ 32) : (listed n mark)[i]?.getD 0 = 0 := by
  by_cases hn : i < n
  · rw [getD_listed mark hn, mark, if_neg (Nat.ne_of_lt h)]
  · rw [List.getElem?_eq_none (by rw [length_listed]; omega)]
    rfl

/-- A sum of products in which one index is the marked one. -/
theorem dotTo_mark {k j : Nat} {index : Nat → Nat} {a x : Nat → ℚ} (hj : j < k)
    (hmark : index j = 2 ^ 32) (hinj : ∀ i, index i = 2 ^ 32 → i = j)
    (hx : ∀ i < k, a i * x i = mark (index i)) : dotTo k a x = 1 := by
  refine dotTo_marked hj ?_ fun i hi hne => ?_
  · rw [hx j hj, mark, if_pos hmark]
  · rw [hx i hi, mark, if_neg fun he => hne (hinj i he)]

/-! ## 32 bits are enough -/

/-- **No element of `B` is past 32 bits**: native code would add it, and no
thread reads it. -/
theorem inside_B_gemvAdd (hm : Builtin.gemvAdd.MetaOk m)
    (h : ExtraHarmless format .gemvAdd m wg) : dim m 2 * dim m 1 ≤ 2 ^ 32 := by
  by_contra hB
  obtain ⟨k, hk, c, hc, hkc⟩ := exists_row_col (Nat.not_le.mp hB)
  have hvalue := nothing_missed (v := ones) (w := mark) rfl hm h
    (adds_addend rfl (fun he => by cases he) _)
    (fun id => dotTo_zeros fun j _ => mul_eq_zero_of_right _ (getD_mark (rowMajor_below _ _))) hc
  have hone : dotTo (dim m 2) (elem (Builtin.gemvAdd.given m ones mark) 1)
      (fun kk => elem (Builtin.gemvAdd.given m ones mark) 2 (kk * dim m 1 + c)) = 1 := by
    refine dotTo_mark hk hkc.symm (fun i he => (row_col_inj hc hc (he.trans hkc)).1) ?_
    intro i hi
    have ha : elem (Builtin.gemvAdd.given m ones mark) 1 i = 1 := getD_listed ones hi
    rw [ha, one_mul]
    exact getD_listed mark (row_col_lt hi hc)
  exact one_ne_zero (hone.symm.trans ((zero_add _).symm.trans hvalue))

section Matmul

variable (hm : Builtin.matmulAdd.MetaOk m) (h : ExtraHarmless format .matmulAdd m wg)

include hm h

/-- The count of tiles doesn't wrap. -/
theorem tiles_matmulAdd (hrows : 0 < dim m 0) (hcols : 0 < dim m 1) (hinner : 0 < dim m 2) :
    dim m 2 + 15 < 2 ^ 32 := by
  by_contra hwrap
  have hi : 0 < Builtin.matmulAdd.owns m := Nat.mul_pos hrows hcols
  have hvalue := nothing_missed (v := ones) (w := ones) rfl hm h
    (adds_nothing (Nat.not_lt.mp hwrap) _) (fun _ => rfl) hi
  rw [value_ones rfl hi, zero_add] at hvalue
  have hterms : Builtin.matmulAdd.terms m = dim m 2 := rfl
  rw [hterms, Nat.cast_eq_zero] at hvalue
  exact absurd hvalue (Nat.ne_of_gt hinner)

theorem inside_B_matmulAdd (hrows : 0 < dim m 0) (hK : dim m 2 + 15 < 2 ^ 32) :
    dim m 2 * dim m 1 ≤ 2 ^ 32 := by
  by_contra hB
  obtain ⟨k, hk, c, hc, hkc⟩ := exists_row_col (Nat.not_le.mp hB)
  have hi : c < Builtin.matmulAdd.owns m :=
    Nat.lt_of_lt_of_le hc (Nat.le_mul_of_pos_left _ hrows)
  have hvalue := nothing_missed (v := ones) (w := mark) rfl hm h (adds_addend rfl (fun _ => hK) _)
    (fun id => dotTo_zeros fun j _ => mul_eq_zero_of_right _ (getD_mark (rowMajor_below _ _))) hi
  have hone : dotTo (dim m 2)
      (fun kk => elem (Builtin.matmulAdd.given m ones mark) 1 (c / dim m 1 * dim m 2 + kk))
      (fun kk => elem (Builtin.matmulAdd.given m ones mark) 2 (kk * dim m 1 + c % dim m 1)) =
        1 := by
    rw [Nat.div_eq_of_lt hc, Nat.mod_eq_of_lt hc]
    refine dotTo_mark hk hkc.symm (fun i he => (row_col_inj hc hc (he.trans hkc)).1) ?_
    intro i hi
    have ha : elem (Builtin.matmulAdd.given m ones mark) 1 (0 * dim m 2 + i) = 1 :=
      getD_listed ones (row_col_lt hrows hi)
    rw [ha, one_mul]
    exact getD_listed mark (row_col_lt hi hc)
  exact one_ne_zero (hone.symm.trans ((zero_add _).symm.trans hvalue))

theorem inside_A_matmulAdd (hcols : 0 < dim m 1) (hK : dim m 2 + 15 < 2 ^ 32) :
    dim m 0 * dim m 2 ≤ 2 ^ 32 := by
  by_contra hA
  obtain ⟨r, hr, k, hk, hrk⟩ := exists_row_col (Nat.not_le.mp hA)
  have hi : r * dim m 1 + 0 < Builtin.matmulAdd.owns m := row_col_lt hr hcols
  have hvalue := nothing_missed (v := mark) (w := ones) rfl hm h (adds_addend rfl (fun _ => hK) _)
    (fun id => dotTo_zeros fun j _ => mul_eq_zero_of_left (getD_mark (u32_add_lt _ _)) _) hi
  obtain ⟨hdiv, hmod⟩ := div_mod_of_lt r hcols
  have hone : dotTo (dim m 2)
      (fun kk => elem (Builtin.matmulAdd.given m mark ones) 1
        ((r * dim m 1 + 0) / dim m 1 * dim m 2 + kk))
      (fun kk => elem (Builtin.matmulAdd.given m mark ones) 2
        (kk * dim m 1 + (r * dim m 1 + 0) % dim m 1)) = 1 := by
    rw [hdiv, hmod]
    refine dotTo_mark hk hrk.symm (fun i he => Nat.add_left_cancel (he.trans hrk)) ?_
    intro i hi
    have hb : elem (Builtin.matmulAdd.given m mark ones) 2 (i * dim m 1 + 0) = 1 :=
      getD_listed ones (row_col_lt hi hcols)
    rw [hb, mul_one]
    exact getD_listed mark (row_col_lt hr hi)
  exact one_ne_zero (hone.symm.trans ((zero_add _).symm.trans hvalue))

end Matmul

/-! ## One layer only -/

theorem reached_flatThread {n z : Nat} (hn : n % 2 ^ 32 < dim m 0) :
    Builtin.add.reached m (flatThread .add wg n z) = some (n % 2 ^ 32) := by
  have hidx : idx .u32 (flatThread .add wg n z) = n % 2 ^ 32 := by rw [idx_u32, idx_flatThread rfl]
  rw [Builtin.reached, hidx, if_pos hn]

theorem reached_gemvAdd {r c z : Nat} (hc : c % 2 ^ 32 < dim m 1) :
    Builtin.gemvAdd.reached m (threadAt .gemvAdd wg r c z) = some (c % 2 ^ 32) := by
  have hcol : col .u32 (threadAt .gemvAdd wg r c z) = c % 2 ^ 32 := by rw [col_u32, col_threadAt]
  rw [Builtin.reached, hcol, if_pos hc]

theorem reached_matmulAdd {r c z : Nat} (hr : r % 2 ^ 32 < dim m 0) (hc : c % 2 ^ 32 < dim m 1) :
    Builtin.matmulAdd.reached m (threadAt .matmulAdd wg r c z) =
      some ((r % 2 ^ 32 * dim m 1 + c % 2 ^ 32) % 2 ^ 32) := by
  have hrow : row .u32 (threadAt .matmulAdd wg r c z) = r % 2 ^ 32 := by
    rw [row_u32, row_threadAt]
  have hcol : col .u32 (threadAt .matmulAdd wg r c z) = c % 2 ^ 32 := by rw [col_u32, col_threadAt]
  rw [Builtin.reached, hrow, hcol, if_pos ⟨hr, hc⟩, u32_index]

theorem once_of_harmless_add (hacc : Builtin.add.Accepts format.validate m wg)
    (h : ExtraHarmless format .add m wg) : EachOnce .add m wg := by
  rcases Nat.eq_zero_or_pos (dim m 0) with h0 | hn
  · exact .inl h0
  obtain ⟨hx, hy, hz⟩ := hacc.pos
  have hthreads : 0 < 256 * (wg.x.toNat * wg.y.toNat) :=
    Nat.mul_pos (by decide) (Nat.mul_pos hx hy)
  have honly : ∀ {n z : Nat}, n < 256 * (wg.x.toNat * wg.y.toNat) → z < wg.z.toNat →
      n % 2 ^ 32 = 0 → flatThread .add wg n z = flatThread .add wg 0 0 := by
    intro n z hn' hz' hmod
    refine reached_once rfl hacc.words (fun he => by cases he) Nat.one_pos h hn
      (flatThread_mem rfl hn' hz') (flatThread_mem rfl hthreads hz) ?_ (reached_flatThread hn)
    rw [reached_flatThread (by rw [hmod]; exact hn), hmod]
  refine .inr ⟨?_, ?_⟩
  · by_contra hne
    have heq := honly hthreads (z := 1) (by omega) rfl
    exact absurd (congrArg (fun id : Ids => id.blockIdx.z) heq) Nat.one_ne_zero
  · by_contra hwide
    have heq := congrArg (idx .exact) (honly (n := 2 ^ 32) (by omega) hz (by decide))
    rw [idx_flatThread rfl, idx_flatThread rfl] at heq
    exact absurd heq (by decide)

theorem once_of_harmless_gemvAdd (hacc : Builtin.gemvAdd.Accepts format.validate m wg)
    (h : ExtraHarmless format .gemvAdd m wg) : EachOnce .gemvAdd m wg := by
  rcases Nat.eq_zero_or_pos (dim m 1) with h0 | hcols
  · exact .inl h0
  rcases Nat.eq_zero_or_pos (dim m 2) with h0 | hinner
  · exact .inr (.inl h0)
  obtain ⟨hx, hy, hz⟩ := hacc.pos
  have hw : 0 < width .gemvAdd wg := Nat.mul_pos (by decide) hx
  have hh : 0 < height .gemvAdd wg := Nat.mul_pos (by decide) hy
  have honly : ∀ {r c z : Nat}, r < height .gemvAdd wg → c < width .gemvAdd wg →
      z < wg.z.toNat → c % 2 ^ 32 = 0 →
        threadAt .gemvAdd wg r c z = threadAt .gemvAdd wg 0 0 0 := by
    intro r c z hr hc hz' hmod
    refine reached_once rfl hacc.words (fun he => by cases he) hinner h hcols
      (threadAt_mem hr hc hz') (threadAt_mem hh hw hz) ?_ (reached_gemvAdd hcols)
    rw [reached_gemvAdd (by rw [hmod]; exact hcols), hmod]
  refine .inr (.inr ⟨?_, ?_, ?_, inside_B_gemvAdd hacc.words h⟩)
  · by_contra hne
    have hheight : height .gemvAdd wg = 1 * wg.y.toNat := rfl
    have heq := congrArg (row .exact) (honly (r := 1) (by omega) hw hz rfl)
    rw [row_threadAt, row_threadAt] at heq
    exact absurd heq Nat.one_ne_zero
  · by_contra hne
    have heq := honly hh hw (z := 1) (by omega) rfl
    exact absurd (congrArg (fun id : Ids => id.blockIdx.z) heq) Nat.one_ne_zero
  · by_contra hwide
    have hwidth : width .gemvAdd wg = 256 * wg.x.toNat := rfl
    have heq := congrArg (col .exact) (honly hh (c := 2 ^ 32) (by omega) hz (by decide))
    rw [col_threadAt, col_threadAt] at heq
    exact absurd heq (by decide)

theorem once_of_harmless_matmulAdd (hacc : Builtin.matmulAdd.Accepts format.validate m wg)
    (hcov : Covers .matmulAdd m wg) (h : ExtraHarmless format .matmulAdd m wg) :
    EachOnce .matmulAdd m wg := by
  rcases Nat.eq_zero_or_pos (dim m 0) with h0 | hrows
  · exact .inl h0
  rcases Nat.eq_zero_or_pos (dim m 1) with h0 | hcols
  · exact .inr (.inl h0)
  rcases Nat.eq_zero_or_pos (dim m 2) with h0 | hinner
  · exact .inr (.inr (.inl h0))
  obtain ⟨hx, hy, hz⟩ := hacc.pos
  have hw : 0 < width .matmulAdd wg := Nat.mul_pos (by decide) hx
  have hh : 0 < height .matmulAdd wg := Nat.mul_pos (by decide) hy
  have hK := tiles_matmulAdd hacc.words h hrows hcols hinner
  have hfirst : Builtin.matmulAdd.reached m (threadAt .matmulAdd wg 0 0 0) = some 0 := by
    rw [reached_matmulAdd hrows hcols]
    simp
  have honly : ∀ {id : Ids}, id ∈ grid .matmulAdd wg → Builtin.matmulAdd.reached m id = some 0 →
      id = threadAt .matmulAdd wg 0 0 0 := fun hid hr =>
    reached_once rfl hacc.words (fun _ => hK) hinner h (Nat.mul_pos hrows hcols) hid
      (threadAt_mem hh hw hz) hr hfirst
  refine .inr (.inr (.inr ⟨?_, ?_, ?_, inside_A_matmulAdd hacc.words h hcols hK,
    inside_B_matmulAdd hacc.words h hrows hK, hK⟩))
  · by_contra hne
    have heq := honly (threadAt_mem hh hw (z := 1) (by omega))
      (by rw [reached_matmulAdd hrows hcols]; simp)
    exact absurd (congrArg (fun id : Ids => id.blockIdx.z) heq) Nat.one_ne_zero
  · by_contra hwide
    have hwidth : width .matmulAdd wg = 16 * wg.x.toNat := rfl
    have heq := congrArg (col .exact) (honly (threadAt_mem hh (c := 2 ^ 32) (by omega) hz)
      (by rw [reached_matmulAdd hrows (by simpa using hcols)]; simp))
    rw [col_threadAt, col_threadAt] at heq
    exact absurd heq (by decide)
  · -- the thread of element `2 ^ 32` reaches the first one
    by_contra hC
    obtain ⟨id, hid, htarget⟩ := hcov (2 ^ 32) (Nat.not_le.mp hC)
    obtain ⟨⟨hr, hc⟩, hi⟩ := Option.ite_none_right_eq_some.mp htarget
    have hi := Option.some.inj hi
    have hrow := row_u32_eq hacc hid
    have hcol : col .u32 id = col .exact id := by
      rw [col_u32, Nat.mod_eq_of_lt (hc.trans (dim_lt m 1))]
    have heq := honly hid (by
      rw [Builtin.reached, hrow, hcol, if_pos ⟨hr, hc⟩, u32_index, hi, Nat.mod_self])
    rw [heq, row_threadAt, col_threadAt, Nat.zero_mul] at hi
    exact absurd hi (by decide)

/-- **Extra workgroups are harmless exactly where each element gets its addend
once.** -/
theorem harmless_iff_once (hb : b.accumulates = true) (h : b.Accepts format.validate m wg)
    (hcov : Covers b m wg) : ExtraHarmless format b m wg ↔ EachOnce b m wg := by
  refine ⟨fun hharm => ?_, harmless_of_once h hb hcov⟩
  cases b with
  | add => exact once_of_harmless_add h hharm
  | gemvAdd => exact once_of_harmless_gemvAdd h hharm
  | matmulAdd => exact once_of_harmless_matmulAdd h hcov hharm
  | _ => cases hb

namespace Sample

theorem accepts_add (format : Format) {wg : Workgroups} (h : wg = ⟨1, 1, 1⟩ ∨ wg = ⟨1, 1, 2⟩) :
    Builtin.add.Accepts format.validate [1] wg := by
  rcases h with rfl | rfl <;> cases format <;> exact ⟨rfl, by decide, rfl⟩

/-- The first thread reaches the only element. -/
theorem covers_one {wg : Workgroups} (h : wg = ⟨1, 1, 1⟩ ∨ wg = ⟨1, 1, 2⟩) :
    Covers .add [1] wg := by
  intro i hi
  obtain rfl : i = 0 := Nat.lt_one_iff.mp hi
  refine ⟨flatThread .add wg 0 0, flatThread_mem rfl ?_ ?_, ?_⟩
  · rcases h with rfl | rfl <;> decide
  · rcases h with rfl | rfl <;> decide
  · rw [Builtin.target, idx_flatThread rfl]
    rfl

/-- One layer adds once. -/
theorem one_layer_is_harmless : ExtraHarmless .cuda .add [1] ⟨1, 1, 1⟩ :=
  (harmless_iff_once rfl (accepts_add .cuda (.inl rfl)) (covers_one (.inl rfl))).mpr
    (.inr ⟨rfl, by decide⟩)

/-- **A second layer adds again.** -/
theorem second_layer_adds_again :
    Builtin.add.Accepts Format.wgsl.validate [1] ⟨1, 1, 2⟩ ∧ Covers .add [1] ⟨1, 1, 2⟩ ∧
      ¬ ExtraHarmless .wgsl .add [1] ⟨1, 1, 2⟩ ∧ ¬ ExtraHarmless .cuda .add [1] ⟨1, 1, 2⟩ := by
  have hnot : ∀ format, ¬ ExtraHarmless format .add [1] ⟨1, 1, 2⟩ := by
    intro format h
    rcases once_of_harmless_add (accepts_add format (.inr rfl)) h with h0 | ⟨hz, -⟩
    · exact absurd h0 (by decide)
    · exact absurd hz (by decide)
  exact ⟨accepts_add .wgsl (.inr rfl), covers_one (.inr rfl), hnot .wgsl, hnot .cuda⟩

end Sample
end Wilupgu.Builtins
