import Wilupgu.Builtins.Addends
import Wilupgu.Builtins.Panics

/-! # Elementwise GPU code

The kernels of `add`, `mul`, `scale`, `max`, `min`, `clamp` and of those that
fill a tensor change each element in place, by a flat index that wraps at
`2 ^ 32`; the dimension `z` of the grid they ignore. So an element is changed
as often as threads come to it, and the slot ends as native code leaves it
exactly where that often is as good as once. -/

namespace Wilupgu.Builtins

open Backend Loops Simt Simt.Thread Gpu

variable {b : Builtin} {m : List UInt32} {wg : Workgroups} {format : Format} {id : Ids}

/-- The builtins that go through the first elements of slot 1. -/
def Builtin.isElementwise : Builtin → Bool
  | add | mul | scale | max | min | clamp | zeroTensor | fillConstant | fillRandom => true
  | _ => false

/-- How many threads of a launch come to element `i`: in each layer, one for
each time that the flat index wraps to it. -/
def hits (wg : Workgroups) (i : Nat) : Nat :=
  wg.z.toNat * ((256 * (wg.x.toNat * wg.y.toNat) + (2 ^ 32 - 1 - i)) / 2 ^ 32)

theorem block_elementwise (hb : b.isElementwise = true) : b.block = ⟨256, 1, 1⟩ := by
  cases b with
  | matmul | matmulAdd | matmulTrp | gemv | gemvAdd | transpose | sum | dot => cases hb
  | _ => rfl

/-! ## Threads that come to an element -/

/-- Rows of `b` numbers each are one row. -/
theorem flatMap_rows (a b : Nat) :
    ((List.range a).flatMap fun i => (List.range b).map fun j => i * b + j) =
      List.range (a * b) := by
  induction a with
  | zero => simp
  | succ a ih =>
    rw [List.range_succ, List.flatMap_append, ih, Nat.succ_mul, List.range_add]
    simp

/-- The flat indices of a grid, each once in every layer. -/
theorem map_idx_grid (hb : b.block = ⟨256, 1, 1⟩) (wg : Workgroups) :
    (grid b wg).map (idx .exact) =
      (List.range wg.z.toNat).flatMap fun _ => List.range (256 * (wg.x.toNat * wg.y.toNat)) := by
  have hrow (y : Nat) : ((List.range wg.x.toNat).flatMap fun x =>
      (List.range 256).map fun t => (y * wg.x.toNat + x) * 256 + t) =
      (List.range (wg.x.toNat * 256)).map fun j => y * (wg.x.toNat * 256) + j := by
    rw [← flatMap_rows, List.map_flatMap]
    refine List.flatMap_congr fun x _ => ?_
    rw [List.map_map]
    refine List.map_congr_left fun t _ => ?_
    simp only [Function.comp_apply]
    ring
  have hlayer : ((List.range wg.y.toNat).flatMap fun y => (List.range wg.x.toNat).flatMap fun x =>
      (List.range 256).map fun t => (y * wg.x.toNat + x) * 256 + t) =
      List.range (256 * (wg.x.toNat * wg.y.toNat)) := by
    simp only [hrow, flatMap_rows]
    congr 1
    ring
  rw [← hlayer]
  simp [grid, hb, Dim3.places, Dim3.ofWords, List.map_flatMap, List.flatMap_map,
    List.flatMap_assoc, idx, group, Ints.exact, Function.comp_def]

/-- How many numbers below `n` wrap to `i`. -/
theorem countP_wraps (n : Nat) {i : Nat} (hi : i < 2 ^ 32) :
    (List.range n).countP (fun k => k % 2 ^ 32 = i) = (n + (2 ^ 32 - 1 - i)) / 2 ^ 32 := by
  induction n with
  | zero =>
    simp
    omega
  | succ n ih =>
    rw [List.range_succ, List.countP_append, ih, List.countP_singleton]
    by_cases h : n % 2 ^ 32 = i
    · simp only [h, decide_true, if_true]
      omega
    · simp only [h, decide_false, Bool.false_eq_true, if_false]
      omega

/-- **As many threads as `hits` says** come to an element. -/
theorem countP_grid (hb : b.block = ⟨256, 1, 1⟩) (wg : Workgroups) {i : Nat} (hi : i < 2 ^ 32) :
    (grid b wg).countP (fun id => idx .u32 id = i) = hits wg i := by
  have hwrap : (fun id : Ids => decide (idx .u32 id = i)) =
      (fun k => decide (k % 2 ^ 32 = i)) ∘ idx .exact := by
    funext id
    simp only [Function.comp_apply, idx_u32]
  rw [hwrap, ← List.countP_map, map_idx_grid hb, List.countP_flatMap]
  have hall : (List.range wg.z.toNat).map (List.countP (fun k => decide (k % 2 ^ 32 = i)) ∘
      fun _ => List.range (256 * (wg.x.toNat * wg.y.toNat))) =
      List.replicate wg.z.toNat
        ((256 * (wg.x.toNat * wg.y.toNat) + (2 ^ 32 - 1 - i)) / 2 ^ 32) := by
    refine List.eq_replicate_iff.mpr ⟨by simp, fun n hn => ?_⟩
    obtain ⟨_, _, rfl⟩ := List.mem_map.mp hn
    exact countP_wraps _ hi
  rw [hall, List.sum_replicate_nat, hits]

/-! ## What a launch leaves -/

/-- A meta word that is a float. -/
def number (m : List UInt32) (j : Nat) : ℚ := Floats.ofBits (m[j]?.getD 0)

/-- The kernels' `min(max(x, lo), hi)` is `f32::clamp`. -/
theorem value_clamp (m : List UInt32) (x : Memory ℚ) (i : Nat) (old : ℚ) :
    Builtin.clamp.value m x i old = min (max old (number m 1)) (number m 2) := by
  have hmax : max old (number m 1) = if old < number m 1 then number m 1 else old := by
    rw [max_comm, max_def_lt]
    split <;> split <;> linarith
  rw [hmax, min_comm, min_def_lt]
  simp only [Builtin.value, Floats.lt, decide_eq_true_eq]
  rfl

theorem each_val {F : Type} {ar : Ints} (value : Nat → Thread F F) (mem : Memory F) :
    (each ar m id value mem).1 =
      (if idx ar id < dim m 0 then some (idx ar id) else none).map fun i =>
        ⟨1, i, (value i mem).1⟩ := by
  rw [each]
  split <;> rfl

/-- One thread does to its element what native code does. -/
theorem entry_elementwise (hb : b.isElementwise = true) (mem : Memory ℚ) :
    (format.entry .u32 m id b mem).1 =
      (if idx .u32 id < dim m 0 then some (idx .u32 id) else none).map fun i =>
        ⟨1, i, b.value m mem i (mem 1 i)⟩ := by
  have hwgsl : format.entry (F := ℚ) .u32 m id b = Wgsl.entry .u32 m id b := by
    cases b with
    | sum | dot => cases hb
    | _ => cases format <;> rfl
  rw [hwgsl]
  cases b with
  | clamp =>
    refine (each_val _ mem).trans (congrArg (Option.map · _) (funext fun i => ?_))
    exact congrArg (Store.mk 1 i) (value_clamp m mem i (mem 1 i)).symm
  | add | mul | scale | max | min | zeroTensor | fillConstant | fillRandom =>
    exact each_val _ mem
  | _ => cases hb

/-- The other slot is only read. -/
theorem value_elementwise (hb : b.isElementwise = true) {x y : Memory ℚ} (h : x 2 = y 2) :
    b.value m x = b.value m y := by
  cases b with
  | add | mul | max | min =>
    funext i old
    simp only [Builtin.value, h]
  | scale | clamp | zeroTensor | fillConstant | fillRandom => rfl
  | _ => cases hb

/-- **What a launch leaves**: each element changed as often as threads come to it. -/
theorem launch_elementwise (hb : b.isElementwise = true) {order : List Ids}
    (horder : order.Perm (grid b wg)) (mem : Memory ℚ) (slot i : Nat) :
    launch (fun id => format.entry .u32 m id b) order mem slot i =
      if slot = 1 ∧ i < dim m 0 then (b.value m mem i)^[hits wg i] (mem 1 i) else mem slot i := by
  have hwrites : WritesTo (fun id => format.entry .u32 m id b) 1
      (fun id => if idx .u32 id < dim m 0 then some (idx .u32 id) else none)
      (fun _ => b.value m mem) mem order := by
    intro id _ mem' hmem'
    rw [entry_elementwise hb, value_elementwise hb (hmem' 2 (by decide))]
  obtain ⟨hothers, hout⟩ := launch_eq hwrites
  by_cases hslot : slot = 1
  · subst hslot
    rw [hout]
    by_cases hi : i < dim m 0
    · have htarget (id : Ids) :
          (if idx .u32 id < dim m 0 then some (idx .u32 id) else none) = some i ↔
            idx .u32 id = i := by
        rw [Option.ite_none_right_eq_some, Option.some_inj, and_iff_right_iff_imp]
        exact fun h => h ▸ hi
      simp only [through_iterate, htarget]
      rw [horder.countP_eq, countP_grid (block_elementwise hb) wg (hi.trans (dim_lt m 0)),
        if_pos ⟨trivial, hi⟩]
    · rw [if_neg fun h => hi h.2]
      refine through_none (fun id _ ht => hi ?_) _
      obtain ⟨hlt, ht⟩ := Option.ite_none_right_eq_some.mp ht
      exact Option.some.inj ht ▸ hlt
  · rw [if_neg fun h => hslot h.1, hothers slot hslot]

/-! ## As good as once -/

/-- Done `k` times it is as good as done once, whatever the slots hold. -/
def Builtin.Suits (b : Builtin) (m : List UInt32) (k : Nat) : Prop :=
  match b with
  | add | mul => k = 1
  | scale => number m 1 ^ k = number m 1
  | clamp => 0 < k ∧ number m 1 ≤ number m 2
  | _ => 0 < k

/-- What changes nothing the second time may be done any number of times. -/
theorem iterate_settled {α : Type} {f : α → α} (hf : ∀ x, f (f x) = f x) {k : Nat} (hk : 0 < k)
    (x : α) : f^[k] x = f x := by
  obtain ⟨k, rfl⟩ := Nat.exists_eq_add_one_of_ne_zero hk.ne'
  rw [Function.iterate_succ_apply]
  exact Function.iterate_fixed (hf x) k

theorem clamp_settled {lo hi : ℚ} (h : lo ≤ hi) (x : ℚ) :
    min (max (min (max x lo) hi) lo) hi = min (max x lo) hi := by
  rw [max_eq_left (le_min (le_max_right x lo) h), min_assoc, min_self]

theorem iterate_value (hb : b.isElementwise = true) {k : Nat} (hk : b.Suits m k) (x : Memory ℚ)
    (i : Nat) (old : ℚ) : (b.value m x i)^[k] old = b.value m x i old := by
  cases b with
  | add | mul =>
    obtain rfl : k = 1 := hk
    rfl
  | scale =>
    have hpow : (Builtin.scale.value m x i)^[k] old = old * number m 1 ^ k :=
      mul_right_iterate_apply _ _
    rw [hpow, show number m 1 ^ k = number m 1 from hk]
    rfl
  | max =>
    have hmax (v : ℚ) : max (max v (x 2 i)) (x 2 i) = max v (x 2 i) := by rw [max_assoc, max_self]
    exact iterate_settled (f := (max · (x 2 i))) hmax hk old
  | min =>
    have hmin (v : ℚ) : min (min v (x 2 i)) (x 2 i) = min v (x 2 i) := by rw [min_assoc, min_self]
    exact iterate_settled (f := (min · (x 2 i))) hmin hk old
  | clamp =>
    obtain ⟨hk, hle⟩ := hk
    rw [show Builtin.clamp.value m x i = _ from funext (value_clamp m x i)]
    exact iterate_settled (clamp_settled hle) hk old
  | zeroTensor | fillConstant | fillRandom =>
    exact iterate_settled (f := Builtin.value _ m x i) (fun _ => rfl) hk old
  | _ => cases hb

/-! ## When it is not -/

/-- Slots that hold `v` and, where there are two, `w` everywhere. -/
def Builtin.flat (b : Builtin) (m : List UInt32) (v w : ℚ) : List (Slot ℚ) :=
  match b with
  | add | mul | max | min =>
    [.Write (listed (dim m 0) fun _ => v), .Read (listed (dim m 0) fun _ => w)]
  | _ => [.Write (listed (dim m 0) fun _ => v)]

theorem bound_flat (hb : b.isElementwise = true) (wg : Workgroups) (v w : ℚ) :
    Bound b m wg (b.flat m v w) := by
  have hfits (v : ℚ) : dim m 0 ≤ (listed (dim m 0) fun _ => v).length :=
    Nat.le_of_eq (length_listed _ _).symm
  cases b with
  | add | mul | max | min => exact .cons ⟨rfl, hfits v⟩ (.cons ⟨rfl, hfits w⟩ .nil)
  | scale | clamp | zeroTensor | fillConstant | fillRandom => exact .cons ⟨rfl, hfits v⟩ .nil
  | _ => cases hb

theorem elem_flat (hb : b.isElementwise = true) {i : Nat} (hi : i < dim m 0) (v w : ℚ) :
    elem (b.flat m v w) 1 i = v := by
  cases b with
  | matmul | matmulAdd | matmulTrp | gemv | gemvAdd | transpose | sum | dot => cases hb
  | _ => exact getD_listed (fun _ => v) hi

/-- From every such start, what comes of `k` times tells whether once is as good. -/
theorem suits_of_iterate (hb : b.isElementwise = true) {i k : Nat} (hi : i < dim m 0)
    (hclamp : b = .clamp → number m 1 ≤ number m 2)
    (h : ∀ v w, (b.value m (elem (b.flat m v w)) i)^[k] v =
      b.value m (elem (b.flat m v w)) i v) : b.Suits m k := by
  have hother {b : Builtin} (hb : b = .add ∨ b = .mul ∨ b = .max ∨ b = .min) (v w : ℚ) :
      elem (b.flat m v w) 2 i = w := by
    rcases hb with rfl | rfl | rfl | rfl <;> exact getD_listed (fun _ => w) hi
  -- where no thread comes, some start would have had to change
  have hpos (v w : ℚ) (hne : b.value m (elem (b.flat m v w)) i v ≠ v) : 0 < k := by
    refine Nat.pos_of_ne_zero ?_
    rintro rfl
    exact hne (h v w).symm
  cases b with
  | add =>
    have hone : Builtin.add.value m (elem (Builtin.add.flat m 0 1)) i = (· + 1) := by
      funext old
      exact congrArg (old + ·) (hother (.inl rfl) 0 1)
    have hsum := h 0 1
    rw [hone, add_right_iterate_apply, nsmul_one, add_right_inj] at hsum
    exact Nat.cast_eq_one.mp hsum
  | mul =>
    have htwo : Builtin.mul.value m (elem (Builtin.mul.flat m 1 2)) i = (· * 2) := by
      funext old
      exact congrArg (old * ·) (hother (.inr (.inl rfl)) 1 2)
    have hprod := h 1 2
    rw [htwo, mul_right_iterate_apply, one_mul] at hprod
    have hpow : (2 : ℚ) ^ k = 2 ^ 1 := hprod.trans ((one_mul 2).trans (pow_one 2).symm)
    exact pow_right_injective₀ two_pos (by norm_num) hpow
  | scale =>
    have hprod := h 1 0
    have hscale : Builtin.scale.value m (elem (Builtin.scale.flat m 1 0)) i = (· * number m 1) :=
      rfl
    rw [hscale, mul_right_iterate_apply, one_mul] at hprod
    exact hprod.trans (one_mul (number m 1))
  | clamp =>
    refine ⟨hpos (number m 1 - 1) 0 ?_, hclamp rfl⟩
    rw [value_clamp, max_eq_right (by linarith), min_eq_left (hclamp rfl)]
    linarith
  | max =>
    refine hpos 0 1 ?_
    show max 0 (elem (Builtin.max.flat m 0 1) 2 i) ≠ 0
    rw [hother (.inr (.inr (.inl rfl)))]
    norm_num
  | min =>
    refine hpos 1 0 ?_
    show min 1 (elem (Builtin.min.flat m 1 0) 2 i) ≠ 1
    rw [hother (.inr (.inr (.inr rfl)))]
    norm_num
  | zeroTensor => exact hpos 1 0 zero_ne_one
  | fillConstant => exact hpos (number m 1 + 1) 0 (lt_add_one (number m 1)).ne
  | fillRandom => exact hpos (Native.random (m[1]?.getD 0) i + 1) 0 (lt_add_one _).ne
  | _ => cases hb

/-! ## Exactly -/

/-- `clamp` runs to its end exactly if its bounds are in order or there is no element. -/
theorem clamp_returns_iff (hm : Builtin.clamp.MetaOk m) {slots : List (Slot ℚ)}
    (hs : Bound .clamp m wg slots) :
    (∃ ends, Builtin.clamp.native m slots = .ok ends) ↔
      (0 < dim m 0 → number m 1 ≤ number m 2) := by
  obtain ⟨x, rfl, hx⟩ := bound_one hs rfl
  have hshaped : Builtin.clamp.Shaped [Slot.Write x] := .cons ⟨rfl, Nat.zero_le _⟩ .nil
  have hok := isOk_native_iff hm hshaped
  constructor
  · rintro ⟨ends, hends⟩ hpos
    rw [hends] at hok
    exact of_decide_eq_true ((hok.mp rfl).2 rfl hpos (Nat.lt_of_lt_of_le hpos hx))
  · intro hle
    have hreturns := hok.mpr ⟨fun _ _ hi => hi.elim, fun _ hpos _ => decide_eq_true (hle hpos)⟩
    rcases clamp_cases hm hs with he | he
    · exact ⟨_, he⟩
    · rw [he] at hreturns
      cases hreturns

/-- The bits of a number, neither of an infinity nor of a NaN. -/
def IsNumber (bits : UInt32) : Prop := bits.toNat / 2 ^ 23 % 2 ^ 8 ≠ 255

instance (bits : UInt32) : Decidable (IsNumber bits) :=
  inferInstanceAs (Decidable (bits.toNat / 2 ^ 23 % 2 ^ 8 ≠ 255))

/-- A meta of the builtin's fields, its floats numbers: exact arithmetic has the
values of these only. -/
structure Builtin.ExactMeta (b : Builtin) (m : List UInt32) : Prop where
  fields : b.MetaOk m
  numbers : ∀ (j : Nat) (field : MetaField), b.signature.metaFields[j]? = some field →
    field.ty = .Float → IsNumber (m[j]?.getD 0)

/-- **When a launch of an elementwise kernel leaves what native code does**, in
exact arithmetic, in every order of its threads and whatever the slots hold: if
each element is changed often enough, and no oftener than it may be. -/
theorem elementwise_harmless_iff_suits (hb : b.isElementwise = true) (hexact : b.ExactMeta m) :
    ExtraHarmless format b m wg ↔ ∀ i < dim m 0, b.Suits m (hits wg i) := by
  have hm := hexact.fields
  have hout : b.out = 1 ∧ b.owns m = dim m 0 := by
    cases b with
    | matmul | matmulAdd | matmulTrp | gemv | gemvAdd | transpose | sum | dot => cases hb
    | _ => exact ⟨rfl, rfl⟩
  constructor
  · intro h i hi
    have hflat (v w : ℚ) := h _ (bound_flat hb wg v w) (grid b wg) (.refl _)
    refine suits_of_iterate hb hi ?_ fun v w => ?_
    · rintro rfl
      obtain ⟨ends, hends, -⟩ := hflat 0 0
      exact (clamp_returns_iff hm (bound_flat hb wg 0 0)).mp ⟨ends, hends⟩ (by omega)
    · obtain ⟨ends, hends, hleft⟩ := hflat v w
      obtain rfl := native_ok hm (bound_flat hb wg v w) hends
      have hone := congrFun (hleft 1 Nat.one_pos) i
      rw [launch_elementwise hb (.refl _), elem_written (bound_flat hb wg v w) Nat.one_pos,
        hout.1, hout.2, if_pos ⟨rfl, hi⟩, if_pos ⟨rfl, hi⟩, elem_flat hb hi] at hone
      exact hone
  · intro h slots hs order horder
    have hreturns : ∃ ends, b.native m slots = .ok ends := by
      by_cases hclamp : b = .clamp
      · subst hclamp
        exact (clamp_returns_iff hm hs).mpr fun hpos => (h 0 hpos).2
      · exact ⟨_, native_eq hclamp hm hs⟩
    obtain ⟨ends, hends⟩ := hreturns
    refine ⟨ends, hends, fun slot hslot => funext fun i => ?_⟩
    obtain rfl := native_ok hm hs hends
    rw [launch_elementwise hb horder, elem_written hs hslot, hout.1, hout.2]
    split
    · rename_i hi
      rw [iterate_value hb (h i hi.2)]
    · rfl

/-- One element, and the factor -1. -/
def negating : List UInt32 := [1, 0xBF800000]

theorem number_negating : number negating 1 = -1 := by decide +kernel

theorem exact_negating : Builtin.scale.ExactMeta negating where
  fields := rfl
  numbers j field hfield hfloat := by
    rcases j with _ | _ | j
    · cases hfield
      cases hfloat
    · show IsNumber 0xBF800000
      decide
    · cases hfield

/-- **Three layers of threads negate an element, two leave it as it was.** -/
theorem negated_by_three_layers : ExtraHarmless .wgsl .scale negating ⟨1, 1, 3⟩ ∧
    ¬ ExtraHarmless .wgsl .scale negating ⟨1, 1, 2⟩ := by
  have hsuits (k : Nat) : Builtin.scale.Suits negating k ↔ (-1 : ℚ) ^ k = -1 := by
    rw [← number_negating]
    rfl
  constructor
  · refine (elementwise_harmless_iff_suits rfl exact_negating).mpr fun i hi => ?_
    obtain rfl : i = 0 := Nat.lt_one_iff.mp hi
    rw [hsuits, show hits ⟨1, 1, 3⟩ 0 = 3 from rfl]
    norm_num
  · intro h
    have hzero := (elementwise_harmless_iff_suits rfl exact_negating).mp h 0 Nat.one_pos
    rw [hsuits, show hits ⟨1, 1, 2⟩ 0 = 2 from rfl] at hzero
    norm_num at hzero

end Wilupgu.Builtins
