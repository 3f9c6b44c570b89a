import Mathlib.Algebra.BigOperators.Intervals
import Wilupgu.Builtins.Partials
import Wilupgu.Builtins.Products

/-! # Exact sums

Over exact arithmetic a launch of a reduction leaves one partial sum for each
workgroup, and calling `sum` on these again and again leaves the whole sum. -/

namespace Wilupgu.Builtins

open Backend Simt Lockstep Transition Finset

variable {F : Type} [CommSemiring F]

/-! ## Sums -/

/-- The tree adds up all it's given. -/
theorem treeSum_eq (k : Nat) (x : Nat → F) :
    Gpu.treeSum (2 ^ k) x 0 = ∑ i ∈ range (2 ^ (k + 1)), x i := by
  induction k generalizing x with
  | zero =>
    rw [pow_zero, Gpu.treeSum, if_neg Nat.one_ne_zero, Gpu.treeSum, if_pos (by decide)]
    exact (sum_range_succ x 1).trans (congrArg (· + x 1) (sum_range_one x)) |>.symm
  | succ k ih =>
    have hhalf : 2 ^ (k + 1) / 2 = 2 ^ k := by omega
    rw [Gpu.treeSum, if_neg (by positivity), hhalf, ih, pow_succ 2 (k + 1), Nat.mul_two,
      sum_range_add, ← sum_add_distrib]
    refine sum_congr rfl fun i hi => ?_
    rw [if_pos (mem_range.mp hi), Nat.add_comm i]
    rfl

/-- Workgroup `w`'s slice of the first `n` elements. -/
def slice (n w : Nat) : Finset Nat := {i ∈ range n | w * 256 ≤ i ∧ i < w * 256 + 256}

theorem sum_slice (n w : Nat) (x : Nat → F) :
    (∑ k ∈ range 256, if w * 256 + k < n then x (w * 256 + k) else 0) = ∑ i ∈ slice n w, x i := by
  have hslice : slice n w = {i ∈ Ico (w * 256) (w * 256 + 256) | i < n} := by
    ext i
    simp only [slice, mem_filter, mem_range, mem_Ico]
    tauto
  have hshift := sum_Ico_eq_sum_range (fun i => if i < n then x i else 0) (w * 256) (w * 256 + 256)
  rw [Nat.add_sub_cancel_left] at hshift
  rw [hslice, sum_filter, hshift]

/-- The slices of enough workgroups are all of it. -/
theorem sum_slices {n groups : Nat} (h : n ≤ 256 * groups) (x : Nat → F) :
    ∑ w ∈ range groups, ∑ i ∈ slice n w, x i = ∑ i ∈ range n, x i := by
  have hdisjoint : Set.PairwiseDisjoint (range groups : Set Nat) (slice n) := by
    intro w _ w' _ hne
    refine disjoint_left.mpr fun i hi hi' => hne ?_
    obtain ⟨-, h₁, h₂⟩ := mem_filter.mp hi
    obtain ⟨-, h₁', h₂'⟩ := mem_filter.mp hi'
    omega
  rw [← sum_biUnion hdisjoint]
  refine sum_congr (ext fun i => ?_) fun _ _ => rfl
  simp only [mem_biUnion, mem_range, slice, mem_filter]
  constructor
  · intro hi
    obtain ⟨_, -, hi, -⟩ := hi
    exact hi
  · intro hi
    exact ⟨i / 256, by omega, hi, by omega, by omega⟩

/-! ## A launch -/

section Launch

variable {r : Reduction} {n : UInt32} {wg : Workgroups} {id : Ids}

theorem Reduction.block_eq (r : Reduction) : r.builtin.block = ⟨256, 1, 1⟩ := by
  cases r <;> decide

/-- A workgroup's number. -/
theorem group_spec {b : Builtin} (hz : wg.z.toNat = 1) (hid : id ∈ grid b wg) :
    Gpu.group .exact id = id.blockIdx.y * wg.x.toNat + id.blockIdx.x ∧
      id.blockIdx.x < wg.x.toNat ∧ id.blockIdx.y < wg.y.toNat ∧ id.blockIdx.z = 0 := by
  obtain ⟨hg, -, hgroup, -⟩ := mem_grid.mp hid
  obtain ⟨hx, hy, hz'⟩ := mem_places.mp hgroup
  rw [hg] at hx hy hz'
  change id.blockIdx.z < wg.z.toNat at hz'
  refine ⟨?_, hx, hy, by omega⟩
  rw [Gpu.group, hg]
  rfl

/-- Up to `2 ^ 32` threads no number wraps. -/
theorem group_u32_eq {b : Builtin}
    (hmax : 256 * (wg.x.toNat * wg.y.toNat) ≤ 2 ^ 32) (hid : id ∈ grid b wg) :
    Gpu.group .u32 id = Gpu.group .exact id := by
  have hlt := group_lt hid
  rw [group_u32, Nat.mod_eq_of_lt (by omega)]

theorem group_inj {b : Builtin} (hz : wg.z.toNat = 1)
    (hmax : 256 * (wg.x.toNat * wg.y.toNat) ≤ 2 ^ 32) (i j : Launched b wg)
    (h : Gpu.group .u32 i.1 = Gpu.group .u32 j.1) : workgroup i = workgroup j := by
  rw [group_u32_eq hmax i.2, group_u32_eq hmax j.2] at h
  obtain ⟨hi, hx, -, hzi⟩ := group_spec hz i.2
  obtain ⟨hj, hx', -, hzj⟩ := group_spec hz j.2
  rw [hi, hj] at h
  obtain ⟨hy, hx⟩ := row_col_inj hx hx' h
  rw [workgroup, workgroup]
  rcases hbi : i.1.blockIdx with ⟨x, y, z⟩
  rcases hbj : j.1.blockIdx with ⟨x', y', z'⟩
  simp only [hbi, hbj] at hx hy hzi hzj
  rw [hx, hy, hzi, hzj]

/-- Every workgroup has a first thread. -/
theorem exists_first (r : Reduction) (hz : wg.z.toNat = 1) {w : Nat}
    (hw : w < wg.x.toNat * wg.y.toNat) : ∃ i : Launched r.builtin wg,
      i.1.threadIdx.x = 0 ∧ Gpu.group .exact i.1 = w := by
  have hx : 0 < wg.x.toNat := Nat.pos_of_mul_pos_right (Nat.zero_lt_of_lt hw)
  refine ⟨⟨⟨⟨w % wg.x.toNat, w / wg.x.toNat, 0⟩, ⟨0, 0, 0⟩, .ofWords wg.x wg.y wg.z,
    r.builtin.block⟩, mem_grid.mpr ⟨rfl, rfl, mem_places.mpr ⟨Nat.mod_lt _ hx,
      Nat.div_lt_of_lt_mul hw, ?_⟩, mem_places.mpr ?_⟩⟩, rfl, Nat.div_add_mod' _ _⟩
  · exact Nat.lt_of_lt_of_eq Nat.one_pos hz.symm
  · rw [r.block_eq]
    exact ⟨Nat.zero_lt_succ 255, Nat.one_pos, Nat.one_pos⟩

/-- **What a launch leaves**: the sum over its slice for each workgroup, so that
these add up to the whole, and all else as it was. -/
structure Reduction.Leaves (r : Reduction) (n groups : Nat) (m₀ m : Cell → F) : Prop where
  partials : ∀ w < groups, m (.slot r.out w) = ∑ i ∈ slice n w, r.summand (slotsOf m₀) i
  total : ∑ w ∈ range groups, m (.slot r.out w) = ∑ i ∈ range n, r.summand (slotsOf m₀) i
  kept : ∀ s j, s ≠ r.out ∨ groups ≤ j → m (.slot s j) = m₀ (.slot s j)

theorem Reduction.correct (r : Reduction) (format : Format) (hz : wg.z.toNat = 1)
    (hn : n.toNat ≤ 256 * (wg.x.toNat * wg.y.toNat))
    (hmax : 256 * (wg.x.toNat * wg.y.toNat) ≤ 2 ^ 32) (m₀ : Cell → F) :
    Correct workgroup (r.Leaves n.toNat (wg.x.toNat * wg.y.toNat) m₀)
      (fun i : Launched r.builtin wg => r.shared format .u32 [n] i.1) m₀ := by
  have hcorrect := Shared.correct_reduceWith r.out (fun id => r.term format .u32 [n] id)
    (fun id mem => r.padded [n] mem (Gpu.idx .u32 id)) r.block_eq
    (fun id => r.term_looks format .u32 [n] id) (group_inj hz hmax) m₀
  refine hcorrect.mono fun m hends => ?_
  obtain ⟨hsums, hkept⟩ := hends
  have hpartials : ∀ w < wg.x.toNat * wg.y.toNat,
      m (.slot r.out w) = ∑ i ∈ slice n.toNat w, r.summand (slotsOf m₀) i := by
    intro w hw
    obtain ⟨i, hx, hgroup⟩ := exists_first r hz hw
    have hsum := hsums i hx
    rw [group_u32_eq hmax i.2, hgroup, show 128 = 2 ^ 7 from rfl, treeSum_eq] at hsum
    rw [hsum, ← sum_slice]
    refine sum_congr rfl fun k hk => ?_
    have hk := mem_range.mp hk
    have hidx : Gpu.idx .u32 (Shared.inRow i.1 k) = w * 256 + k := by
      obtain ⟨-, hd, -, -⟩ := mem_grid.mp i.2
      have hexact : Gpu.idx .exact (Shared.inRow i.1 k) = Gpu.group .exact i.1 * 256 + k := by
        simp only [Gpu.idx, Shared.inRow, hd, r.block_eq]
        rfl
      rw [idx_u32, hexact, hgroup, Nat.mod_eq_of_lt (by omega)]
    rw [hidx]
    rfl
  refine ⟨hpartials, ?_, fun s j hsj => hkept s j fun i he => ?_⟩
  · rw [← sum_slices hn]
    exact sum_congr rfl fun w hw => hpartials w (mem_range.mp hw)
  · obtain ⟨rfl, rfl⟩ := Prod.mk.inj he
    have hlt := group_lt i.2
    rw [← group_u32_eq hmax i.2] at hlt
    rcases hsj with h | h
    · exact h rfl
    · omega

end Launch

/-! ## The recipe -/

/-- The values that are left. -/
structure Values (F : Type) where
  count : Nat
  value : Nat → F

/-- Every slot holds the values. -/
def Values.cells (v : Values F) : Cell → F
  | .slot _ i => v.value i
  | .own _ _ _ => 0

/-- A call of a builtin on `n` elements, with a workgroup for each 256 of them,
left these partials. -/
def Reduction.Called (r : Reduction) (format : Format) (n : UInt32) (m₀ : Cell → F)
    (v : Values F) : Prop :=
  ∃ wg : Workgroups, wg.z.toNat = 1 ∧ wg.x.toNat * wg.y.toNat = (n.toNat + 255) / 256 ∧
    ∃ es s, Runs (Step workgroup)
        ⟨fun i : Launched r.builtin wg => r.shared format .u32 [n] i.1, m₀⟩ es s ∧ s.Done ∧
      v = ⟨(n.toNat + 255) / 256, fun w => s.mem (.slot r.out w)⟩

/-- `sum` is called again, on the values left. -/
def Again (format : Format) (v : Values F) (_ : Unit) (v' : Values F) : Prop :=
  1 < v.count ∧ ∃ n m₀, UInt32.toNat n = v.count ∧ (∀ i < v.count, m₀ (.slot 1 i) = v.value i) ∧
    Reduction.sum.Called format n m₀ v'

/-- What the values add up to. -/
def Values.total (v : Values F) : F := ∑ i ∈ range v.count, v.value i

section Recipe

variable {r : Reduction} {format : Format} {n : UInt32} {m₀ : Cell → F} {v v' : Values F}

theorem Reduction.Called.spec (h : r.Called format n m₀ v) :
    v.count = (n.toNat + 255) / 256 ∧
      v.total = ∑ i ∈ range n.toNat, r.summand (slotsOf m₀) i := by
  obtain ⟨wg, hz, hgroups, es, s, hrun, hdone, rfl⟩ := h
  have hlt := n.toNat_lt
  have hleaves := (r.correct format hz (n := n) (by omega) (by omega) m₀).ends es s hrun hdone
  rw [hgroups] at hleaves
  exact ⟨rfl, hleaves.total⟩

/-- There is always a call to make, and it ends. -/
theorem Reduction.exists_called (r : Reduction) (format : Format) (n : UInt32) (m₀ : Cell → F) :
    ∃ v, r.Called format n m₀ v := by
  have hlt := n.toNat_lt
  have hgroups : (UInt32.ofNat ((n.toNat + 255) / 256)).toNat = (n.toNat + 255) / 256 :=
    UInt32.toNat_ofNat_of_lt' (Nat.lt_of_le_of_lt (m := 2 ^ 24) (by omega) (by decide))
  have hone : (1 : UInt32).toNat = 1 := rfl
  have hxy : (UInt32.ofNat ((n.toNat + 255) / 256)).toNat * (1 : UInt32).toNat =
      (n.toNat + 255) / 256 := by
    rw [hgroups, hone, Nat.mul_one]
  have hcorrect : Correct workgroup _ (fun i : Launched r.builtin
      ⟨.ofNat ((n.toNat + 255) / 256), 1, 1⟩ => r.shared format .u32 [n] i.1) m₀ :=
    r.correct format hone (by rw [hxy]; omega) (by rw [hxy]; omega) m₀
  obtain ⟨es, s, hrun, hdone⟩ := hcorrect.exists_done
  exact ⟨_, _, hone, hxy, es, s, hrun, hdone, rfl⟩

/-- **Step rule.** A call more leaves what the values add up to. -/
theorem Again.spec {u : Unit} (h : Again format v u v') :
    1 < v.count ∧ v'.count = (v.count + 255) / 256 ∧ v'.total = v.total := by
  obtain ⟨hcount, n, m₀, hn, hvalues, hcalled⟩ := h
  obtain ⟨hcount', htotal⟩ := hcalled.spec
  refine ⟨hcount, hn ▸ hcount', htotal.trans ?_⟩
  rw [hn]
  exact sum_congr rfl fun i hi => hvalues i (mem_range.mp hi)

/-- **Run rule.** The total stays, and `256 ^ d` values take `d` calls at most. -/
theorem again_runs {d : Nat} {us : List Unit} (h : Runs (Again format) v us v')
    (hv : 1 ≤ v.count) (hd : v.count ≤ 256 ^ d) :
    us.length ≤ d ∧ 1 ≤ v'.count ∧ v'.count ≤ 256 ^ d ∧ v'.total = v.total := by
  induction h generalizing d with
  | nil => exact ⟨Nat.zero_le d, hv, hd, rfl⟩
  | @cons v v₁ v' u us hs _ ih =>
    obtain ⟨hmore, hcount, htotal⟩ := hs.spec
    cases d with
    | zero => omega
    | succ d =>
      rw [pow_succ] at hd
      obtain ⟨hlen, hone, hle, htotal'⟩ := ih (d := d) (by omega) (by omega)
      refine ⟨Nat.succ_le_succ hlen, hone, hle.trans ?_, htotal'.trans htotal⟩
      exact Nat.pow_le_pow_right (by decide) (Nat.le_succ d)

end Recipe

/-- **The GPU reductions are right.** A launch leaves for each workgroup the sum
over its slice, and so the whole sum, in any order of the threads between
barriers. Calling `sum` on the partials again ends, after three more calls at
most, with one value, which is the total. -/
theorem reductions_are_right (r : Reduction) (format : Format) (n : UInt32) (hn : 1 ≤ n.toNat)
    (m₀ : Cell → F) :
    (∀ wg : Workgroups, wg.z.toNat = 1 → n.toNat ≤ 256 * (wg.x.toNat * wg.y.toNat) →
      256 * (wg.x.toNat * wg.y.toNat) ≤ 2 ^ 32 →
        Correct workgroup (r.Leaves n.toNat (wg.x.toNat * wg.y.toNat) m₀)
          (fun i : Launched r.builtin wg => r.shared format .u32 [n] i.1) m₀) ∧
      (∃ v, r.Called format n m₀ v) ∧
      ∀ v, r.Called format n m₀ v → ∀ us v', Runs (Again format) v us v' → us.length ≤ 3 ∧
        ((∃ v'', Again format v' () v'') ∨
          (v'.count = 1 ∧ v'.value 0 = ∑ i ∈ range n.toNat, r.summand (slotsOf m₀) i)) := by
  refine ⟨fun wg hz hle hmax => r.correct format hz hle hmax m₀, r.exists_called format n m₀, ?_⟩
  intro v hv us v' hruns
  obtain ⟨hcount, htotal⟩ := hv.spec
  have hlt := n.toNat_lt
  obtain ⟨hlen, hone, hle, htotal'⟩ := again_runs (d := 3) hruns (by omega) (by omega)
  refine ⟨hlen, ?_⟩
  rcases Nat.lt_or_eq_of_le hone with hmore | hone
  · -- the values left are the elements of a slot again
    have hfits : (UInt32.ofNat v'.count).toNat = v'.count :=
      UInt32.toNat_ofNat_of_lt' (Nat.lt_of_le_of_lt hle (by decide))
    obtain ⟨v'', hv''⟩ := Reduction.sum.exists_called format (.ofNat v'.count) v'.cells
    exact .inl ⟨v'', hmore, _, _, hfits, fun _ _ => rfl, hv''⟩
  · refine .inr ⟨hone.symm, ?_⟩
    rw [← htotal, ← htotal', Values.total, ← hone, sum_range_one]

namespace Sample

/-- Ones everywhere. -/
def ones : Cell → Nat := fun _ => 1

end Sample

/-- Two workgroups for 300 products, 44 of which are the second one's. -/
theorem dot_of_300 : Correct workgroup (Reduction.dot.Leaves 300 2 Sample.ones)
      (fun i : Launched Reduction.dot.builtin ⟨2, 1, 1⟩ =>
        Reduction.dot.shared .wgsl .u32 [300] i.1) Sample.ones ∧
    (∃ v, Reduction.dot.Called .wgsl 300 Sample.ones v) ∧
    ∑ i ∈ slice 300 1, Reduction.dot.summand (slotsOf Sample.ones) i = 44 := by
  have h := reductions_are_right .dot .wgsl 300 (by decide) Sample.ones
  exact ⟨h.1 ⟨2, 1, 1⟩ rfl (by decide) (by decide), h.2.1, by decide +kernel⟩

end Wilupgu.Builtins
