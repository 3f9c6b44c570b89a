import Mathlib.Algebra.Ring.Defs
import Mathlib.Algebra.Order.Ring.Int
import Wilupgu.Builtins.Tiled

/-! # Matrix products with tiles

Over exact arithmetic, the three tiled matrix products leave what the plain
loops of native code do. -/

namespace Wilupgu.Builtins

open Backend Simt Lockstep

/-- Exact arithmetic. -/
instance (priority := low) {F : Type} [CommSemiring F] : Arith F where
  zero := 0
  add := (· + ·)
  mul := (· * ·)

theorem padded_of_semiring (F : Type) [CommSemiring F] : Padded F := by
  intro k a b
  have hzero : ∀ x : F, x + 0 * 0 = x := fun x => by rw [mul_zero, add_zero]
  exact hzero _

/-- With operations that the matrix products don't use. -/
abbrev Arith.floats (F : Type) [Arith F] : Floats F where
  negZero := Arith.zero
  div x _ := x
  max x _ := x
  min x _ := x
  lt _ _ := false
  le _ _ := false
  ofBits _ := Arith.zero
  ofUInt32 _ := Arith.zero

namespace Product

variable {F : Type} [Arith F]

/-- Its native code. -/
def native : Product → List UInt32 → List (Slot F) → Outcome Empty (List (Slot F))
  | matmul => Native.matmul
  | matmulAdd => Native.matmulAdd
  | matmulTrp => Native.matmulTrp

/-- What the sizes and the workgroup counts of a launch have to be. -/
structure Sizes (mm : List UInt32) (wg : Workgroups) : Prop where
  inner : dim mm 2 ≤ 2 ^ 32 - 16
  factorA : dim mm 0 * dim mm 2 ≤ 2 ^ 32
  factorB : dim mm 2 * dim mm 1 ≤ 2 ^ 32
  result : dim mm 0 * dim mm 1 ≤ 2 ^ 32
  cols : (dim mm 1 + 15) / 16 ≤ wg.x.toNat
  rows : (dim mm 0 + 15) / 16 ≤ wg.y.toNat
  layer : wg.z.toNat = 1
  width : 16 * wg.x.toNat ≤ 2 ^ 32
  height : 16 * wg.y.toNat ≤ 2 ^ 32

variable {p : Product} {mm : List UInt32} {wg : Workgroups} {id : Ids} {slots : List (Slot F)}

theorem block_eq (p : Product) : p.builtin.block = ⟨16, 16, 1⟩ := by cases p <;> decide

theorem isMatrix (p : Product) : p.builtin.isMatrix = true := by cases p <;> rfl

theorem out_eq (p : Product) : p.builtin.out = 3 := by cases p <;> rfl

theorem owns_eq (p : Product) : p.builtin.owns mm = dim mm 0 * dim mm 1 := by cases p <;> rfl

theorem width_eq (p : Product) : Builtins.width p.builtin wg = 16 * wg.x.toNat := by
  rw [Builtins.width, p.block_eq]

theorem height_eq (p : Product) : Builtins.height p.builtin wg = 16 * wg.y.toNat := by
  rw [Builtins.height, p.block_eq]

/-- No index wraps. -/
theorem Sizes.sameIndexes (h : Sizes mm wg) (hid : id ∈ grid p.builtin wg) :
    SameIndexes mm id (p.bIndex .u32 mm) (p.bIndex .exact mm) where
  row := by
    have hlt := row_lt hid
    rw [p.height_eq] at hlt
    rw [row_u32, Nat.mod_eq_of_lt (Nat.lt_of_lt_of_le hlt h.height)]
  col := by
    have hlt := col_lt hid
    rw [p.width_eq] at hlt
    exact .inl (by rw [col_u32, Nat.mod_eq_of_lt (Nat.lt_of_lt_of_le hlt h.width)])
  indexA kk hkk hr := Nat.lt_of_lt_of_le (row_col_lt hr hkk) h.factorA
  indexB kk hkk hc := by
    have hB : kk * dim mm 1 + Gpu.col .exact id < 2 ^ 32 :=
      Nat.lt_of_lt_of_le (row_col_lt hkk hc) h.factorB
    have hB' : Gpu.col .exact id * dim mm 2 + kk < 2 ^ 32 :=
      Nat.lt_of_lt_of_le (row_col_lt hc hkk) (Nat.mul_comm _ _ ▸ h.factorB)
    cases p with
    | matmul | matmulAdd => exact u32_index_eq hB
    | matmulTrp => exact u32_index_eq hB'
  indexC hr hc := Nat.lt_of_lt_of_le (row_col_lt hr hc) h.result

/-- What a thread has of `C`. -/
theorem Sizes.target (h : Sizes mm wg) (hid : id ∈ grid p.builtin wg) :
    p.builtin.target mm id =
      if Shared.HasResult .u32 mm id then some (Shared.resultAt .u32 mm id) else none := by
  have hsame := h.sameIndexes hid
  have hcol : Gpu.col .u32 id = Gpu.col .exact id := by
    have hlt := col_lt hid
    rw [p.width_eq] at hlt
    rw [col_u32, Nat.mod_eq_of_lt (Nat.lt_of_lt_of_le hlt h.width)]
  have htarget : p.builtin.target mm id =
      if Gpu.row .exact id < dim mm 0 ∧ Gpu.col .exact id < dim mm 1 then
        some (Gpu.row .exact id * dim mm 1 + Gpu.col .exact id) else none := by
    cases p <;> rfl
  have hhas : Shared.HasResult .u32 mm id ↔
      Gpu.row .exact id < dim mm 0 ∧ Gpu.col .exact id < dim mm 1 := by
    simp only [Shared.HasResult, hsame.row, hcol]
  rw [htarget]
  by_cases hin : Gpu.row .exact id < dim mm 0 ∧ Gpu.col .exact id < dim mm 1
  · rw [if_pos hin, if_pos (hhas.mpr hin), Shared.resultAt, hsame.row, hcol,
      u32_index_eq (hsame.indexC hin.1 hin.2)]
  · rw [if_neg hin, if_neg fun h => hin (hhas.mp h)]

theorem Sizes.once (h : Sizes mm wg) : Once p.builtin mm wg := by
  cases p <;> exact once_matmulAdd h.layer

theorem Sizes.oneResult (h : Sizes mm wg) : Shared.OneResult .u32 mm p.builtin wg := by
  intro i j hi hj he
  have hti := h.target i.2
  have htj := h.target j.2
  rw [if_pos hi] at hti
  rw [if_pos hj, ← he] at htj
  exact Subtype.ext (h.once _ i.1 i.2 j.1 j.2 hti htj)

/-- Every element has a thread. -/
theorem Sizes.covers (h : Sizes mm wg) : Covers p.builtin mm wg := by
  intro i hi
  rw [p.owns_eq] at hi
  have hcols : 0 < dim mm 1 := Nat.pos_of_mul_pos_left (Nat.zero_lt_of_lt hi)
  have hr : i / dim mm 1 < dim mm 0 := Nat.div_lt_of_lt_mul (Nat.mul_comm _ _ ▸ hi)
  have hc : i % dim mm 1 < dim mm 1 := Nat.mod_lt _ hcols
  have hrows := h.rows
  have hcols' := h.cols
  refine ⟨threadAt p.builtin wg (i / dim mm 1) (i % dim mm 1) 0, threadAt_mem ?_ ?_ ?_, ?_⟩
  · rw [p.height_eq]
    omega
  · rw [p.width_eq]
    omega
  · rw [h.layer]
    exact Nat.one_pos
  · have htarget : ∀ id : Ids, p.builtin.target mm id =
        if Gpu.row .exact id < dim mm 0 ∧ Gpu.col .exact id < dim mm 1 then
          some (Gpu.row .exact id * dim mm 1 + Gpu.col .exact id) else none := by
      cases p <;> exact fun _ => rfl
    rw [htarget, row_threadAt, col_threadAt, if_pos ⟨hr, hc⟩, Nat.div_add_mod']

/-- A thread writes what native code does. -/
theorem Sizes.writes (hpad : Padded F) (h : Sizes mm wg) (hid : id ∈ grid p.builtin wg)
    (mem : Memory F) :
    (Gpu.matmulWith .u32 mm id (p.bIndex .u32 mm) p.accumulates mem).1 =
      (p.builtin.target mm id).map fun i =>
        ⟨3, i, @Builtin.value F (Arith.floats F) p.builtin mm mem i (mem 3 i)⟩ := by
  let _ := Arith.floats F
  obtain ⟨-, hd, -, hthread⟩ := mem_grid.mp hid
  obtain ⟨hx, hy, -⟩ := mem_places.mp hthread
  rw [hd, p.block_eq] at hx hy
  rw [matmulWith_congr (h.sameIndexes hid) (by rw [hd, p.block_eq]) hx hy
    (by have := h.inner; omega)]
  have hentry : (Wgsl.entry .exact mm id p.builtin mem).1 =
      (p.builtin.target mm id).map fun i =>
        ⟨p.builtin.out, i, p.builtin.value mm mem i (mem p.builtin.out i)⟩ :=
    entry_exact hpad (.inl p.isMatrix) hid
  rw [p.out_eq] at hentry
  rw [← hentry]
  cases p <;> rfl

/-- In memory are the slots as native code leaves them. -/
def LeavesNative (p : Product) (mm : List UInt32) (slots : List (Slot F)) (m : Cell → F) : Prop :=
  ∃ ends, p.native mm slots = .ok ends ∧ ∀ slot i, 0 < slot → m (.slot slot i) = elem ends slot i

/-- What native code leaves. -/
theorem native_elem (hm : p.builtin.MetaOk mm) (hs : Bound p.builtin mm wg slots) :
    ∃ ends, p.native mm slots = .ok ends ∧ ∀ slot i, 0 < slot → elem ends slot i =
      if slot = 3 ∧ i < dim mm 0 * dim mm 1 then
        @Builtin.value F (Arith.floats F) p.builtin mm (elem slots) i (elem slots 3 i)
      else elem slots slot i := by
  let _ := Arith.floats F
  have hclamp : p.builtin ≠ .clamp := by cases p <;> decide
  have hnative : p.native mm slots = p.builtin.native mm slots := by cases p <;> rfl
  refine ⟨_, hnative.trans (native_eq hclamp hm hs), fun slot i hslot => ?_⟩
  have hwritten := elem_written hs hslot i
  rwa [p.out_eq, p.owns_eq] at hwritten

/-- Only the factors' elements and the old one matter to it. -/
theorem value_slots {m₀ : Cell → F}
    (hm₀ : ∀ slot i, 0 < slot → m₀ (.slot slot i) = elem slots slot i) (i : Nat) (old : F) :
    @Builtin.value F (Arith.floats F) p.builtin mm (slotsOf m₀) i old =
      @Builtin.value F (Arith.floats F) p.builtin mm (elem slots) i old := by
  have h₁ : slotsOf m₀ 1 = elem slots 1 := funext fun j => hm₀ 1 j (by decide)
  have h₂ : slotsOf m₀ 2 = elem slots 2 := funext fun j => hm₀ 2 j (by decide)
  cases p <;> simp only [Product.builtin, Builtin.value, h₁, h₂]

/-- **The tiled products are the plain loops**, wherever sums may be padded. -/
theorem correct_of_padded (hpad : Padded F) (format : Format) (hm : p.builtin.MetaOk mm)
    (h : Sizes mm wg) (hs : Bound p.builtin mm wg slots) {m₀ : Cell → F}
    (hm₀ : ∀ slot i, 0 < slot → m₀ (.slot slot i) = elem slots slot i) :
    Correct workgroup (p.LeavesNative mm slots)
      (fun i : Launched p.builtin wg => p.shared format .u32 mm i.1) m₀ := by
  refine (Shared.correct_matmulWith p.block_eq h.oneResult m₀).mono fun m hends => ?_
  obtain ⟨hholds, hkept⟩ := hends
  obtain ⟨ends, hnative, hends⟩ := native_elem hm hs
  refine ⟨ends, hnative, fun slot i hslot => ?_⟩
  rw [hends slot i hslot]
  by_cases hin : slot = 3 ∧ i < dim mm 0 * dim mm 1
  · obtain ⟨rfl, hi⟩ := hin
    obtain ⟨j, htarget⟩ : ∃ j : Launched p.builtin wg, p.builtin.target mm j.1 = some i := by
      obtain ⟨id, hid, htarget⟩ := h.covers (p := p) i (p.owns_eq ▸ hi)
      exact ⟨⟨id, hid⟩, htarget⟩
    have hwrites := h.writes hpad j.2 (slotsOf m₀)
    rw [htarget, Option.map_some] at hwrites
    rw [if_pos ⟨rfl, hi⟩, ← hm₀ 3 i hslot, ← value_slots hm₀]
    exact hholds j _ hwrites
  · rw [if_neg hin, hkept slot i fun j hj he => hin ?_, hm₀ slot i hslot]
    cases he
    have htarget := h.target j.2
    rw [if_pos hj] at htarget
    exact ⟨rfl, p.owns_eq ▸ target_lt (by cases p <;> rfl) htarget⟩

end Product

/-- **The tiled GPU matrix products equal the plain loops** of native code, over
any commutative semiring, in any order of the threads between barriers. -/
theorem tiled_products_are_native {F : Type} [CommSemiring F] (p : Product) (format : Format)
    {mm : List UInt32} {wg : Workgroups} {slots : List (Slot F)} {m₀ : Cell → F}
    (hm : p.builtin.MetaOk mm) (h : Product.Sizes mm wg) (hs : Bound p.builtin mm wg slots)
    (hm₀ : ∀ slot i, 0 < slot → m₀ (.slot slot i) = elem slots slot i) :
    Correct workgroup (p.LeavesNative mm slots)
      (fun i : Launched p.builtin wg => p.shared format .u32 mm i.1) m₀ :=
  Product.correct_of_padded (padded_of_semiring F) format hm h hs hm₀

namespace Sample

/-- Two rows of three, and a column. -/
def factors : List (Slot Nat) := [.Read [1, 2, 3, 4, 5, 6], .Read [1, 1, 1], .Write [0, 0]]

/-- They are in memory; the tiles hold anything. -/
def loaded : Cell → Nat
  | .slot slot i => elem factors slot i
  | .own _ _ i => i

end Sample

/-- A product that one workgroup does, of which most threads are out of reach. -/
theorem small_product_is_native : Correct workgroup
      (Product.matmul.LeavesNative [2, 1, 3] Sample.factors)
      (fun i : Launched .matmul ⟨1, 1, 1⟩ => Product.matmul.shared .wgsl .u32 [2, 1, 3] i.1)
      Sample.loaded ∧
    Product.matmul.native [2, 1, 3] Sample.factors =
      .ok [.Read [1, 2, 3, 4, 5, 6], .Read [1, 1, 1], .Write [6, 15]] := by
  refine ⟨tiled_products_are_native .matmul .wgsl rfl ?_ ?_ fun _ _ _ => rfl, by decide⟩
  · constructor <;> decide
  · exact .cons ⟨rfl, by decide⟩ (.cons ⟨rfl, by decide⟩ (.cons ⟨rfl, by decide⟩ .nil))

end Wilupgu.Builtins
