import Wilupgu.Builtins.Ends

/-! # 32-bit indices

`minLens` multiplies in 64 bits, the kernels of the linear algebra in 32. Here
is when a kernel's indices and its count of tiles are the exact ones for every
thread of a grid; then its result is native code's. -/

namespace Wilupgu.Builtins

open Backend Simt Simt.Thread Gpu

/-! ## How far the indices of rows of elements go -/

/-- One past the last index of `rows` rows of `cols` elements, `stride` apart. -/
def extent (rows cols stride : Nat) : Nat :=
  if rows = 0 ∨ cols = 0 then 0 else (rows - 1) * stride + cols

theorem extent_le {rows cols stride limit : Nat} :
    extent rows cols stride ≤ limit ↔ ∀ i < rows, ∀ j < cols, i * stride + j < limit := by
  unfold extent
  split
  · rename_i h0
    refine ⟨fun _ i hi j hj => ?_, fun _ => Nat.zero_le _⟩
    omega
  · rename_i h0
    constructor
    · intro h i hi j hj
      have hle : i * stride ≤ (rows - 1) * stride := Nat.mul_le_mul_right _ (by omega)
      omega
    · intro h
      have hlast := h (rows - 1) (by omega) (cols - 1) (by omega)
      omega

variable {b : Builtin} {m : List UInt32} {wg : Workgroups} {id : Ids}

/-- The columns of a grid's threads. -/
def width (b : Builtin) (wg : Workgroups) : Nat := b.block.x * wg.x.toNat

/-- Their rows. -/
def height (b : Builtin) (wg : Workgroups) : Nat := b.block.y * wg.y.toNat

/-- **When 32 bits are enough**: for the rounded-up count of tiles, for the
elements of each slot that the grid's threads reach, and for their columns
unless no column has an element. -/
def Fits32 (b : Builtin) (m : List UInt32) (wg : Workgroups) : Prop :=
  let (M, N, K) := (dim m 0, dim m 1, dim m 2)
  let (rows, cols) := (min M (height b wg), min N (width b wg))
  match b with
  | .matmul | .matmulAdd =>
    K + 15 < 2 ^ 32 ∧ extent rows K K ≤ 2 ^ 32 ∧ extent K cols N ≤ 2 ^ 32 ∧
      extent rows cols N ≤ 2 ^ 32 ∧ (width b wg ≤ 2 ^ 32 ∨ N = 0 ∨ M = 0 ∧ K = 0)
  | .matmulTrp =>
    K + 15 < 2 ^ 32 ∧ extent rows K K ≤ 2 ^ 32 ∧ extent cols K K ≤ 2 ^ 32 ∧
      extent rows cols N ≤ 2 ^ 32 ∧ (width b wg ≤ 2 ^ 32 ∨ N = 0 ∨ M = 0 ∧ K = 0)
  | .gemv | .gemvAdd => extent K cols N ≤ 2 ^ 32 ∧ (width b wg ≤ 2 ^ 32 ∨ N = 0)
  | .transpose =>
    extent rows cols N ≤ 2 ^ 32 ∧ extent cols rows M ≤ 2 ^ 32 ∧
      (width b wg ≤ 2 ^ 32 ∨ M = 0 ∨ N = 0)
  | _ => True

/-! ## The thread of a row and a column -/

def threadAt (b : Builtin) (wg : Workgroups) (r c z : Nat) : Ids :=
  ⟨⟨c / b.block.x, r / b.block.y, z⟩, ⟨c % b.block.x, r % b.block.y, 0⟩, .ofWords wg.x wg.y wg.z,
    b.block⟩

theorem block_pos (b : Builtin) : 0 < b.block.x ∧ 0 < b.block.y ∧ b.block.z = 1 := by
  cases b <;> decide

theorem row_threadAt (b : Builtin) (wg : Workgroups) (r c z : Nat) :
    row .exact (threadAt b wg r c z) = r := Nat.div_add_mod' r b.block.y

theorem col_threadAt (b : Builtin) (wg : Workgroups) (r c z : Nat) :
    col .exact (threadAt b wg r c z) = c := Nat.div_add_mod' c b.block.x

theorem threadAt_mem {r c z : Nat} (hr : r < height b wg) (hc : c < width b wg)
    (hz : z < wg.z.toNat) : threadAt b wg r c z ∈ grid b wg := by
  obtain ⟨hx, hy, hbz⟩ := block_pos b
  refine mem_grid.mpr ⟨rfl, rfl, mem_places.mpr ⟨Nat.div_lt_of_lt_mul hc, Nat.div_lt_of_lt_mul hr,
    hz⟩, mem_places.mpr ⟨Nat.mod_lt _ hx, Nat.mod_lt _ hy, ?_⟩⟩
  exact hbz ▸ Nat.one_pos

theorem col_lt (hid : id ∈ grid b wg) : col .exact id < width b wg := by
  obtain ⟨hg, hd, hblock, hthread⟩ := mem_grid.mp hid
  have hlt := row_col_lt (mem_places.mp hblock).1 (mem_places.mp hthread).1
  rw [hg, hd] at hlt
  rw [col, hd, width, Nat.mul_comm]
  exact hlt

theorem row_lt (hid : id ∈ grid b wg) : row .exact id < height b wg := by
  obtain ⟨hg, hd, hblock, hthread⟩ := mem_grid.mp hid
  have hlt := row_col_lt (mem_places.mp hblock).2.1 (mem_places.mp hthread).2.1
  rw [hg, hd] at hlt
  rw [row, hd, height, Nat.mul_comm]
  exact hlt

/-- Rows never wrap on a grid that is accepted. -/
theorem row_u32_eq {format : Format} (h : b.Accepts format.validate m wg) (hid : id ∈ grid b wg) :
    row .u32 id = row .exact id := by
  obtain ⟨-, hy, -⟩ := Format.validate_bounds h.valid
  have hblock : b.block.y ≤ 16 := by cases b <;> decide
  have hlt : height b wg < 16 * 2 ^ 16 := Nat.mul_lt_mul_of_le_of_lt hblock hy (by decide)
  rw [row_u32, Nat.mod_eq_of_lt ((row_lt hid).trans (hlt.trans (by decide)))]

theorem col_u32_eq (h : width b wg ≤ 2 ^ 32) (hid : id ∈ grid b wg) :
    col .u32 id = col .exact id := by
  rw [col_u32, Nat.mod_eq_of_lt (Nat.lt_of_lt_of_le (col_lt hid) h)]

/-- An index that fits doesn't wrap. -/
theorem u32_index_eq {a s c : Nat} (h : a * s + c < 2 ^ 32) :
    Ints.u32.add (Ints.u32.mul a s) c = a * s + c := by
  rw [u32_index, Nat.mod_eq_of_lt h]

/-! ## The same thread, counting in 32 bits and exactly -/

section Congr

variable {F : Type} [Arith F]

theorem tileA_congr {t : Nat} (hrow : row .u32 id = row .exact id)
    (ht : t * 16 + id.threadIdx.x < 2 ^ 32)
    (hA : row .exact id < dim m 0 → t * 16 + id.threadIdx.x < dim m 2 →
      row .exact id * dim m 2 + (t * 16 + id.threadIdx.x) < 2 ^ 32) :
    tileA (F := F) .u32 m id t = tileA .exact m id t := by
  have hplace : Ints.exact.add (Ints.exact.mul t 16) id.threadIdx.x = t * 16 + id.threadIdx.x := rfl
  simp only [tileA, hrow, u32_index_eq ht, hplace]
  split
  · rename_i h
    rw [u32_index_eq (hA h.1 h.2)]
    rfl
  · rfl

theorem tileB_congr {t : Nat} {bIndex bIndex' : Nat → Nat → Nat}
    (hcol : col .u32 id = col .exact id ∨ dim m 1 = 0 ∨ dim m 2 = 0)
    (ht : t * 16 + id.threadIdx.y < 2 ^ 32)
    (hB : ∀ kk < dim m 2, col .exact id < dim m 1 →
      bIndex kk (col .exact id) = bIndex' kk (col .exact id)) :
    tileB (F := F) .u32 m id bIndex t = tileB .exact m id bIndex' t := by
  have hplace : Ints.exact.add (Ints.exact.mul t 16) id.threadIdx.y = t * 16 + id.threadIdx.y := rfl
  simp only [tileB, u32_index_eq ht, hplace]
  rcases hcol with hcol | h0 | h0
  · rw [hcol]
    split
    · rename_i h
      rw [hB _ h.1 h.2]
    · rfl
  · rw [if_neg fun h => by omega, if_neg fun h => by omega]
  · rw [if_neg fun h => by omega, if_neg fun h => by omega]

/-- What makes the rows, columns and indices of a thread the exact ones. -/
structure SameIndexes (m : List UInt32) (id : Ids) (bIndex bIndex' : Nat → Nat → Nat) : Prop where
  row : row .u32 id = row .exact id
  col : col .u32 id = col .exact id ∨ dim m 1 = 0 ∨ dim m 0 = 0 ∧ dim m 2 = 0
  indexA : ∀ kk < dim m 2, Gpu.row .exact id < dim m 0 →
    Gpu.row .exact id * dim m 2 + kk < 2 ^ 32
  indexB : ∀ kk < dim m 2, Gpu.col .exact id < dim m 1 →
    bIndex kk (Gpu.col .exact id) = bIndex' kk (Gpu.col .exact id)
  indexC : Gpu.row .exact id < dim m 0 → Gpu.col .exact id < dim m 1 →
    Gpu.row .exact id * dim m 1 + Gpu.col .exact id < 2 ^ 32

theorem round_congr {bIndex bIndex' : Nat → Nat → Nat} (h : SameIndexes m id bIndex bIndex')
    (hd : id.blockDim.x = 16) (hx : id.threadIdx.x < 16) (hy : id.threadIdx.y < 16) {t : Nat}
    (hK : dim m 2 + 15 < 2 ^ 32) (ht : t < (dim m 2 + 15) / 16) (sum : F) :
    Gpu.round .u32 m id bIndex sum t = Gpu.round .exact m id bIndex' sum t := by
  have hcol : Gpu.col .u32 id = Gpu.col .exact id ∨ dim m 1 = 0 ∨ dim m 2 = 0 := by
    rcases h.col with hc | hc | hc
    · exact .inl hc
    · exact .inr (.inl hc)
    · exact .inr (.inr hc.2)
  have hA : tileA (F := F) .u32 m id t = tileA .exact m id t :=
    tileA_congr h.row (by omega) fun hr hk => h.indexA _ hk hr
  have hB : tileB (F := F) .u32 m id bIndex t = tileB .exact m id bIndex' t :=
    tileB_congr hcol (by omega) h.indexB
  -- the tiles' places that this thread reads are stored by threads of its row and of its column
  have hlaneA : ∀ k < 16, tileA (F := F) .u32 m (id.lane (id.threadIdx.y * 16 + k)) t =
      tileA .exact m (id.lane (id.threadIdx.y * 16 + k)) t := by
    intro k hk
    obtain ⟨hr, hx'⟩ := lane_row .u32 hd hk
    obtain ⟨hr', -⟩ := lane_row .exact hd hk
    refine tileA_congr (by rw [hr, hr', h.row]) (by rw [hx']; omega) fun hrow hkk => ?_
    rw [hr'] at hrow ⊢
    exact h.indexA _ hkk hrow
  have hlaneB : ∀ k < 16, tileB (F := F) .u32 m (id.lane (k * 16 + id.threadIdx.x)) bIndex t =
      tileB .exact m (id.lane (k * 16 + id.threadIdx.x)) bIndex' t := by
    intro k hk
    obtain ⟨hc, hy'⟩ := lane_col .u32 k hd hx
    obtain ⟨hc', -⟩ := lane_col .exact k hd hx
    refine tileB_congr (by rw [hc, hc']; exact hcol) (by rw [hy']; omega) ?_
    rw [hc']
    exact h.indexB
  ext mem
  · simp only [Gpu.round, bind_val, peers_run, loop_pure, pure_run]
    refine List.foldl_ext _ _ _ fun sum k hk => ?_
    rw [List.mem_range] at hk
    rw [hlaneA k hk, hlaneB k hk]
  · simp only [Gpu.round, bind_log, peers_run, loop_pure, pure_run, hA, hB]

theorem matmulWith_congr {bIndex bIndex' : Nat → Nat → Nat} (h : SameIndexes m id bIndex bIndex')
    (hd : id.blockDim.x = 16) (hx : id.threadIdx.x < 16) (hy : id.threadIdx.y < 16)
    (hK : dim m 2 + 15 < 2 ^ 32) (accumulate : Bool) :
    matmulWith (F := F) .u32 m id bIndex accumulate =
      matmulWith .exact m id bIndex' accumulate := by
  have hloop : loop ((dim m 2 + 15) / 16) (Arith.zero : F) (Gpu.round .u32 m id bIndex) =
      loop ((dim m 2 + 15) / 16) Arith.zero (Gpu.round .exact m id bIndex') :=
    loop_congr fun t ht sum => round_congr h hd hx hy hK ht sum
  have hput : ∀ sum : F,
      (if row .u32 id < dim m 0 ∧ col .u32 id < dim m 1 then
        put accumulate (Ints.u32.add (Ints.u32.mul (row .u32 id) (dim m 1)) (col .u32 id)) sum
      else pure none) =
      if row .exact id < dim m 0 ∧ col .exact id < dim m 1 then
        put accumulate (Ints.exact.add (Ints.exact.mul (row .exact id) (dim m 1)) (col .exact id)) sum
      else pure none := by
    intro sum
    rw [h.row]
    rcases h.col with hc | h0 | h0
    · rw [hc]
      split
      · rename_i hin
        rw [u32_index_eq (h.indexC hin.1 hin.2)]
        rfl
      · rfl
    · rw [if_neg fun hin => by omega, if_neg fun hin => by omega]
    · rw [if_neg fun hin => by omega, if_neg fun hin => by omega]
  simp only [matmulWith, hloop, hput, (tiled_u32 hK).count, (tiled_exact m).count]

theorem gemvWith_congr (hcol : col .u32 id = col .exact id ∨ dim m 1 = 0)
    (hB : ∀ k < dim m 2, col .exact id < dim m 1 → k * dim m 1 + col .exact id < 2 ^ 32)
    (accumulate : Bool) :
    gemvWith (F := F) .u32 m id accumulate = gemvWith .exact m id accumulate := by
  rcases hcol with hcol | h0
  · simp only [gemvWith, hcol]
    split
    · rfl
    · rename_i hlt
      have hloop : (loop (dim m 2) (Arith.zero : F) fun sum k => do
            return Arith.add sum (Arith.mul (← load 1 k) (← load 2 (rowMajor .u32 m k (col .exact id))))) =
          loop (dim m 2) (Arith.zero : F) fun sum k => do
            return Arith.add sum
              (Arith.mul (← load 1 k) (← load 2 (rowMajor .exact m k (col .exact id)))) := by
        refine loop_congr fun k hk sum => ?_
        rw [rowMajor, u32_index_eq (hB k hk (by omega))]
        rfl
      rw [hloop]
  · simp only [gemvWith, h0, Nat.zero_le, if_true]

omit [Arith F] in
theorem transpose_congr (hrow : row .u32 id = row .exact id)
    (hcol : col .u32 id = col .exact id ∨ dim m 0 = 0 ∨ dim m 1 = 0)
    (hin : row .exact id < dim m 0 → col .exact id < dim m 1 →
      row .exact id * dim m 1 + col .exact id < 2 ^ 32 ∧
        col .exact id * dim m 0 + row .exact id < 2 ^ 32) :
    transpose (F := F) .u32 m id = transpose .exact m id := by
  rcases hcol with hcol | h0 | h0
  · simp only [transpose, hrow, hcol]
    split
    · rfl
    · obtain ⟨hsrc, hdst⟩ := hin (by omega) (by omega)
      rw [u32_index_eq hsrc, u32_index_eq hdst]
      rfl
  · simp only [transpose, h0, Nat.zero_le, true_or, if_true]
  · simp only [transpose, h0, Nat.zero_le, or_true, if_true]

end Congr

section Fits

variable {F : Type} [Floats F] {format : Format}

/-- **Where 32 bits are enough a thread does what it would do counting exactly.** -/
theorem entry_congr (h : b.Accepts format.validate m wg) (hfits : Fits32 b m wg)
    (hb : b.isMatrix = true) (hid : id ∈ grid b wg) :
    Wgsl.entry (F := F) .u32 m id b = Wgsl.entry .exact m id b := by
  have hrow := row_u32_eq h hid
  have hcol : width b wg ≤ 2 ^ 32 → col .u32 id = col .exact id := fun hw => col_u32_eq hw hid
  have hr : row .exact id < dim m 0 → row .exact id < min (dim m 0) (height b wg) :=
    fun hr => lt_min hr (row_lt hid)
  have hc : col .exact id < dim m 1 → col .exact id < min (dim m 1) (width b wg) :=
    fun hc => lt_min hc (col_lt hid)
  obtain ⟨-, hd, -, hthread⟩ := mem_grid.mp hid
  obtain ⟨hx, hy, -⟩ := mem_places.mp hthread
  rw [hd] at hx hy
  cases b with
  | matmul | matmulAdd =>
    obtain ⟨hK, hA, hB, hC, hw⟩ := hfits
    refine matmulWith_congr ⟨hrow, hw.imp_left hcol, fun kk hk hlt => ?_, fun kk hk hlt => ?_,
      fun hlt hlt' => ?_⟩ (by rw [hd]; rfl) hx hy hK _
    · exact extent_le.mp hA _ (hr hlt) _ hk
    · exact u32_index_eq (extent_le.mp hB _ hk _ (hc hlt))
    · exact extent_le.mp hC _ (hr hlt) _ (hc hlt')
  | matmulTrp =>
    obtain ⟨hK, hA, hB, hC, hw⟩ := hfits
    refine matmulWith_congr ⟨hrow, hw.imp_left hcol, fun kk hk hlt => ?_, fun kk hk hlt => ?_,
      fun hlt hlt' => ?_⟩ (by rw [hd]; rfl) hx hy hK _
    · exact extent_le.mp hA _ (hr hlt) _ hk
    · exact u32_index_eq (extent_le.mp hB _ (hc hlt) _ hk)
    · exact extent_le.mp hC _ (hr hlt) _ (hc hlt')
  | gemv | gemvAdd =>
    obtain ⟨hB, hw⟩ := hfits
    exact gemvWith_congr (hw.imp_left hcol)
      (fun k hk hlt => extent_le.mp hB _ hk _ (hc hlt)) _
  | transpose =>
    obtain ⟨hsrc, hdst, hw⟩ := hfits
    exact transpose_congr hrow (hw.imp_left hcol) fun hlt hlt' =>
      ⟨extent_le.mp hsrc _ (hr hlt) _ (hc hlt'), extent_le.mp hdst _ (hc hlt') _ (hr hlt)⟩
  | _ => cases hb

end Fits

/-! ## Where they aren't enough -/

/-- An index below a bound. -/
def BelowLimit : Touch → Prop
  | .load _ i | .store _ i => i < 2 ^ 32
  | .rounds _ => True

theorem u32_add_lt (a b : Nat) : Ints.u32.add a b < 2 ^ 32 := Nat.mod_lt _ (by decide)

theorem rowMajor_below (k c : Nat) : rowMajor .u32 m k c < 2 ^ 32 := by
  rw [rowMajor]
  exact u32_add_lt _ _

theorem colMajor_below (k c : Nat) : colMajor .u32 m k c < 2 ^ 32 := by
  rw [colMajor]
  exact u32_add_lt _ _

section Below

variable {F : Type} [Floats F] {mem : Memory F} {e : Touch}

theorem matmul_below {bIndex : Nat → Nat → Nat} {accumulate : Bool}
    (hb : ∀ k c, bIndex k c < 2 ^ 32)
    (he : e ∈ (matmulWith (F := F) .u32 m id bIndex accumulate mem).2) : BelowLimit e := by
  rcases mem_matmulWith.mp he with rfl | ⟨t, -, he⟩ | ⟨t, -, he⟩ | ⟨-, ⟨-, rfl⟩ | rfl⟩
  · trivial
  · obtain ⟨-, rfl⟩ := mem_tileA.mp he
    exact u32_add_lt _ _
  · obtain ⟨-, rfl⟩ := mem_tileB.mp he
    exact hb _ _
  · exact u32_add_lt _ _
  · exact u32_add_lt _ _

theorem gemv_below {accumulate : Bool} (he : e ∈ (gemvWith (F := F) .u32 m id accumulate mem).2) :
    BelowLimit e := by
  obtain ⟨-, ⟨k, hk, rfl | rfl⟩ | ⟨-, rfl⟩ | rfl⟩ := mem_gemvWith.mp he
  · exact hk.trans (dim_lt m 2)
  · exact rowMajor_below _ _
  · exact u32_add_lt _ _
  · exact u32_add_lt _ _

omit [Floats F] in
theorem transpose_below (he : e ∈ (transpose (F := F) .u32 m id mem).2) : BelowLimit e := by
  obtain ⟨-, rfl | rfl⟩ := mem_transpose.mp he
  · exact u32_add_lt _ _
  · exact u32_add_lt _ _

end Below

/-- Every index and every count of tiles that a thread of a launch computes in
32 bits is the exact one. -/
def IndexesExact (F : Type) [Floats F] (b : Builtin) (m : List UInt32) (wg : Workgroups) : Prop :=
  ∀ id ∈ grid b wg, ∀ mem : Memory F,
    (Cuda.entry .u32 m id b mem).2 = (Cuda.entry .exact m id b mem).2

theorem cuda_entry {F : Type} [Floats F] (hb : b.isMatrix = true) (ar : Ints) :
    Cuda.entry (F := F) ar m id b = Wgsl.entry ar m id b := by
  cases b with
  | sum | dot => cases hb
  | _ => rfl

section Exact

variable {F : Type} [Floats F]

/-- A column that wraps comes back as column 0. -/
theorem col_u32_wrapped (b : Builtin) (wg : Workgroups) (r z : Nat) :
    col .u32 (threadAt b wg r (2 ^ 32) z) = 0 := by
  rw [col_u32, col_threadAt, Nat.mod_self]

section Matmul

variable {bIndex bAt : Nat → Nat → Nat} {accumulate : Bool}

/-- The logs of a matrix product's threads are those of counting exactly. -/
def SameLogs (F : Type) [Floats F] (b : Builtin) (m : List UInt32) (wg : Workgroups)
    (bIndex bAt : Nat → Nat → Nat) (accumulate : Bool) : Prop :=
  ∀ id ∈ grid b wg, ∀ mem : Memory F,
    (matmulWith .u32 m id bIndex accumulate mem).2 = (matmulWith .exact m id bAt accumulate mem).2

/-- The count of tiles is in every log. -/
theorem SameLogs.count (h : SameLogs F b m wg bIndex bAt accumulate) (hid : id ∈ grid b wg) :
    dim m 2 + 15 < 2 ^ 32 := by
  have he : .rounds (numTiles .exact m) ∈
      (matmulWith .exact m id bAt accumulate fun _ _ => (Arith.zero : F)).2 :=
    mem_matmulWith.mpr (.inl rfl)
  rw [← h id hid, mem_matmulWith] at he
  simp only [mem_tileA, mem_tileB, Touch.rounds.injEq, reduceCtorEq, and_false, exists_false,
    or_false] at he
  rw [(tiled_exact m).count, numTiles_u32] at he
  have hlt := dim_lt m 2
  omega

/-- A thread whose column wraps does what the one of column 0 does. -/
theorem SameLogs.column (h : SameLogs F b m wg bIndex bAt accumulate) (hh : 0 < height b wg)
    (hz : 0 < wg.z.toNat) :
    width b wg ≤ 2 ^ 32 ∨ dim m 1 = 0 ∨ dim m 0 = 0 ∧ dim m 2 = 0 := by
  refine Classical.byContradiction fun hno => ?_
  obtain ⟨hwide, hN, hMK⟩ : 2 ^ 32 < width b wg ∧ 0 < dim m 1 ∧ (0 < dim m 0 ∨ 0 < dim m 2) := by
    omega
  have hid : threadAt b wg 0 (2 ^ 32) 0 ∈ grid b wg := threadAt_mem hh hwide hz
  have hK := h.count hid
  have hcol := col_u32_wrapped b wg 0 0
  have hrow : row .u32 (threadAt b wg 0 (2 ^ 32) 0) = 0 := by
    rw [row_u32, row_threadAt, Nat.zero_mod]
  have hexact : ¬ col .exact (threadAt b wg 0 (2 ^ 32) 0) < dim m 1 := by
    rw [col_threadAt]
    exact Nat.not_lt.mpr (Nat.le_of_lt (dim_lt m 1))
  let mem : Memory F := fun _ _ => Arith.zero
  -- exactly counted, it is past the last column: it loads nothing of `B` and writes nothing
  have hquiet : ∀ e, (∀ i, e ≠ .load 1 i) → (∀ n, e ≠ .rounds n) →
      e ∉ (matmulWith .u32 m (threadAt b wg 0 (2 ^ 32) 0) bIndex accumulate mem).2 := by
    intro e hload hrounds he
    rw [h _ hid mem] at he
    rcases mem_matmulWith.mp he with he | ⟨t, -, he⟩ | ⟨t, -, he⟩ | ⟨⟨-, he⟩, -⟩
    · exact hrounds _ he
    · exact hload _ (mem_tileA.mp he).2
    · exact hexact (mem_tileB.mp he).1.2
    · exact hexact he
  rcases hMK with hM | hK'
  · refine hquiet (.store 3 (Ints.u32.add (Ints.u32.mul 0 (dim m 1)) 0)) (by simp) (by simp)
      (mem_matmulWith.mpr (.inr (.inr (.inr ⟨⟨?_, ?_⟩, .inr ?_⟩))))
    · rwa [hrow]
    · rwa [hcol]
    · rw [hrow, hcol]
  · have hplace : Ints.u32.add (Ints.u32.mul 0 16) (threadAt b wg 0 (2 ^ 32) 0).threadIdx.y = 0 := by
      simp [threadAt, Ints.u32]
    refine hquiet (.load 2 (bIndex 0 0)) (by simp) (by simp) (mem_matmulWith.mpr
      (.inr (.inr (.inl ⟨0, ?_, mem_tileB.mpr ⟨⟨?_, ?_⟩, ?_⟩⟩))))
    · rw [(tiled_u32 hK).count]
      omega
    · rwa [hplace]
    · rwa [hcol]
    · rw [hplace, hcol]

/-- `bAt` is the exact index in `B`. -/
theorem SameLogs.fits (h : SameLogs F b m wg bIndex bAt accumulate)
    (hb : b.Accepts Format.cuda.validate m wg) (hblock : b.block = ⟨16, 16, 1⟩)
    (hbelow : ∀ k c, bIndex k c < 2 ^ 32) :
    (∀ i < min (dim m 0) (height b wg), ∀ j < dim m 2, i * dim m 2 + j < 2 ^ 32) ∧
      (∀ i < dim m 2, ∀ j < min (dim m 1) (width b wg), bAt i j < 2 ^ 32) ∧
      ∀ i < min (dim m 0) (height b wg), ∀ j < min (dim m 1) (width b wg),
        i * dim m 1 + j < 2 ^ 32 := by
  obtain ⟨hx, hy, hz⟩ := hb.pos
  have hw : 16 ≤ width b wg := by
    rw [width, hblock]
    exact Nat.le_mul_of_pos_right _ hx
  have hh : 16 ≤ height b wg := by
    rw [height, hblock]
    exact Nat.le_mul_of_pos_right _ hy
  have below : ∀ {r c : Nat} {e : Touch}, r < height b wg → c < width b wg →
      e ∈ (matmulWith .exact m (threadAt b wg r c 0) bAt accumulate
        fun _ _ => (Arith.zero : F)).2 → BelowLimit e := by
    intro r c e hr hc he
    rw [← h _ (threadAt_mem hr hc hz)] at he
    exact matmul_below hbelow he
  refine ⟨fun i hi j hj => ?_, fun i hi j hj => ?_, fun i hi j hj => ?_⟩
  · obtain ⟨hi, hi'⟩ := lt_min_iff.mp hi
    have hplace : Ints.exact.add (Ints.exact.mul (j / 16) 16)
        (threadAt b wg i (j % 16) 0).threadIdx.x = j := by
      simp [threadAt, hblock, Ints.exact, Nat.div_add_mod']
    have he := below hi' (c := j % 16) (by omega) (mem_matmulWith.mpr
      (.inr (.inl ⟨j / 16, by rw [(tiled_exact m).count]; omega, mem_tileA.mpr ⟨⟨?_, ?_⟩, rfl⟩⟩)))
    · rwa [hplace, row_threadAt] at he
    · rwa [row_threadAt]
    · rwa [hplace]
  · obtain ⟨hj, hj'⟩ := lt_min_iff.mp hj
    have hplace : Ints.exact.add (Ints.exact.mul (i / 16) 16)
        (threadAt b wg (i % 16) j 0).threadIdx.y = i := by
      simp [threadAt, hblock, Ints.exact, Nat.div_add_mod']
    have he := below (r := i % 16) (by omega) hj' (mem_matmulWith.mpr
      (.inr (.inr (.inl ⟨i / 16, by rw [(tiled_exact m).count]; omega,
        mem_tileB.mpr ⟨⟨?_, ?_⟩, rfl⟩⟩))))
    · rwa [hplace, col_threadAt] at he
    · rwa [hplace]
    · rwa [col_threadAt]
  · obtain ⟨hi, hi'⟩ := lt_min_iff.mp hi
    obtain ⟨hj, hj'⟩ := lt_min_iff.mp hj
    have he := below hi' hj' (mem_matmulWith.mpr (.inr (.inr (.inr ⟨⟨?_, ?_⟩, .inr rfl⟩))))
    · rwa [row_threadAt, col_threadAt] at he
    · rwa [row_threadAt]
    · rwa [col_threadAt]

end Matmul

/-- The row products. -/
theorem gemv_fits {accumulate : Bool}
    (h : ∀ id ∈ grid b wg, ∀ mem : Memory F,
      (gemvWith .u32 m id accumulate mem).2 = (gemvWith .exact m id accumulate mem).2)
    (hh : 0 < height b wg) (hz : 0 < wg.z.toNat) :
    extent (dim m 2) (min (dim m 1) (width b wg)) (dim m 1) ≤ 2 ^ 32 ∧
      (width b wg ≤ 2 ^ 32 ∨ dim m 1 = 0) := by
  let mem : Memory F := fun _ _ => Arith.zero
  refine ⟨extent_le.mpr fun i hi j hj => ?_, ?_⟩
  · obtain ⟨hj, hj'⟩ := lt_min_iff.mp hj
    have he : .load 2 (rowMajor .exact m i (col .exact (threadAt b wg 0 j 0))) ∈
        (gemvWith .exact m (threadAt b wg 0 j 0) accumulate mem).2 :=
      mem_gemvWith.mpr ⟨by rwa [col_threadAt], .inl ⟨i, hi, .inr rfl⟩⟩
    rw [← h _ (threadAt_mem hh hj' hz)] at he
    have hlt := gemv_below he
    rwa [col_threadAt] at hlt
  · refine Classical.byContradiction fun hno => ?_
    obtain ⟨hwide, hN⟩ : 2 ^ 32 < width b wg ∧ 0 < dim m 1 := by omega
    have he : .store 3 (col .u32 (threadAt b wg 0 (2 ^ 32) 0)) ∈
        (gemvWith .u32 m (threadAt b wg 0 (2 ^ 32) 0) accumulate mem).2 :=
      mem_gemvWith.mpr ⟨by rwa [col_u32_wrapped], .inr (.inr rfl)⟩
    rw [h _ (threadAt_mem hh hwide hz), mem_gemvWith, col_threadAt] at he
    exact Nat.not_lt.mpr (Nat.le_of_lt (dim_lt m 1)) he.1

theorem transpose_fits
    (h : ∀ id ∈ grid b wg, ∀ mem : Memory F,
      (transpose .u32 m id mem).2 = (transpose .exact m id mem).2)
    (hh : 0 < height b wg) (hz : 0 < wg.z.toNat) :
    (∀ i < min (dim m 0) (height b wg), ∀ j < min (dim m 1) (width b wg),
      i * dim m 1 + j < 2 ^ 32 ∧ j * dim m 0 + i < 2 ^ 32) ∧
      (width b wg ≤ 2 ^ 32 ∨ dim m 0 = 0 ∨ dim m 1 = 0) := by
  let mem : Memory F := fun _ _ => Arith.zero
  refine ⟨fun i hi j hj => ?_, ?_⟩
  · obtain ⟨hi, hi'⟩ := lt_min_iff.mp hi
    obtain ⟨hj, hj'⟩ := lt_min_iff.mp hj
    have hin : row .exact (threadAt b wg i j 0) < dim m 0 ∧
        col .exact (threadAt b wg i j 0) < dim m 1 := by
      rw [row_threadAt, col_threadAt]
      exact ⟨hi, hj⟩
    have below : ∀ e ∈ (transpose .exact m (threadAt b wg i j 0) mem).2, BelowLimit e := by
      intro e he
      rw [← h _ (threadAt_mem hi' hj' hz)] at he
      exact transpose_below he
    have hsrc := below _ (mem_transpose.mpr ⟨hin, .inl rfl⟩)
    have hdst := below _ (mem_transpose.mpr ⟨hin, .inr rfl⟩)
    rw [row_threadAt, col_threadAt] at hsrc hdst
    exact ⟨hsrc, hdst⟩
  · refine Classical.byContradiction fun hno => ?_
    obtain ⟨hwide, hM, hN⟩ : 2 ^ 32 < width b wg ∧ 0 < dim m 0 ∧ 0 < dim m 1 := by omega
    have hrow : row .u32 (threadAt b wg 0 (2 ^ 32) 0) = 0 := by
      rw [row_u32, row_threadAt, Nat.zero_mod]
    have he : .store 2 (Ints.u32.add (Ints.u32.mul (col .u32 (threadAt b wg 0 (2 ^ 32) 0))
        (dim m 0)) (row .u32 (threadAt b wg 0 (2 ^ 32) 0))) ∈
        (transpose .u32 m (threadAt b wg 0 (2 ^ 32) 0) mem).2 := by
      refine mem_transpose.mpr ⟨⟨?_, ?_⟩, .inr rfl⟩
      · rwa [hrow]
      · rwa [col_u32_wrapped]
    rw [h _ (threadAt_mem hh hwide hz), mem_transpose, col_threadAt] at he
    exact Nat.not_lt.mpr (Nat.le_of_lt (dim_lt m 1)) he.1.2

/-- **Where all indices are exact, 32 bits are enough.** -/
theorem IndexesExact.fits (h : IndexesExact F b m wg) (hb : b.isMatrix = true)
    (hacc : b.Accepts Format.cuda.validate m wg) : Fits32 b m wg := by
  obtain ⟨hx, hy, hz⟩ := hacc.pos
  obtain ⟨hbx, hby, -⟩ := block_pos b
  have hw : 0 < width b wg := Nat.mul_pos hbx hx
  have hh : 0 < height b wg := Nat.mul_pos hby hy
  cases b with
  | matmul | matmulAdd =>
    have hlogs : SameLogs F _ m wg (rowMajor .u32 m) (rowMajor .exact m) _ := h
    obtain ⟨hA, hB, hC⟩ := hlogs.fits hacc rfl rowMajor_below
    exact ⟨hlogs.count (threadAt_mem hh hw hz), extent_le.mpr hA, extent_le.mpr hB,
      extent_le.mpr hC, hlogs.column hh hz⟩
  | matmulTrp =>
    have hlogs : SameLogs F _ m wg (colMajor .u32 m) (colMajor .exact m) _ := h
    obtain ⟨hA, hB, hC⟩ := hlogs.fits hacc rfl colMajor_below
    exact ⟨hlogs.count (threadAt_mem hh hw hz), extent_le.mpr hA,
      extent_le.mpr fun i hi j hj => hB j hj i hi, extent_le.mpr hC, hlogs.column hh hz⟩
  | gemv | gemvAdd => exact gemv_fits h hh hz
  | transpose =>
    obtain ⟨hin, hcol⟩ := transpose_fits h hh hz
    exact ⟨extent_le.mpr fun i hi j hj => (hin i hi j hj).1,
      extent_le.mpr fun j hj i hi => (hin i hi j hj).2, hcol⟩
  | _ => cases hb

end Exact

/-! ## When the kernels agree with `minLens` and with native code -/

/-- The result of a launch is native code's where each element that native code
writes has a thread, and only one if it's added to. -/
def MatchesNative (F : Type) [Floats F] (b : Builtin) (m : List UInt32) (wg : Workgroups) : Prop :=
  ∀ slots : List (Slot F), Bound b m wg slots → Covers b m wg →
    (b.hasOutput = false → Once b m wg) → ∀ order : List Ids, order.Perm (grid b wg) →
      LeavesNative b m slots (launch (fun id => Cuda.entry .u32 m id b) order (elem slots))

/-- **The CUDA code of the linear algebra agrees with `minLens`**, and so its
result with native code's, exactly if 32 bits are enough. -/
theorem cuda_agrees_iff {F : Type} [Floats F] (hpad : Padded F) (hb : b.isMatrix = true)
    (h : b.Accepts Format.cuda.validate m wg) :
    IndexesExact F b m wg ∧ MatchesNative F b m wg ↔ Fits32 b m wg := by
  have hentry : Fits32 b m wg → ∀ id ∈ grid b wg,
      Cuda.entry (F := F) .u32 m id b = Wgsl.entry .exact m id b := by
    intro hfits id hid
    rw [cuda_entry hb, entry_congr h hfits hb hid]
  refine ⟨fun hex => hex.1.fits hb h, fun hfits => ⟨fun id hid mem => ?_, ?_⟩⟩
  · rw [hentry hfits id hid, cuda_entry hb]
  · intro slots hs hcov hone order horder
    rw [launch_congr fun id hid => hentry hfits id (horder.mem_iff.mp hid)]
    exact launch_exact hpad (.inl hb) h.words hs hcov hone horder

/-- Exact sums may be padded. -/
theorem padded_rat : Padded ℚ := by
  intro k a b
  have hzero : ∀ x : ℚ, x + 0 * 0 = x := by simp
  exact hzero _

namespace Sample

/-- The first thread of a launch of one workgroup. -/
def first : Ids := ⟨⟨0, 0, 0⟩, ⟨0, 0, 0⟩, ⟨1, 1, 1⟩, ⟨16, 16, 1⟩⟩

/-- One row times one column, of `2 ^ 32 - 15` elements. -/
def longDot : List UInt32 := [1, 1, 4294967281]

theorem accepts_longDot : Builtin.matmul.Accepts Format.cuda.validate longDot ⟨1, 1, 1⟩ :=
  ⟨rfl, by decide, rfl⟩

/-- **The count of tiles wraps to 0**, so the product is 0. -/
theorem no_tiles_of_a_long_row :
    Builtin.matmul.Accepts Format.cuda.validate longDot ⟨1, 1, 1⟩ ∧ first ∈ grid .matmul ⟨1, 1, 1⟩ ∧
      numTiles .u32 longDot = 0 ∧ numTiles .exact longDot = 268435456 ∧
      (∀ mem : Memory ℚ, (Cuda.entry .u32 longDot first .matmul mem).1 = some ⟨3, 0, 0⟩) ∧
      ¬ IndexesExact ℚ .matmul longDot ⟨1, 1, 1⟩ := by
  have hcount : numTiles .u32 longDot = 0 := by decide
  refine ⟨accepts_longDot, ?_, hcount, by decide, fun mem => ?_, fun h => ?_⟩
  · exact mem_grid.mpr ⟨rfl, rfl, mem_places.mpr (by decide), mem_places.mpr (by decide)⟩
  · have hin : row .u32 first < dim longDot 0 ∧ col .u32 first < dim longDot 1 := by decide
    have hentry : Cuda.entry (F := ℚ) .u32 longDot first .matmul =
        matmulWith .u32 longDot first (rowMajor .u32 longDot) false := rfl
    rw [hentry, matmulWith, bind_val, bind_val, hcount, if_pos hin, put_val]
    rfl
  · obtain ⟨hK, -⟩ := h.fits rfl accepts_longDot
    exact absurd hK (by decide)

theorem accepts_gemv : Builtin.gemv.Accepts Format.cuda.validate [1, 2, 3] ⟨1, 1, 1⟩ :=
  ⟨rfl, by decide, rfl⟩

/-- A product of a row of 3 and a matrix with 2 columns. -/
theorem gemv_agrees : IndexesExact ℚ .gemv [1, 2, 3] ⟨1, 1, 1⟩ ∧
    MatchesNative ℚ .gemv [1, 2, 3] ⟨1, 1, 1⟩ :=
  (cuda_agrees_iff padded_rat rfl accepts_gemv).mpr ⟨by decide, .inl (by decide)⟩

end Sample
end Wilupgu.Builtins
