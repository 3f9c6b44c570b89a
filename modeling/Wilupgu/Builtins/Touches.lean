import Wilupgu.Lib.Lists
import Wilupgu.Builtins.Gpu
import Wilupgu.Builtins.Outputs

/-! # What GPU code touches

The threads of a grid, and the elements each kernel's thread reads and writes. -/

namespace Wilupgu.Builtins

open Backend Simt Simt.Thread Gpu

/-! ## The threads of a grid -/

theorem mem_places {d p : Dim3} : p ∈ d.places ↔ p.x < d.x ∧ p.y < d.y ∧ p.z < d.z := by
  simp only [Dim3.places, List.mem_flatMap, List.mem_map, List.mem_range]
  constructor
  · intro h
    obtain ⟨z, hz, y, hy, x, hx, rfl⟩ := h
    exact ⟨hx, hy, hz⟩
  · intro h
    exact ⟨p.z, h.2.2, p.y, h.2.1, p.x, h.1, rfl⟩

theorem nodup_places (d : Dim3) : d.places.Nodup := by
  refine List.nodup_flatMap_of_key Dim3.z List.nodup_range (fun z => ?_) fun z p hp => ?_
  · refine List.nodup_flatMap_of_key Dim3.y List.nodup_range (fun y => ?_) fun y p hp => ?_
    · exact List.nodup_range.map fun x x' h => (Dim3.mk.inj h).1
    · obtain ⟨x, -, rfl⟩ := List.mem_map.mp hp
      rfl
  · obtain ⟨y, -, hp⟩ := List.mem_flatMap.mp hp
    obtain ⟨x, -, rfl⟩ := List.mem_map.mp hp
    rfl

variable {b : Builtin} {wg : Workgroups} {id : Ids}

theorem mem_grid : id ∈ grid b wg ↔
    id.gridDim = .ofWords wg.x wg.y wg.z ∧ id.blockDim = b.block ∧
      id.blockIdx ∈ id.gridDim.places ∧ id.threadIdx ∈ id.blockDim.places := by
  simp only [grid, List.mem_flatMap, List.mem_map]
  constructor
  · intro h
    obtain ⟨block, hb, thread, ht, rfl⟩ := h
    exact ⟨rfl, rfl, hb, ht⟩
  · intro h
    obtain ⟨hg, hd, hb, ht⟩ := h
    rw [hg] at hb
    rw [hd] at ht
    exact ⟨_, hb, _, ht, by rw [← hg, ← hd]⟩

theorem nodup_grid (b : Builtin) (wg : Workgroups) : (grid b wg).Nodup := by
  refine List.nodup_flatMap_of_key Ids.blockIdx (nodup_places _) (fun block => ?_)
    fun block id hid => ?_
  · exact (nodup_places _).map fun t t' h => (Ids.mk.inj h).2.1
  · obtain ⟨t, -, rfl⟩ := List.mem_map.mp hid
    rfl

/-! ## What a thread logs -/

section Logs

variable {F : Type} {ar : Ints} {mm : List UInt32} {mem : Memory F} {e : Touch}

theorem mem_each {value : Nat → Thread F F} : e ∈ (each ar mm id value mem).2 ↔
    idx ar id < dim mm 0 ∧ (e ∈ (value (idx ar id) mem).2 ∨ e = .store 1 (idx ar id)) := by
  unfold each
  by_cases h : idx ar id < dim mm 0 <;> simp [h]

theorem mem_put [Arith F] {accumulate : Bool} {i : Nat} {sum : F} :
    e ∈ (put accumulate i sum mem).2 ↔
      (accumulate = true ∧ e = .load 3 i) ∨ e = .store 3 i := by
  unfold put
  cases accumulate <;> simp

theorem mem_tileA [Arith F] {t : Nat} : e ∈ (tileA (F := F) ar mm id t mem).2 ↔
    (row ar id < dim mm 0 ∧ ar.add (ar.mul t 16) id.threadIdx.x < dim mm 2) ∧
      e = .load 1 (ar.add (ar.mul (row ar id) (dim mm 2)) (ar.add (ar.mul t 16) id.threadIdx.x)) := by
  simp only [tileA]
  split <;> simp_all

theorem mem_tileB [Arith F] {bIndex : Nat → Nat → Nat} {t : Nat} :
    e ∈ (tileB (F := F) ar mm id bIndex t mem).2 ↔
      (ar.add (ar.mul t 16) id.threadIdx.y < dim mm 2 ∧ col ar id < dim mm 1) ∧
        e = .load 2 (bIndex (ar.add (ar.mul t 16) id.threadIdx.y) (col ar id)) := by
  simp only [tileB]
  split <;> simp_all

/-- Summing up a round logs nothing: the tiles are shared memory. -/
theorem mem_round [Arith F] {bIndex : Nat → Nat → Nat} {sum : F} {t : Nat} :
    e ∈ (Gpu.round ar mm id bIndex sum t mem).2 ↔
      e ∈ (tileA (F := F) ar mm id t mem).2 ∨ e ∈ (tileB (F := F) ar mm id bIndex t mem).2 := by
  simp [Gpu.round]

theorem mem_matmulWith [Arith F] {bIndex : Nat → Nat → Nat} {accumulate : Bool} :
    e ∈ (matmulWith (F := F) ar mm id bIndex accumulate mem).2 ↔
      e = .rounds (numTiles ar mm) ∨
      (∃ t < numTiles ar mm, e ∈ (tileA (F := F) ar mm id t mem).2) ∨
      (∃ t < numTiles ar mm, e ∈ (tileB (F := F) ar mm id bIndex t mem).2) ∨
      (row ar id < dim mm 0 ∧ col ar id < dim mm 1) ∧
        let i := ar.add (ar.mul (row ar id) (dim mm 1)) (col ar id)
        ((accumulate = true ∧ e = .load 3 i) ∨ e = .store 3 i) := by
  have hloop : e ∈ (loop (numTiles ar mm) (Arith.zero : F) (Gpu.round ar mm id bIndex) mem).2 ↔
      ∃ t < numTiles ar mm, e ∈ (tileA (F := F) ar mm id t mem).2 ∨
        e ∈ (tileB (F := F) ar mm id bIndex t mem).2 := mem_loop_log fun _ _ => mem_round
  unfold matmulWith
  rw [bind_log, bind_log, List.mem_append, List.mem_append, hloop]
  simp only [and_or_left, exists_or, rounds_run, List.mem_singleton, or_assoc]
  refine or_congr_right (or_congr_right (or_congr_right ?_))
  split
  · rw [mem_put]
    simp [*]
  · simp [*]

theorem mem_gemvWith [Arith F] {accumulate : Bool} :
    e ∈ (gemvWith (F := F) ar mm id accumulate mem).2 ↔ col ar id < dim mm 1 ∧
      ((∃ k < dim mm 2, e = .load 1 k ∨ e = .load 2 (rowMajor ar mm k (col ar id))) ∨
        (accumulate = true ∧ e = .load 3 (col ar id)) ∨ e = .store 3 (col ar id)) := by
  unfold gemvWith
  split
  · simp [Nat.not_lt.mpr ‹_›]
  · rename_i h
    rw [bind_log, List.mem_append, mem_put, mem_loop_log (Q := fun k =>
      e = .load 1 k ∨ e = .load 2 (rowMajor ar mm k (col ar id))) fun _ _ => by simp]
    simp [Nat.not_le.mp h]

theorem mem_transpose : e ∈ (transpose (F := F) ar mm id mem).2 ↔
    (row ar id < dim mm 0 ∧ col ar id < dim mm 1) ∧
      (e = .load 1 (ar.add (ar.mul (row ar id) (dim mm 1)) (col ar id)) ∨
        e = .store 2 (ar.add (ar.mul (col ar id) (dim mm 0)) (row ar id))) := by
  unfold transpose
  split
  · simp
    omega
  · simp
    omega

theorem mem_reduceWith [Arith F] {out : Nat} {term : Ids → Thread F F} :
    e ∈ (reduceWith ar id out term mem).2 ↔
      e ∈ (term id mem).2 ∨ id.threadIdx.x = 0 ∧ e = .store out (group ar id) := by
  unfold reduceWith
  split <;> simp [*]

end Logs

/-! ## Wrapping -/

theorem u32_add_le (a b : Nat) : Ints.u32.add a b ≤ a + b := Nat.mod_le _ _

theorem u32_mul_le (a b : Nat) : Ints.u32.mul a b ≤ a * b := Nat.mod_le _ _

/-- A wrapped index is no further than the exact one. -/
theorem u32_index_le (a b c : Nat) : Ints.u32.add (Ints.u32.mul a b) c ≤ a * b + c :=
  (u32_add_le _ _).trans (Nat.add_le_add_right (u32_mul_le _ _) _)

/-- Wrapping each step is wrapping the end. -/
theorem u32_index (a b c : Nat) : Ints.u32.add (Ints.u32.mul a b) c = (a * b + c) % 2 ^ 32 := by
  simp [Ints.u32, Nat.add_mod]

theorem group_u32 (id : Ids) : group .u32 id = group .exact id % 2 ^ 32 := u32_index _ _ _

theorem col_u32 (id : Ids) : col .u32 id = col .exact id % 2 ^ 32 := u32_index _ _ _

theorem row_u32 (id : Ids) : row .u32 id = row .exact id % 2 ^ 32 := u32_index _ _ _

theorem idx_u32 (id : Ids) : idx .u32 id = idx .exact id % 2 ^ 32 := by
  rw [idx, u32_index, group_u32]
  simp [idx, Ints.exact, Nat.add_mod, Nat.mul_mod]

theorem dim_lt (m : List UInt32) (i : Nat) : dim m i < 2 ^ 32 := UInt32.toNat_lt _

/-! ## Grids that are accepted -/

theorem Format.validate_bounds {format : Format} (h : format.validate wg = .ok ()) :
    wg.x.toNat < 2 ^ 31 ∧ wg.y.toNat < 2 ^ 16 ∧ wg.z.toNat < 2 ^ 16 := by
  cases format with
  | wgsl | cuda =>
    simp only [Format.validate] at h
    split at h
    · omega
    · cases h

section Accepted

variable {format : Format} {m : List UInt32}

theorem Builtin.Accepts.pos (h : b.Accepts format.validate m wg) :
    0 < wg.x.toNat ∧ 0 < wg.y.toNat ∧ 0 < wg.z.toNat := by
  have hpos : ∀ v ∈ wg.dims, 0 < v.toNat := by
    intro v hv
    refine Nat.pos_of_ne_zero fun h0 => h.workgroups ?_
    rwa [UInt32.toNat_inj.mp (h0.trans UInt32.toNat_zero.symm)] at hv
  exact ⟨hpos _ (by simp [Workgroups.dims]), hpos _ (by simp [Workgroups.dims]),
    hpos _ (by simp [Workgroups.dims])⟩

/-- Where the product doesn't wrap there is a partial for each workgroup. -/
theorem le_partials (h : b.Accepts format.validate m wg) :
    wg.x.toNat * wg.y.toNat ≤ partials wg := by
  obtain ⟨hx, hy, hz⟩ := Format.validate_bounds h.valid
  obtain ⟨-, -, hpos⟩ := h.pos
  have hlt : wg.x.toNat * wg.y.toNat * wg.z.toNat < 2 ^ 31 * 2 ^ 16 * 2 ^ 16 :=
    Nat.mul_lt_mul'' (Nat.mul_lt_mul'' hx hy) hz
  have hwrap : Rounding.wrap (wg.x.toNat * wg.y.toNat * wg.z.toNat) =
      wg.x.toNat * wg.y.toNat * wg.z.toNat := Nat.mod_eq_of_lt (hlt.trans (by decide))
  rw [partials, hwrap]
  exact (Nat.le_mul_of_pos_right _ hpos).trans (Nat.le_max_left _ _)

theorem group_lt (hid : id ∈ grid b wg) : group .exact id < wg.x.toNat * wg.y.toNat := by
  obtain ⟨hg, -, hblock, -⟩ := mem_grid.mp hid
  obtain ⟨hx, hy, -⟩ := mem_places.mp hblock
  have hlt := row_col_lt hy hx
  rw [hg] at hlt
  rw [group, hg, Nat.mul_comm]
  exact hlt

/-- Thread `n` of a launch of workgroups of 256 in a row, in layer `z`. -/
def flatThread (b : Builtin) (wg : Workgroups) (n z : Nat) : Ids :=
  ⟨⟨n / 256 % wg.x.toNat, n / 256 / wg.x.toNat, z⟩, ⟨n % 256, 0, 0⟩, .ofWords wg.x wg.y wg.z,
    b.block⟩

theorem idx_flatThread (hb : b.block = ⟨256, 1, 1⟩) (n z : Nat) :
    idx .exact (flatThread b wg n z) = n := by
  simp only [idx, group, flatThread, hb, Ints.exact, Dim3.ofWords, Nat.div_add_mod']

theorem flatThread_mem (hb : b.block = ⟨256, 1, 1⟩) {n z : Nat}
    (hn : n < 256 * (wg.x.toNat * wg.y.toNat)) (hz : z < wg.z.toNat) :
    flatThread b wg n z ∈ grid b wg := by
  have hg : n / 256 < wg.x.toNat * wg.y.toNat := Nat.div_lt_of_lt_mul hn
  have hx : 0 < wg.x.toNat := Nat.pos_of_ne_zero fun h0 => by simp [h0] at hg
  refine mem_grid.mpr ⟨rfl, rfl, mem_places.mpr ⟨Nat.mod_lt _ hx, Nat.div_lt_of_lt_mul hg, hz⟩,
    mem_places.mpr ?_⟩
  simp only [flatThread, hb]
  exact ⟨Nat.mod_lt _ (by decide), Nat.one_pos, Nat.one_pos⟩

theorem idx_lt (hb : b.block = ⟨256, 1, 1⟩) (hid : id ∈ grid b wg) :
    idx .exact id < 256 * (wg.x.toNat * wg.y.toNat) := by
  obtain ⟨-, hd, -, hthread⟩ := mem_grid.mp hid
  obtain ⟨hx, -⟩ := mem_places.mp hthread
  have hlt := row_col_lt (group_lt hid) hx
  rw [hd, hb] at hlt
  rw [idx, hd, hb, Nat.mul_comm 256]
  exact hlt

end Accepted

/-! ## The slots' lengths -/

/-- An element that its slot is needed to hold. -/
def Within (lens : List Nat) : Touch → Prop
  | .load slot i | .store slot i => ∃ n, 0 < slot ∧ lens[slot - 1]? = some n ∧ i < n
  | .rounds _ => True

/-- Every element that any thread of a launch reads or writes. -/
def StaysWithin (F : Type) [Floats F] (format : Format) (b : Builtin) (m : List UInt32)
    (wg : Workgroups) : Prop :=
  ∀ id ∈ grid b wg, ∀ mem : Memory F, ∀ e ∈ (format.entry .u32 m id b mem).2,
    Within (b.minLens m wg) e

section Within

variable {F : Type} {m : List UInt32} {mem : Memory F} {e : Touch}

/-- Elementwise code checks its index, and touches no other. -/
theorem each_within {value : Nat → Thread F F} (lens : List Nat)
    (hx : lens[0]? = some (dim m 0))
    (hvalue : ∀ i < dim m 0, ∀ e ∈ (value i mem).2, Within lens e)
    (he : e ∈ (each .u32 m id value mem).2) : Within lens e := by
  obtain ⟨hi, he | rfl⟩ := mem_each.mp he
  · exact hvalue _ hi e he
  · exact ⟨_, Nat.one_pos, hx, hi⟩

theorem rowMajor_lt {k c : Nat} (hk : k < dim m 2) (hc : c < dim m 1) :
    rowMajor .u32 m k c < dim m 2 * dim m 1 := by
  rw [rowMajor]
  exact Nat.lt_of_le_of_lt (u32_index_le _ _ _) (row_col_lt hk hc)

theorem colMajor_lt {k c : Nat} (hk : k < dim m 2) (hc : c < dim m 1) :
    colMajor .u32 m k c < dim m 2 * dim m 1 := by
  rw [colMajor, Nat.mul_comm (dim m 2)]
  exact Nat.lt_of_le_of_lt (u32_index_le _ _ _) (row_col_lt hc hk)

theorem matmul_within [Arith F] {bIndex : Nat → Nat → Nat} {accumulate : Bool}
    (hb : ∀ k col, k < dim m 2 → col < dim m 1 → bIndex k col < dim m 2 * dim m 1)
    (he : e ∈ (matmulWith (F := F) .u32 m id bIndex accumulate mem).2) :
    Within [dim m 0 * dim m 2, dim m 2 * dim m 1, dim m 0 * dim m 1] e := by
  rcases mem_matmulWith.mp he with rfl | ⟨t, -, ha⟩ | ⟨t, -, hb'⟩ | ⟨⟨hrow, hcol⟩, hc⟩
  · trivial
  · obtain ⟨⟨hrow, hk⟩, rfl⟩ := mem_tileA.mp ha
    exact ⟨_, Nat.one_pos, rfl, Nat.lt_of_le_of_lt (u32_index_le _ _ _) (row_col_lt hrow hk)⟩
  · obtain ⟨⟨hk, hcol⟩, rfl⟩ := mem_tileB.mp hb'
    exact ⟨_, Nat.two_pos, rfl, hb _ _ hk hcol⟩
  · have hi := Nat.lt_of_le_of_lt (u32_index_le _ _ _) (row_col_lt hrow hcol)
    rcases hc with ⟨-, rfl⟩ | rfl
    · exact ⟨_, by decide, rfl, hi⟩
    · exact ⟨_, by decide, rfl, hi⟩

theorem gemv_within [Arith F] {accumulate : Bool}
    (he : e ∈ (gemvWith (F := F) .u32 m id accumulate mem).2) :
    Within [dim m 2, dim m 2 * dim m 1, dim m 1] e := by
  obtain ⟨hcol, ⟨k, hk, rfl | rfl⟩ | ⟨-, rfl⟩ | rfl⟩ := mem_gemvWith.mp he
  · exact ⟨_, Nat.one_pos, rfl, hk⟩
  · exact ⟨_, Nat.two_pos, rfl, rowMajor_lt hk hcol⟩
  · exact ⟨_, by decide, rfl, hcol⟩
  · exact ⟨_, by decide, rfl, hcol⟩

theorem transpose_within (he : e ∈ (transpose (F := F) .u32 m id mem).2) :
    Within [dim m 0 * dim m 1, dim m 0 * dim m 1] e := by
  obtain ⟨⟨hrow, hcol⟩, rfl | rfl⟩ := mem_transpose.mp he
  · exact ⟨_, Nat.one_pos, rfl, Nat.lt_of_le_of_lt (u32_index_le _ _ _) (row_col_lt hrow hcol)⟩
  · refine ⟨_, Nat.two_pos, rfl, Nat.lt_of_le_of_lt (u32_index_le _ _ _) ?_⟩
    exact Nat.lt_of_lt_of_eq (row_col_lt hcol hrow) (Nat.mul_comm _ _)

theorem isReduction_block (h : b.isReduction = true) : b.block = ⟨256, 1, 1⟩ := by
  cases b <;> first
    | rfl
    | cases h

end Within

/-! ## No format's code touches a slot past its length -/

variable {F : Type} [Floats F] {format : Format} {m : List UInt32}

/-- All code but the reductions'. -/
theorem entry_within (hb : b.isReduction = false) {mem : Memory F} {e : Touch}
    (he : e ∈ (Wgsl.entry (F := F) .u32 m id b mem).2) : Within (b.minLens m wg) e := by
  cases b with
  | matmul | matmulAdd => exact matmul_within (fun _ _ => rowMajor_lt) he
  | matmulTrp => exact matmul_within (fun _ _ => colMajor_lt) he
  | gemv | gemvAdd => exact gemv_within he
  | transpose => exact transpose_within he
  | dot | sum => cases hb
  | add | mul | max | min =>
    refine each_within [dim m 0, dim m 0] rfl (fun i hi e he => ?_) he
    have he : e = .load 1 i ∨ e = .load 2 i := by simpa using he
    rcases he with rfl | rfl
    · exact ⟨_, Nat.one_pos, rfl, hi⟩
    · exact ⟨_, Nat.two_pos, rfl, hi⟩
  | scale | clamp =>
    refine each_within [dim m 0] rfl (fun i hi e he => ?_) he
    have he : e = .load 1 i := by simpa using he
    subst he
    exact ⟨_, Nat.one_pos, rfl, hi⟩
  | zeroTensor | fillConstant | fillRandom =>
    refine each_within [dim m 0] rfl (fun i hi e he => ?_) he
    simp at he

/-- A thread of a reduction loads its element of each input, in CUDA after a
check, and the first one of a workgroup stores the partial. -/
theorem mem_reduction (hred : b.isReduction = true) {ar : Ints} {mem : Memory F} {e : Touch} :
    e ∈ (format.entry (F := F) ar m id b mem).2 ↔
      (format = .cuda → idx ar id < dim m 0) ∧
          (∃ slot, 0 < slot ∧ slot < b.out ∧ e = .load slot (idx ar id)) ∨
        id.threadIdx.x = 0 ∧ e = .store b.out (group ar id) := by
  have hone : (∃ slot, 0 < slot ∧ slot < 2 ∧ e = .load slot (idx ar id)) ↔
      e = .load 1 (idx ar id) := by
    constructor
    · intro h
      obtain ⟨slot, h0, h2, rfl⟩ := h
      obtain rfl : slot = 1 := by omega
      rfl
    · exact fun h => ⟨1, by decide, by decide, h⟩
  have htwo : (∃ slot, 0 < slot ∧ slot < 3 ∧ e = .load slot (idx ar id)) ↔
      e = .load 1 (idx ar id) ∨ e = .load 2 (idx ar id) := by
    constructor
    · intro h
      obtain ⟨slot, h0, h3, rfl⟩ := h
      obtain rfl | rfl : slot = 1 ∨ slot = 2 := by omega
      · exact .inl rfl
      · exact .inr rfl
    · intro h
      rcases h with h | h
      · exact ⟨1, by decide, by decide, h⟩
      · exact ⟨2, by decide, by decide, h⟩
  cases b with
  | sum =>
    cases format with
    | wgsl =>
      simp only [Format.entry, Wgsl.entry, Wgsl.sum, mem_reduceWith, Builtin.out, hone]
      simp
    | cuda =>
      simp only [Format.entry, Cuda.entry, Cuda.sum, mem_reduceWith, Builtin.out, hone]
      by_cases h : idx ar id < dim m 0 <;> simp [h]
  | dot =>
    cases format with
    | wgsl => simp [Format.entry, Wgsl.entry, Wgsl.dot, mem_reduceWith, Builtin.out, htwo]
    | cuda =>
      simp only [Format.entry, Cuda.entry, Cuda.dot, mem_reduceWith, Builtin.out, htwo]
      by_cases h : idx ar id < dim m 0 <;> simp [h]
  | _ => cases hred

/-- Its inputs hold `n`, its output the partials. -/
theorem minLens_reduction (m : List UInt32) (wg : Workgroups) (hred : b.isReduction = true) :
    (∀ slot, 0 < slot → slot < b.out → (b.minLens m wg)[slot - 1]? = some (dim m 0)) ∧
      0 < b.out ∧ (b.minLens m wg)[b.out - 1]? = some (partials wg) := by
  cases b with
  | sum =>
    refine ⟨fun slot h0 h2 => ?_, by decide, rfl⟩
    obtain rfl : slot = 1 := Nat.le_antisymm (Nat.le_of_lt_succ h2) h0
    rfl
  | dot =>
    refine ⟨fun slot h0 h3 => ?_, by decide, rfl⟩
    have h3 : slot < 3 := h3
    obtain rfl | rfl : slot = 1 ∨ slot = 2 := by omega
    · rfl
    · rfl
  | _ => cases hred

/-- **No builtin's GPU code touches a slot past its length**, but for WGSL's
reductions, whose threads all read: they stay within only if there is an
element for each. -/
theorem stays_within_iff (h : b.Accepts format.validate m wg) :
    StaysWithin F format b m wg ↔
      (format = .wgsl → b.isReduction = true →
        256 * (wg.x.toNat * wg.y.toNat) ≤ dim m 0) := by
  constructor
  · intro hin hf hred
    refine Nat.le_of_not_lt fun hlt => ?_
    -- the thread whose element is the first one past the input
    have hblock := isReduction_block hred
    have hidx : idx .u32 (flatThread b wg (dim m 0) 0) = dim m 0 := by
      rw [idx_u32, idx_flatThread hblock, Nat.mod_eq_of_lt (dim_lt m 0)]
    obtain ⟨hlens, -⟩ := minLens_reduction m wg hred
    have hout : 1 < b.out := by
      cases b with
      | sum | dot => decide
      | _ => cases hred
    obtain ⟨n, -, hn, hi⟩ := hin _ (flatThread_mem hblock hlt h.pos.2.2) (fun _ _ => Arith.zero)
      (.load 1 (idx .u32 (flatThread b wg (dim m 0) 0)))
      ((mem_reduction hred).mpr (.inl ⟨fun hc => by simp [hf] at hc, 1, Nat.one_pos, hout, rfl⟩))
    rw [hlens 1 Nat.one_pos hout] at hn
    cases hn
    rw [hidx] at hi
    exact Nat.lt_irrefl _ hi
  · intro hcond id hid mem e he
    cases hred : b.isReduction with
    | false =>
      cases format with
      | wgsl => exact entry_within hred he
      | cuda =>
        cases b with
        | dot | sum => cases hred
        | _ => exact entry_within hred he
    | true =>
      obtain ⟨hlens, hpos, hout⟩ := minLens_reduction m wg hred
      rcases (mem_reduction hred).mp he with ⟨hcuda, slot, h0, hslot, rfl⟩ | ⟨-, rfl⟩
      · refine ⟨_, h0, hlens slot h0 hslot, ?_⟩
        cases format with
        | cuda => exact hcuda rfl
        | wgsl =>
          refine Nat.lt_of_lt_of_le ?_ (hcond rfl hred)
          rw [idx_u32]
          exact Nat.lt_of_le_of_lt (Nat.mod_le _ _) (idx_lt (isReduction_block hred) hid)
      · refine ⟨_, hpos, hout, Nat.lt_of_lt_of_le ?_ (le_partials h)⟩
        rw [group_u32]
        exact Nat.lt_of_le_of_lt (Nat.mod_le _ _) (group_lt hid)

namespace Sample

/-- The second thread of a sum of one element. -/
def second : Ids := ⟨⟨0, 0, 0⟩, ⟨1, 0, 0⟩, ⟨1, 1, 1⟩, ⟨256, 1, 1⟩⟩

theorem accepts_sum_of_one (format : Format) :
    Builtin.sum.Accepts format.validate [1] ⟨1, 1, 1⟩ := by
  cases format <;> exact ⟨rfl, by decide, rfl⟩

/-- **It reads the second one.** -/
theorem sum_reads_past_its_input :
    Builtin.sum.Accepts Format.wgsl.validate [1] ⟨1, 1, 1⟩ ∧
      (Builtin.sum.minLens [1] ⟨1, 1, 1⟩)[0]? = some 1 ∧ second ∈ grid .sum ⟨1, 1, 1⟩ ∧
      (∀ mem : Memory ℚ, .load 1 1 ∈ (Format.wgsl.entry .u32 [1] second .sum mem).2) ∧
      ¬ StaysWithin ℚ .wgsl .sum [1] ⟨1, 1, 1⟩ := by
  have hmem : second ∈ grid .sum ⟨1, 1, 1⟩ :=
    mem_grid.mpr ⟨rfl, rfl, mem_places.mpr (by decide), mem_places.mpr (by decide)⟩
  have hload : ∀ mem : Memory ℚ,
      .load 1 1 ∈ (Format.wgsl.entry .u32 [1] second .sum mem).2 := by
    intro mem
    simp [Format.entry, Wgsl.entry, Wgsl.sum, reduceWith, idx, group, Ints.u32, second]
  refine ⟨accepts_sum_of_one _, rfl, hmem, hload, fun hin => ?_⟩
  obtain ⟨n, -, hn, hi⟩ := hin second hmem (fun _ _ => 0) _ (hload _)
  cases hn
  exact absurd hi (by decide)

/-- In CUDA it doesn't. -/
theorem cuda_sum_stays_within : StaysWithin ℚ .cuda .sum [1] ⟨1, 1, 1⟩ :=
  (stays_within_iff (accepts_sum_of_one .cuda)).mpr fun h => by cases h

end Sample
end Wilupgu.Builtins
