import Mathlib.Tactic.Ring
import Mathlib.Tactic.Linarith
import Wilupgu.Builtins.Widths

/-! # More workgroups than needed

`add`, `gemv_add` and `matmul_add` add to what a slot holds, so a thread more
than needed must not reach an element. The kernels' bounds checks see to that
in the dimensions they count, up to where their counting wraps; in those they
ignore each further layer adds once more. -/

namespace Wilupgu.Builtins

open Backend Loops Simt Simt.Thread Gpu

variable {b : Builtin} {m : List UInt32} {wg : Workgroups} {format : Format}

/-- `add`, `gemv_add` and `matmul_add`. -/
def Builtin.accumulates : Builtin → Bool
  | add | gemvAdd | matmulAdd => true
  | _ => false

/-- Whatever the buffers hold, and in whatever order the threads run, the slots
end as native code leaves them, counting with exact numbers. -/
def ExtraHarmless (format : Format) (b : Builtin) (m : List UInt32) (wg : Workgroups) : Prop :=
  ∀ slots : List (Slot ℚ), Bound b m wg slots → ∀ order : List Ids, order.Perm (grid b wg) →
    LeavesNative b m slots (launch (fun id => format.entry .u32 m id b) order (elem slots))

/-- **When no element gets its addend twice, or a wrong one**: there is nothing
to add, or one layer of threads only in each dimension the kernel ignores, no
more threads in a row than 32 bits count, and no element beyond what they do. -/
def EachOnce (b : Builtin) (m : List UInt32) (wg : Workgroups) : Prop :=
  let (M, N, K) := (dim m 0, dim m 1, dim m 2)
  match b with
  | .add => M = 0 ∨ wg.z.toNat = 1 ∧ 256 * (wg.x.toNat * wg.y.toNat) ≤ 2 ^ 32
  | .gemvAdd =>
    N = 0 ∨ K = 0 ∨
      wg.y.toNat = 1 ∧ wg.z.toNat = 1 ∧ 256 * wg.x.toNat ≤ 2 ^ 32 ∧ K * N ≤ 2 ^ 32
  | .matmulAdd =>
    M = 0 ∨ N = 0 ∨ K = 0 ∨
      wg.z.toNat = 1 ∧ 16 * wg.x.toNat ≤ 2 ^ 32 ∧ M * N ≤ 2 ^ 32 ∧ M * K ≤ 2 ^ 32 ∧
        K * N ≤ 2 ^ 32 ∧ K + 15 < 2 ^ 32
  | _ => True

theorem entry_of_accumulates {F : Type} [Floats F] (hb : b.accumulates = true) (ar : Ints)
    (id : Ids) : format.entry (F := F) ar m id b = Wgsl.entry ar m id b := by
  cases b with
  | add | gemvAdd | matmulAdd => cases format <;> rfl
  | _ => cases hb

theorem accumulates_cases (hb : b.accumulates = true) :
    (b.isMatrix = true ∨ b = .add) ∧ b.isReduction = false := by
  cases b with
  | add => exact ⟨.inr rfl, rfl⟩
  | gemvAdd | matmulAdd => exact ⟨.inl rfl, rfl⟩
  | _ => cases hb

/-! ## One thread for each element -/

theorem row_col_inj {i j i' j' w : Nat} (hj : j < w) (hj' : j' < w)
    (h : i * w + j = i' * w + j') : i = i' ∧ j = j' := by
  obtain ⟨hdiv, hmod⟩ := div_mod_of_lt i hj
  obtain ⟨hdiv', hmod'⟩ := div_mod_of_lt i' hj'
  exact ⟨by rw [← hdiv, h, hdiv'], by rw [← hmod, h, hmod']⟩

/-- A thread is where it is: its row, its column and its layer. -/
theorem grid_ext {id id' : Ids} (hid : id ∈ grid b wg) (hid' : id' ∈ grid b wg)
    (hrow : row .exact id = row .exact id') (hcol : col .exact id = col .exact id')
    (hz : id.blockIdx.z = id'.blockIdx.z) : id = id' := by
  obtain ⟨hg, hd, -, hthread⟩ := mem_grid.mp hid
  obtain ⟨hg', hd', -, hthread'⟩ := mem_grid.mp hid'
  obtain ⟨hx, hy, hz₁⟩ := mem_places.mp hthread
  obtain ⟨hx', hy', hz₁'⟩ := mem_places.mp hthread'
  have hbz := (block_pos b).2.2
  rw [hd] at hx hy hz₁
  rw [hd'] at hx' hy' hz₁'
  rw [row, row, hd, hd'] at hrow
  rw [col, col, hd, hd'] at hcol
  obtain ⟨hby, hty⟩ := row_col_inj hy hy' hrow
  obtain ⟨hbx, htx⟩ := row_col_inj hx hx' hcol
  obtain ⟨⟨bx, y, z⟩, ⟨tx, ty, tz⟩, _, _⟩ := id
  obtain ⟨⟨bx', y', z'⟩, ⟨tx', ty', tz'⟩, _, _⟩ := id'
  simp only at hg hd hg' hd' hbx hby htx hty hz hz₁ hz₁'
  have htz : tz = tz' := by omega
  rw [hbx, hby, htx, hty, hz, htz, hg, hd, hg', hd']

/-- In one layer of threads a row and a column are one thread. -/
theorem grid_ext_of_layer (hwg : wg.z.toNat = 1) {id id' : Ids} (hid : id ∈ grid b wg)
    (hid' : id' ∈ grid b wg) (hrow : row .exact id = row .exact id')
    (hcol : col .exact id = col .exact id') : id = id' := by
  have hlayer : ∀ {id : Ids}, id ∈ grid b wg → id.blockIdx.z = 0 := by
    intro id hid
    obtain ⟨hg, -, hblock, -⟩ := mem_grid.mp hid
    have hlt := (mem_places.mp hblock).2.2
    rw [hg] at hlt
    have hlt : id.blockIdx.z < wg.z.toNat := hlt
    omega
  exact grid_ext hid hid' hrow hcol (by rw [hlayer hid, hlayer hid'])

/-- A flat index is one of a row as wide as the grid. -/
theorem idx_eq (hb : b.block = ⟨256, 1, 1⟩) {id : Ids} (hid : id ∈ grid b wg) :
    idx .exact id = row .exact id * width b wg + col .exact id := by
  obtain ⟨hg, hd, -, hthread⟩ := mem_grid.mp hid
  obtain ⟨-, hy, -⟩ := mem_places.mp hthread
  rw [hd, hb] at hy
  have hty : id.threadIdx.y = 0 := by simpa using hy
  simp only [idx, group, row, col, hg, hd, hb, width, hty, Ints.exact, Dim3.ofWords]
  ring

theorem once_add (hwg : wg.z.toNat = 1) : Once .add m wg := by
  intro i id hid id' hid' ht ht'
  obtain ⟨-, h⟩ := Option.ite_none_right_eq_some.mp ht
  obtain ⟨-, h'⟩ := Option.ite_none_right_eq_some.mp ht'
  have heq : idx .exact id = idx .exact id' := Option.some.inj (h.trans h'.symm)
  rw [idx_eq rfl hid, idx_eq rfl hid'] at heq
  obtain ⟨hrow, hcol⟩ := row_col_inj (col_lt hid) (col_lt hid') heq
  exact grid_ext_of_layer hwg hid hid' hrow hcol

theorem once_gemvAdd (hy : wg.y.toNat = 1) (hwg : wg.z.toNat = 1) : Once .gemvAdd m wg := by
  intro i id hid id' hid' ht ht'
  obtain ⟨-, h⟩ := Option.ite_none_right_eq_some.mp ht
  obtain ⟨-, h'⟩ := Option.ite_none_right_eq_some.mp ht'
  have hheight : height .gemvAdd wg = 1 := by rw [height, hy]; rfl
  have hrow := row_lt hid
  have hrow' := row_lt hid'
  exact grid_ext_of_layer hwg hid hid' (by omega) (Option.some.inj (h.trans h'.symm))

theorem once_matmulAdd (hwg : wg.z.toNat = 1) : Once .matmulAdd m wg := by
  intro i id hid id' hid' ht ht'
  obtain ⟨⟨-, hc⟩, h⟩ := Option.ite_none_right_eq_some.mp ht
  obtain ⟨⟨-, hc'⟩, h'⟩ := Option.ite_none_right_eq_some.mp ht'
  obtain ⟨hrow, hcol⟩ := row_col_inj hc hc' (Option.some.inj (h.trans h'.symm))
  exact grid_ext_of_layer hwg hid hid' hrow hcol

/-! ## Nothing to add -/

/-- Where no thread changes an element, and native code doesn't either. -/
theorem harmless_of_nothing (hb : b.accumulates = true) (hm : b.MetaOk m)
    (hgpu : ∀ id ∈ grid b wg, ∀ mem : Memory ℚ, ∀ s,
      (Wgsl.entry .u32 m id b mem).1 = some s → s.value = mem s.slot s.index)
    (hnative : ∀ i < b.owns m, ∀ (x : Nat → Nat → ℚ) (old : ℚ), b.value m x i old = old) :
    ExtraHarmless format b m wg := by
  intro slots hs order horder
  have hclamp : b ≠ .clamp := by
    rintro rfl
    cases hb
  refine ⟨_, native_eq hclamp hm hs, fun slot hslot => ?_⟩
  have hstep : ∀ id ∈ order, ∀ mem : Memory ℚ,
      written (format.entry .u32 m id b mem).1 mem = mem := by
    intro id hid mem
    rw [entry_of_accumulates hb]
    cases hend : (Wgsl.entry .u32 m id b mem).1 with
    | none => rfl
    | some s =>
      funext slot i
      have hv := hgpu id (horder.mem_iff.mp hid) mem s hend
      simp only [written]
      split
      · rename_i h
        rw [hv, h.1, h.2]
      · rfl
  have hlaunch : ∀ (l : List Ids), (∀ id ∈ l, id ∈ order) → ∀ mem : Memory ℚ,
      launch (fun id => format.entry .u32 m id b) l mem = mem := by
    intro l
    induction l with
    | nil => exact fun _ _ => rfl
    | cons id l ih =>
      intro hl mem
      obtain ⟨hid, hl⟩ := List.forall_mem_cons.mp hl
      rw [launch_cons, hstep id hid, ih hl]
  rw [hlaunch order fun _ h => h]
  funext i
  rw [elem_written hs hslot]
  split
  · rename_i h
    rw [hnative i h.2, h.1]
  · rfl

theorem matmulWith_none {F : Type} [Arith F] {ar : Ints} {id : Ids} {bIndex : Nat → Nat → Nat}
    {accumulate : Bool} {mem : Memory F} (h : ¬ (row ar id < dim m 0 ∧ col ar id < dim m 1)) :
    (matmulWith ar m id bIndex accumulate mem).1 = none := by
  rw [matmulWith, bind_val, bind_val, if_neg h]
  rfl

/-- An empty sum of products. -/
theorem add_dotTo_zero {k : Nat} (hk : k = 0) (old : ℚ) (x y : Nat → ℚ) :
    Arith.add old (dotTo k x y) = old := by
  subst hk
  exact add_zero old

section Entries

variable {F : Type} [Floats F] (ar : Ints) (m : List UInt32) (id : Ids)

theorem entry_add : Wgsl.entry (F := F) ar m id .add = binary ar m id Arith.add := rfl

theorem entry_gemvAdd : Wgsl.entry (F := F) ar m id .gemvAdd = gemvWith ar m id true := rfl

theorem entry_matmulAdd : Wgsl.entry (F := F) ar m id .matmulAdd =
    matmulWith ar m id (rowMajor ar m) true := rfl

end Entries

theorem nothing_for_add (hm : Builtin.add.MetaOk m) (h : dim m 0 = 0) :
    ExtraHarmless format .add m wg := by
  refine harmless_of_nothing rfl hm (fun id _ mem s hend => ?_) fun i hi => ?_
  · rw [entry_add, binary_val, h, if_neg (Nat.not_lt_zero _)] at hend
    cases hend
  · have hi : i < dim m 0 := hi
    omega

theorem nothing_for_gemvAdd (hm : Builtin.gemvAdd.MetaOk m) (h : dim m 1 = 0 ∨ dim m 2 = 0) :
    ExtraHarmless format .gemvAdd m wg := by
  refine harmless_of_nothing rfl hm (fun id _ mem s hend => ?_) fun i hi x old => ?_
  · rw [entry_gemvAdd, gemvWith_val] at hend
    obtain ⟨hcol, hend⟩ := Option.ite_none_right_eq_some.mp hend
    obtain rfl := Option.some.inj hend
    exact add_dotTo_zero (h.resolve_left (by omega)) _ _ _
  · have hi : i < dim m 1 := hi
    exact add_dotTo_zero (h.resolve_left (by omega)) _ _ _

/-- Where the count of tiles is right a thread adds its sum of products. -/
theorem matmulAdd_val {ar : Ints} {id : Ids} {mem : Memory ℚ} (har : Tiled ar m)
    (hid : id ∈ grid .matmulAdd wg) :
    (Wgsl.entry ar m id .matmulAdd mem).1 =
      if row ar id < dim m 0 ∧ col ar id < dim m 1 then
        let i := ar.add (ar.mul (row ar id) (dim m 1)) (col ar id)
        some ⟨3, i, Arith.add (mem 3 i) (dotTo (dim m 2)
          (fun kk => mem 1 (ar.add (ar.mul (row ar id) (dim m 2)) kk))
          fun kk => mem 2 (rowMajor ar m kk (col ar id)))⟩
      else none := by
  obtain ⟨-, hd, -, hthread⟩ := mem_grid.mp hid
  have hx := (mem_places.mp hthread).1
  rw [hd] at hx
  exact matmulWith_val padded_rat har (by rw [hd]; rfl) hx

/-- Without products to sum up it puts back what it found. -/
theorem matmulAdd_nothing {ar : Ints} {id : Ids} {mem : Memory ℚ} {s : Store ℚ}
    (har : Tiled ar m) (hid : id ∈ grid .matmulAdd wg) (hK : dim m 2 = 0)
    (hend : (Wgsl.entry ar m id .matmulAdd mem).1 = some s) :
    s.value = mem s.slot s.index := by
  rw [matmulAdd_val har hid] at hend
  obtain ⟨hin, hend⟩ := Option.ite_none_right_eq_some.mp hend
  obtain rfl := Option.some.inj hend
  exact add_dotTo_zero hK _ _ _

theorem nothing_for_matmulAdd (hm : Builtin.matmulAdd.MetaOk m)
    (h : dim m 0 = 0 ∨ dim m 1 = 0 ∨ dim m 2 = 0) : ExtraHarmless format .matmulAdd m wg := by
  refine harmless_of_nothing rfl hm (fun id hid mem s hend => ?_) fun i hi x old => ?_
  · by_cases hK : dim m 2 = 0
    · exact matmulAdd_nothing (tiled_u32 (by omega)) hid hK hend
    · rw [entry_matmulAdd, matmulWith_none fun hin => by omega] at hend
      cases hend
  · have hi : i < dim m 0 * dim m 1 := hi
    have hpos : dim m 0 ≠ 0 ∧ dim m 1 ≠ 0 := by
      constructor <;> rintro h0 <;> simp [h0] at hi
    exact add_dotTo_zero (by omega) _ _ _

/-! ## One layer -/

/-- Where each thread does what it would do counting exactly. -/
theorem harmless_of_exact (hb : b.accumulates = true) (hm : b.MetaOk m)
    (hentry : ∀ id ∈ grid b wg, Wgsl.entry (F := ℚ) .u32 m id b = Wgsl.entry .exact m id b)
    (hcov : Covers b m wg) (hone : Once b m wg) : ExtraHarmless format b m wg := by
  intro slots hs order horder
  have hcongr : ∀ id ∈ order, format.entry (F := ℚ) .u32 m id b = Wgsl.entry .exact m id b := by
    intro id hid
    rw [entry_of_accumulates hb, hentry id (horder.mem_iff.mp hid)]
  rw [launch_congr hcongr]
  exact launch_exact padded_rat (accumulates_cases hb).1 hm hs hcov (fun _ => hone) horder

theorem harmless_of_once (h : b.Accepts format.validate m wg) (hb : b.accumulates = true)
    (hcov : Covers b m wg) (honce : EachOnce b m wg) : ExtraHarmless format b m wg := by
  cases b with
  | add =>
    rcases honce with h0 | ⟨hz, hw⟩
    · exact nothing_for_add h.words h0
    · refine harmless_of_exact rfl h.words (fun id hid => ?_) hcov (once_add hz)
      have hidx : idx .u32 id = idx .exact id := by
        rw [idx_u32, Nat.mod_eq_of_lt (Nat.lt_of_lt_of_le (idx_lt rfl hid) hw)]
      simp only [Wgsl.entry, Wgsl.add, binary, each, hidx]
  | gemvAdd =>
    rcases honce with h0 | h0 | ⟨hy, hz, hw, hB⟩
    · exact nothing_for_gemvAdd h.words (.inl h0)
    · exact nothing_for_gemvAdd h.words (.inr h0)
    · refine harmless_of_exact rfl h.words (fun id hid => ?_) hcov (once_gemvAdd hy hz)
      refine entry_congr h ⟨extent_le.mpr fun i hi j hj => ?_, .inl hw⟩ rfl hid
      exact Nat.lt_of_lt_of_le (row_col_lt hi (lt_min_iff.mp hj).1) hB
  | matmulAdd =>
    rcases honce with h0 | h0 | h0 | ⟨hz, hw, hC, hA, hB, hK⟩
    · exact nothing_for_matmulAdd h.words (.inl h0)
    · exact nothing_for_matmulAdd h.words (.inr (.inl h0))
    · exact nothing_for_matmulAdd h.words (.inr (.inr h0))
    · refine harmless_of_exact rfl h.words (fun id hid => ?_) hcov (once_matmulAdd hz)
      refine entry_congr h ⟨hK, extent_le.mpr fun i hi j hj => ?_,
        extent_le.mpr fun i hi j hj => ?_, extent_le.mpr fun i hi j hj => ?_, .inl hw⟩ rfl hid
      · exact Nat.lt_of_lt_of_le (row_col_lt (lt_min_iff.mp hi).1 hj) hA
      · exact Nat.lt_of_lt_of_le (row_col_lt hi (lt_min_iff.mp hj).1) hB
      · exact Nat.lt_of_lt_of_le (row_col_lt (lt_min_iff.mp hi).1 (lt_min_iff.mp hj).1) hC
  | _ => cases hb

end Wilupgu.Builtins
