import Wilupgu.Builtins.Touches

/-! # What GPU code writes

Each thread of an elementwise or a linear algebra builtin ends with one write
at most. Here is which element it writes and what it puts there, whatever the
thread counts with, and what a launch leaves where it counts exactly: what
native code leaves. -/

namespace Wilupgu.Builtins

open Backend Loops Simt Simt.Thread Gpu

variable {F : Type} {ar : Ints} {m : List UInt32} {id : Ids} {mem : Memory F}

/-! ## Tiles -/

/-- Padding a sum of products with products of zeros doesn't change it. A sum
starts at `0.0`, so it is never `-0.0`, which would. -/
def Padded (F : Type) [Arith F] : Prop :=
  ∀ (k : Nat) (a b : Nat → F),
    Arith.add (dotTo k a b) (Arith.mul Arith.zero Arith.zero) = dotTo k a b

/-- As many rounds as there are tiles, and each with its own rows and columns. -/
structure Tiled (ar : Ints) (m : List UInt32) : Prop where
  count : numTiles ar m = (dim m 2 + 15) / 16
  place : ∀ t < (dim m 2 + 15) / 16, ∀ k < 16, ar.add (ar.mul t 16) k = t * 16 + k

theorem tiled_exact (m : List UInt32) : Tiled .exact m where
  count := by
    rw [numTiles]
    exact congrArg (· / 16) (Nat.add_sub_assoc (by decide) _)
  place _ _ _ _ := rfl

/-- The rounding up wraps. -/
theorem numTiles_u32 (m : List UInt32) : numTiles .u32 m = (dim m 2 + 15) % 2 ^ 32 / 16 := by
  have hadd : Ints.u32.add (dim m 2) 16 = (dim m 2 + 16) % 2 ^ 32 := rfl
  have hsub : Ints.u32.sub (Ints.u32.add (dim m 2) 16) 1 =
      (Ints.u32.add (dim m 2) 16 + (2 ^ 32 - 1)) % 2 ^ 32 := rfl
  rw [numTiles, hsub, hadd]
  omega

theorem tiled_u32 (h : dim m 2 + 15 < 2 ^ 32) : Tiled .u32 m where
  count := by rw [numTiles_u32, Nat.mod_eq_of_lt h]
  place t ht k hk := by
    rw [u32_index, Nat.mod_eq_of_lt (by omega)]

/-- A sum over tiles is a sum over what is in them. -/
theorem foldl_tiles {σ : Type} (n w : Nat) (f : σ → Nat → σ) (s : σ) :
    (List.range n).foldl (fun s t => (List.range w).foldl (fun s k => f s (t * w + k)) s) s =
      (List.range (n * w)).foldl f s := by
  induction n with
  | zero => simp
  | succ n ih =>
    rw [List.range_succ, List.foldl_append, ih, Nat.succ_mul, List.range_add, List.foldl_append,
      List.foldl_map]
    rfl

theorem foldl_padded [Arith F] (hpad : Padded F) {k n : Nat} (hn : k ≤ n) (a b : Nat → F) :
    (List.range n).foldl (fun sum kk =>
      Arith.add sum (Arith.mul (if kk < k then a kk else Arith.zero)
        (if kk < k then b kk else Arith.zero))) Arith.zero = dotTo k a b := by
  induction n, hn using Nat.le_induction with
  | base =>
    refine List.foldl_ext _ _ _ fun sum kk hk => ?_
    rw [List.mem_range] at hk
    rw [if_pos hk, if_pos hk]
  | succ n hn ih =>
    rw [List.range_succ, List.foldl_append, ih]
    have hk : ¬ n < k := Nat.not_lt.mpr hn
    simp only [List.foldl_cons, List.foldl_nil, if_neg hk]
    exact hpad k a b

/-- Place `k` of its row of a tile is stored by a thread of its row. -/
theorem lane_row (ar : Ints) {k : Nat} (hd : id.blockDim.x = 16) (hk : k < 16) :
    row ar (id.lane (id.threadIdx.y * 16 + k)) = row ar id ∧
      (id.lane (id.threadIdx.y * 16 + k)).threadIdx.x = k := by
  obtain ⟨hdiv, hmod⟩ := div_mod_of_lt id.threadIdx.y hk
  simp only [row, Ids.lane, hd, hdiv, hmod, and_self]

theorem lane_col (ar : Ints) (k : Nat) (hd : id.blockDim.x = 16) (hx : id.threadIdx.x < 16) :
    col ar (id.lane (k * 16 + id.threadIdx.x)) = col ar id ∧
      (id.lane (k * 16 + id.threadIdx.x)).threadIdx.y = k := by
  obtain ⟨hdiv, hmod⟩ := div_mod_of_lt k hx
  simp only [col, Ids.lane, hd, hdiv, hmod, and_self]

/-- **The tiles sum up to the product.** -/
theorem loop_round [Arith F] (hpad : Padded F) (har : Tiled ar m) {bIndex : Nat → Nat → Nat}
    (hd : id.blockDim.x = 16) (hx : id.threadIdx.x < 16) (hrow : row ar id < dim m 0)
    (hcol : col ar id < dim m 1) :
    (loop (numTiles ar m) Arith.zero (Gpu.round ar m id bIndex) mem).1 =
      dotTo (dim m 2) (fun kk => mem 1 (ar.add (ar.mul (row ar id) (dim m 2)) kk))
        fun kk => mem 2 (bIndex kk (col ar id)) := by
  have hround : ∀ sum, ∀ t < (dim m 2 + 15) / 16, (Gpu.round ar m id bIndex sum t mem).1 =
      (List.range 16).foldl (fun sum k => Arith.add sum (Arith.mul
        (if t * 16 + k < dim m 2 then
          mem 1 (ar.add (ar.mul (row ar id) (dim m 2)) (t * 16 + k)) else Arith.zero)
        (if t * 16 + k < dim m 2 then mem 2 (bIndex (t * 16 + k) (col ar id))
          else Arith.zero))) sum := by
    intro sum t ht
    simp only [Gpu.round, bind_val, peers_run, loop_pure, pure_run]
    refine List.foldl_ext _ _ _ fun sum k hk => ?_
    rw [List.mem_range] at hk
    obtain ⟨hr, hk'⟩ : row ar (id.lane (id.threadIdx.y * 16 + k)) = row ar id ∧ _ :=
      lane_row ar hd hk
    obtain ⟨hc, hk''⟩ : col ar (id.lane (k * 16 + id.threadIdx.x)) = col ar id ∧ _ :=
      lane_col ar k hd hx
    simp only [tileA, tileB, hr, hk', hc, hk'', har.place t ht k hk, hrow, hcol, true_and, and_true]
    split <;> rfl
  rw [loop_val, har.count, ← foldl_padded hpad (n := (dim m 2 + 15) / 16 * 16) (by omega),
    ← foldl_tiles]
  exact List.foldl_ext _ _ _ fun sum t ht => hround sum t (List.mem_range.mp ht)

/-! ## One thread -/

theorem put_val [Arith F] (accumulate : Bool) (i : Nat) (sum : F) :
    (put accumulate i sum mem).1 =
      some ⟨3, i, if accumulate then Arith.add (mem 3 i) sum else sum⟩ := by
  unfold put
  cases accumulate <;> rfl

theorem matmulWith_val [Arith F] (hpad : Padded F) (har : Tiled ar m) {bIndex : Nat → Nat → Nat}
    {accumulate : Bool} (hd : id.blockDim.x = 16) (hx : id.threadIdx.x < 16) :
    (matmulWith ar m id bIndex accumulate mem).1 =
      if row ar id < dim m 0 ∧ col ar id < dim m 1 then
        let i := ar.add (ar.mul (row ar id) (dim m 1)) (col ar id)
        let sum := dotTo (dim m 2) (fun kk => mem 1 (ar.add (ar.mul (row ar id) (dim m 2)) kk))
          fun kk => mem 2 (bIndex kk (col ar id))
        some ⟨3, i, if accumulate then Arith.add (mem 3 i) sum else sum⟩
      else none := by
  rw [matmulWith, bind_val, bind_val]
  split
  · rename_i h
    rw [put_val, loop_round hpad har hd hx h.1 h.2]
  · rfl

theorem gemvWith_val [Arith F] {accumulate : Bool} :
    (gemvWith ar m id accumulate mem).1 =
      if col ar id < dim m 1 then
        let sum := dotTo (dim m 2) (mem 1) fun k => mem 2 (rowMajor ar m k (col ar id))
        some ⟨3, col ar id, if accumulate then Arith.add (mem 3 (col ar id)) sum else sum⟩
      else none := by
  unfold gemvWith
  split
  · rw [if_neg (Nat.not_lt.mpr ‹_›)]
    rfl
  · rw [if_pos (Nat.not_le.mp ‹_›), bind_val, put_val, loop_val]
    rfl

theorem transpose_val : (transpose (F := F) ar m id mem).1 =
    if row ar id < dim m 0 ∧ col ar id < dim m 1 then
      some ⟨2, ar.add (ar.mul (col ar id) (dim m 0)) (row ar id),
        mem 1 (ar.add (ar.mul (row ar id) (dim m 1)) (col ar id))⟩
    else none := by
  unfold transpose
  split
  · rw [if_neg (by omega)]
    rfl
  · rw [if_pos (by omega)]
    rfl

theorem binary_val (op : F → F → F) : (binary ar m id op mem).1 =
    if idx ar id < dim m 0 then
      some ⟨1, idx ar id, op (mem 1 (idx ar id)) (mem 2 (idx ar id))⟩
    else none := by
  rw [binary, each]
  split <;> rfl

/-! ## Counting exactly -/

namespace Builtin

/-- The builtins of the catalog's linear algebra that read no partials. -/
def isMatrix : Builtin → Bool
  | matmul | matmulAdd | matmulTrp | gemv | gemvAdd | transpose => true
  | _ => false

/-- The element a thread writes, where it counts exactly. -/
def target (b : Builtin) (m : List UInt32) (id : Ids) : Option Nat :=
  match b with
  | matmul | matmulAdd | matmulTrp =>
    if row .exact id < dim m 0 ∧ col .exact id < dim m 1 then
      some (row .exact id * dim m 1 + col .exact id)
    else none
  | gemv | gemvAdd => if col .exact id < dim m 1 then some (col .exact id) else none
  | transpose =>
    if row .exact id < dim m 0 ∧ col .exact id < dim m 1 then
      some (col .exact id * dim m 0 + row .exact id)
    else none
  | sum | dot => if id.threadIdx.x = 0 then some (group .exact id) else none
  | add | mul | scale | max | min | clamp | zeroTensor | fillConstant | fillRandom =>
    if idx .exact id < dim m 0 then some (idx .exact id) else none

end Builtin

theorem target_lt {b : Builtin} (hb : b.isReduction = false) {i : Nat}
    (h : b.target m id = some i) : i < b.owns m := by
  cases b with
  | matmul | matmulAdd | matmulTrp =>
    obtain ⟨⟨hr, hc⟩, h⟩ := Option.ite_none_right_eq_some.mp h
    cases h
    exact row_col_lt hr hc
  | transpose =>
    obtain ⟨⟨hr, hc⟩, h⟩ := Option.ite_none_right_eq_some.mp h
    cases h
    exact Nat.lt_of_lt_of_eq (row_col_lt hc hr) (Nat.mul_comm _ _)
  | sum | dot => cases hb
  | _ =>
    obtain ⟨hi, h⟩ := Option.ite_none_right_eq_some.mp h
    cases h
    exact hi

/-- **A thread that counts exactly writes what native code does.** -/
theorem entry_exact [Floats F] (hpad : Padded F) {b : Builtin} (hb : b.isMatrix = true ∨ b = .add)
    {wg : Workgroups} (hid : id ∈ grid b wg) :
    (Wgsl.entry .exact m id b mem).1 =
      (b.target m id).map fun i => ⟨b.out, i, b.value m mem i (mem b.out i)⟩ := by
  obtain ⟨-, hd, -, hthread⟩ := mem_grid.mp hid
  obtain ⟨hx, -⟩ := mem_places.mp hthread
  rw [hd] at hx
  cases b with
  | matmul | matmulAdd | matmulTrp =>
    refine (matmulWith_val hpad (tiled_exact m) (by rw [hd]; rfl) hx).trans ?_
    rw [Builtin.target]
    split
    · rename_i h
      obtain ⟨hdiv, hmod⟩ := div_mod_of_lt (row .exact id) h.2
      simp only [Option.map_some, Builtin.value, hdiv, hmod]
      rfl
    · rfl
  | gemv | gemvAdd =>
    refine gemvWith_val.trans ?_
    rw [Builtin.target]
    split <;> rfl
  | transpose =>
    refine transpose_val.trans ?_
    rw [Builtin.target]
    split
    · rename_i h
      obtain ⟨hdiv, hmod⟩ := div_mod_of_lt (col .exact id) h.1
      simp only [Option.map_some, Builtin.value, hdiv, hmod]
      rfl
    · rfl
  | add =>
    refine (binary_val Arith.add).trans ?_
    rw [Builtin.target]
    split <;> rfl
  | _ => rcases hb with hb | hb <;> cases hb

/-! ## A launch -/

/-- Every element that native code writes has a thread. -/
def Covers (b : Builtin) (m : List UInt32) (wg : Workgroups) : Prop :=
  ∀ i < b.owns m, ∃ id ∈ grid b wg, b.target m id = some i

/-- And only one. -/
def Once (b : Builtin) (m : List UInt32) (wg : Workgroups) : Prop :=
  ∀ i, ∀ id ∈ grid b wg, ∀ id' ∈ grid b wg, b.target m id = some i → b.target m id' = some i →
    id = id'

/-- The same elements as native code leaves. -/
def LeavesNative [Floats F] (b : Builtin) (m : List UInt32) (slots : List (Slot F))
    (mem : Memory F) : Prop :=
  ∃ ends, b.native m slots = .ok ends ∧ ∀ slot, 0 < slot → mem slot = elem ends slot

section Launch

variable [Floats F] {b : Builtin} {wg : Workgroups} {slots : List (Slot F)} {order : List Ids}

theorem value_others (hb : b.isMatrix = true ∨ b = .add) {x y : Nat → Nat → F}
    (h : ∀ slot, slot ≠ b.out → x slot = y slot) (i : Nat) (old : F) :
    b.value m x i old = b.value m y i old := by
  cases b with
  | matmul | matmulAdd | matmulTrp | gemv | gemvAdd =>
    simp only [Builtin.value, h 1 (by decide), h 2 (by decide)]
  | transpose => simp only [Builtin.value, h 1 (by decide)]
  | add => simp only [Builtin.value, h 2 (by decide)]
  | _ => rcases hb with hb | hb <;> cases hb

theorem elem_written (hs : Bound b m wg slots) {slot : Nat} (hslot : 0 < slot) (i : Nat) :
    elem (b.written m slots) slot i =
      if slot = b.out ∧ i < b.owns m then b.value m (elem slots) i (elem slots b.out i)
      else elem slots slot i := by
  have hpos : 0 < b.out := by cases b <;> decide
  by_cases heq : slot = b.out
  · subst heq
    obtain ⟨⟨role, hrole, -⟩, n, hn, hle⟩ := out_spec b m wg
    obtain ⟨old, hold, hfits⟩ := hs.exists_getElem?_left (i := b.out - 1) (a := (role, n))
      (List.getElem?_zip_eq_some.mpr ⟨hrole, hn⟩)
    obtain ⟨hlt, -⟩ := List.getElem?_eq_some_iff.mp hold
    have hwritten : elem (b.written m slots) b.out i =
        (fillTo (b.owns m) (b.value m (elem slots)) old.elems)[i]?.getD Arith.zero := by
      rw [elem, Builtin.written, List.getElem?_set_self hlt, hold]
      rfl
    have helem : elem slots b.out i = old.elems[i]?.getD Arith.zero := by
      rw [elem, hold]
      rfl
    rw [hwritten, helem]
    by_cases hi : i < b.owns m
    · have hlen : i < old.elems.length := Nat.lt_of_lt_of_le (Nat.lt_of_lt_of_le hi hle) hfits.2
      rw [getElem?_fillTo_of_lt hi, List.getElem?_eq_getElem hlen]
      simp [hi]
    · rw [getElem?_fillTo_of_le (Nat.not_lt.mp hi)]
      simp [hi]
  · have hne : b.out - 1 ≠ slot - 1 := by omega
    simp [elem, Builtin.written, List.getElem?_set_ne hne, heq]

/-- **A launch that covers leaves what native code does**, in whatever order its
threads run. -/
theorem launch_exact (hpad : Padded F) (hb : b.isMatrix = true ∨ b = .add) (hm : b.MetaOk m)
    (hs : Bound b m wg slots) (hcov : Covers b m wg) (hone : b.hasOutput = false → Once b m wg)
    (horder : order.Perm (grid b wg)) :
    LeavesNative b m slots
      (launch (fun id => Wgsl.entry .exact m id b) order (elem slots)) := by
  have hclamp : b ≠ .clamp := by
    rintro rfl
    rcases hb with hb | hb <;> cases hb
  have hred : b.isReduction = false := by
    cases b with
    | sum | dot => rcases hb with hb | hb <;> cases hb
    | _ => rfl
  refine ⟨_, native_eq hclamp hm hs, fun slot hslot => ?_⟩
  have hwrites : WritesTo (fun id => Wgsl.entry .exact m id b) b.out (b.target m)
      (fun _ i old => b.value m (elem slots) i old) (elem slots) order := by
    intro id hid mem' hmem'
    rw [entry_exact hpad hb (horder.mem_iff.mp hid)]
    simp only [value_others hb hmem']
  obtain ⟨hothers, hout⟩ := launch_eq hwrites
  funext i
  rw [elem_written hs hslot]
  by_cases heq : slot = b.out
  · subst heq
    rw [hout]
    by_cases hi : i < b.owns m
    · rw [if_pos ⟨rfl, hi⟩]
      obtain ⟨id, hid, ht⟩ := hcov i hi
      have hid' := horder.mem_iff.mpr hid
      cases houtput : b.hasOutput with
      | true =>
        exact through_overwrite hid' ht (fun _ _ _ old =>
          value_output houtput (fun _ _ _ => rfl) i old _) _
      | false =>
        refine through_once (horder.nodup_iff.mpr (nodup_grid b wg)) hid' ht
          (fun id' hmem ht' => ?_) _
        exact hone houtput i id' (horder.mem_iff.mp hmem) id hid ht' ht
    · rw [if_neg fun h => hi h.2]
      exact through_none (fun id _ ht => hi (target_lt hred ht)) _
  · rw [if_neg fun h => heq h.1, hothers slot heq]

end Launch

end Wilupgu.Builtins
