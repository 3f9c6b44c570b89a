import Wilupgu.Builtins.Table

/-! # What native code does

Each builtin changes the first elements of one slot, each to a value that
depends on its own old one and the other slots' elements, and leaves all else. -/

namespace Wilupgu.Builtins

open Backend Loops Native

variable {F : Type}

/-! ## What it's given -/

/-- A slot bound as its role says, with at least the elements it needs. -/
def Fits (need : BindingRole × Nat) (slot : Slot F) : Prop :=
  slot.isWrite = !need.1.isInput ∧ need.2 ≤ slot.elems.length

/-- The slots that `execute` lets through. -/
abbrev Bound (b : Builtin) (m : List UInt32) (wg : Workgroups) (slots : List (Slot F)) : Prop :=
  List.Forall₂ Fits (b.signature.layout.zip (b.minLens m wg)) slots

/-- Element `i` of slot `s`, counted from 1. -/
def elem [Arith F] (slots : List (Slot F)) (s i : Nat) : F :=
  ((slots[s - 1]?.map Slot.elems).getD [])[i]?.getD Arith.zero

/-! ## What it writes -/

/-- `sum_kk a[..] * b[..]`, from the left. -/
def dotTo [Arith F] (k : Nat) (a b : Nat → F) : F :=
  (List.range k).foldl (fun sum kk => Arith.add sum (Arith.mul (a kk) (b kk))) Arith.zero

namespace Builtin

/-- The slot it writes, counted from 1. -/
def out : Builtin → Nat
  | matmul | matmulAdd | matmulTrp | gemv | gemvAdd | dot => 3
  | transpose | sum => 2
  | add | mul | scale | max | min | clamp | zeroTensor | fillConstant | fillRandom => 1

/-- How many elements of it, from the first one on. -/
def owns (b : Builtin) (m : List UInt32) : Nat :=
  match b with
  | matmul | matmulAdd | matmulTrp => dim m 0 * dim m 1
  | gemv | gemvAdd => dim m 1
  | transpose => dim m 0 * dim m 1
  | dot | sum => 1
  | add | mul | scale | max | min | clamp | zeroTensor | fillConstant | fillRandom => dim m 0

/-- The value element `i` gets, from what it was and the slots' elements. -/
def value [Floats F] (b : Builtin) (m : List UInt32) (x : Nat → Nat → F) (i : Nat) (old : F) : F :=
  let (rows, cols, inner) := (dim m 0, dim m 1, dim m 2)
  let float (j : Nat) : F := Floats.ofBits (m[j]?.getD 0)
  match b with
  | matmul => dotTo inner (fun kk => x 1 (i / cols * inner + kk)) fun kk => x 2 (kk * cols + i % cols)
  | matmulAdd => Arith.add old <|
    dotTo inner (fun kk => x 1 (i / cols * inner + kk)) fun kk => x 2 (kk * cols + i % cols)
  | matmulTrp =>
    dotTo inner (fun kk => x 1 (i / cols * inner + kk)) fun kk => x 2 (i % cols * inner + kk)
  | gemv => dotTo inner (fun kk => x 1 kk) fun kk => x 2 (kk * cols + i)
  | gemvAdd => Arith.add old (dotTo inner (fun kk => x 1 kk) fun kk => x 2 (kk * cols + i))
  | transpose => x 1 (i % rows * cols + i / rows)
  | dot => sumF32 ((List.range rows).map fun j => Arith.mul (x 1 j) (x 2 j))
  | sum => sumF32 ((List.range rows).map fun j => x 1 j)
  | add => Arith.add old (x 2 i)
  | mul => Arith.mul old (x 2 i)
  | max => Floats.max old (x 2 i)
  | min => Floats.min old (x 2 i)
  | scale => Arith.mul old (float 1)
  | clamp =>
    let raised := if Floats.lt old (float 1) then float 1 else old
    if Floats.lt (float 2) raised then float 2 else raised
  | zeroTensor => Arith.zero
  | fillConstant => float 1
  | fillRandom => random (m[1]?.getD 0) i

/-- The slots after it ran. -/
def written [Floats F] (b : Builtin) (m : List UInt32) (slots : List (Slot F)) : List (Slot F) :=
  slots.set (b.out - 1) <| .Write <| fillTo (b.owns m) (b.value m (elem slots)) <|
    (slots[b.out - 1]?.map Slot.elems).getD []

end Builtin

/-! ## Reading and writing -/

theorem word_eq {m : List UInt32} {i : Nat} (h : i < m.length) : word m i = .ok (dim m i) := by
  rw [word, dim, List.getElem?_eq_getElem h]
  rfl

theorem expect_word {m : List UInt32} {i : Nat} (h : i < m.length) :
    (.expect m[i]? : Outcome Empty UInt32) = .ok (m[i]?.getD 0) := by
  rw [List.getElem?_eq_getElem h]
  rfl

theorem zipFirst_eq [Arith F] (op : F → F → F) {n : Nat} {x y : List F} (h : n ≤ y.length) :
    zipFirst op n x y = fillTo n (fun i v => op v (y[i]?.getD Arith.zero)) x := by
  induction n generalizing x y with
  | zero =>
    rw [fillTo_zero]
    rfl
  | succ n ih =>
    cases y with
    | nil => simp at h
    | cons v ys =>
      cases x with
      | nil => rfl
      | cons u xs =>
        rw [zipFirst, ih (by simpa using h), fillTo_succ_cons]
        rfl

/-- A loop over the first elements whose body doesn't panic. -/
theorem eachFirst_eq {f : Nat → F → Outcome Empty F} {g : Nat → F → F}
    (h : ∀ i v, f i v = .ok (g i v)) (n i : Nat) (x : List F) :
    eachFirst f n i x = .ok (fillTo n (fun j => g (i + j)) x) := by
  induction n generalizing i x with
  | zero =>
    rw [fillTo_zero]
    rfl
  | succ n ih =>
    cases x with
    | nil => rfl
    | cons v xs =>
      rw [eachFirst, h, Outcome.ok_bind, ih, fillTo_succ_cons]
      simp only [Outcome.ok_bind, Outcome.pure_def, Nat.add_zero, Nat.add_assoc, Nat.add_comm 1]

theorem sumProducts_eq [Arith F] {k : Nat} {a b : List F} {aIndex bIndex : Nat → Nat}
    (ha : ∀ kk < k, aIndex kk < a.length) (hb : ∀ kk < k, bIndex kk < b.length) :
    sumProducts k a b aIndex bIndex =
      .ok (dotTo k (fun kk => a[aIndex kk]?.getD Arith.zero)
        fun kk => b[bIndex kk]?.getD Arith.zero) := by
  refine forRange_foldl fun kk hk t => ?_
  rw [index_eq (ha kk hk) Arith.zero, index_eq (hb kk hk) Arith.zero]
  rfl

/-! ## What the slots are -/

theorem Fits.of_input {kind : DataKind} {n : Nat} {slot : Slot F} (h : Fits (.Input kind, n) slot) :
    ∃ x, slot = .Read x ∧ n ≤ x.length := by
  cases slot with
  | Read x => exact ⟨x, rfl, h.2⟩
  | Write x => cases h.1

theorem Fits.of_other {role : BindingRole} {n : Nat} {slot : Slot F} (h : Fits (role, n) slot)
    (hr : role.isInput = false) : ∃ x, slot = .Write x ∧ n ≤ x.length := by
  cases slot with
  | Read x =>
    have hw : false = !role.isInput := h.1
    rw [hr] at hw
    cases hw
  | Write x => exact ⟨x, rfl, h.2⟩

section Shapes

variable {slots : List (Slot F)} {kind kind' : DataKind} {role : BindingRole} {n n' n'' : Nat}

theorem bound_one (h : List.Forall₂ Fits [(role, n)] slots) (hr : role.isInput = false) :
    ∃ x, slots = [.Write x] ∧ n ≤ x.length := by
  obtain ⟨slot, rest, hf, hrest, rfl⟩ := List.forall₂_cons_left_iff.mp h
  obtain rfl := List.forall₂_nil_left_iff.mp hrest
  obtain ⟨x, rfl, hx⟩ := hf.of_other hr
  exact ⟨x, rfl, hx⟩

/-- An input, then the slot that is written. -/
theorem bound_in_out (h : List.Forall₂ Fits [(.Input kind, n), (role, n')] slots)
    (hr : role.isInput = false) :
    ∃ x y, slots = [.Read x, .Write y] ∧ n ≤ x.length ∧ n' ≤ y.length := by
  obtain ⟨slot, rest, hf, hrest, rfl⟩ := List.forall₂_cons_left_iff.mp h
  obtain ⟨x, rfl, hx⟩ := hf.of_input
  obtain ⟨y, rfl, hy⟩ := bound_one hrest hr
  exact ⟨x, y, rfl, hx, hy⟩

/-- The slot that is written, then an input. -/
theorem bound_out_in (h : List.Forall₂ Fits [(role, n), (.Input kind, n')] slots)
    (hr : role.isInput = false) :
    ∃ x y, slots = [.Write x, .Read y] ∧ n ≤ x.length ∧ n' ≤ y.length := by
  obtain ⟨slot, rest, hf, hrest, rfl⟩ := List.forall₂_cons_left_iff.mp h
  obtain ⟨x, rfl, hx⟩ := hf.of_other hr
  obtain ⟨slot', rest', hf', hrest', rfl⟩ := List.forall₂_cons_left_iff.mp hrest
  obtain rfl := List.forall₂_nil_left_iff.mp hrest'
  obtain ⟨y, rfl, hy⟩ := hf'.of_input
  exact ⟨x, y, rfl, hx, hy⟩

/-- Two inputs, then the slot that is written. -/
theorem bound_in_in_out
    (h : List.Forall₂ Fits [(.Input kind, n), (.Input kind', n'), (role, n'')] slots)
    (hr : role.isInput = false) :
    ∃ x y z, slots = [.Read x, .Read y, .Write z] ∧ n ≤ x.length ∧ n' ≤ y.length ∧
      n'' ≤ z.length := by
  obtain ⟨slot, rest, hf, hrest, rfl⟩ := List.forall₂_cons_left_iff.mp h
  obtain ⟨x, rfl, hx⟩ := hf.of_input
  obtain ⟨y, z, rfl, hy, hz⟩ := bound_in_out hrest hr
  exact ⟨x, y, z, rfl, hx, hy, hz⟩

end Shapes

/-! ## Each builtin -/

section Each

variable {m : List UInt32}

theorem inPlace_eq {f : Nat → F → Outcome Empty F} {g : Nat → F → F}
    (h : ∀ i v, f i v = .ok (g i v)) (n : Nat) (x : List F) :
    inPlace f n [.Write x] = .ok [.Write (fillTo n g x)] := by
  simp [inPlace, readF32, writeF32, eachFirst_eq h, Outcome.expect, Slot.elems]

theorem withOther_eq [Arith F] (op : F → F → F) (hm : 0 < m.length) {x y : List F}
    (hy : dim m 0 ≤ y.length) : withOther op m [.Write x, .Read y] =
      .ok [.Write (fillTo (dim m 0) (fun i v => op v (y[i]?.getD Arith.zero)) x), .Read y] := by
  simp [withOther, word_eq hm, readF32, writeF32, zipFirst_eq op hy, Outcome.expect, Slot.elems]

/-- An index of row `row` and column `col`, taken apart again. -/
theorem div_mod_of_lt {cols col : Nat} (row : Nat) (h : col < cols) :
    (row * cols + col) / cols = row ∧ (row * cols + col) % cols = col := by
  have hpos : 0 < cols := Nat.lt_of_le_of_lt (Nat.zero_le _) h
  constructor
  · rw [Nat.add_comm, Nat.add_mul_div_right _ _ hpos, Nat.div_eq_of_lt h, Nat.zero_add]
  · rw [Nat.add_comm, Nat.add_mul_mod_self_right, Nat.mod_eq_of_lt h]

/-- It is inside the matrix. -/
theorem row_col_lt {rows cols row col : Nat} (hr : row < rows) (hc : col < cols) :
    row * cols + col < rows * cols := by
  have hle : (row + 1) * cols ≤ rows * cols := Nat.mul_le_mul_right cols hr
  rw [Nat.add_mul] at hle
  omega

/-- A matrix is as long as its elements, all in rows and columns. -/
theorem exists_row_col {rows cols i : Nat} (h : i < rows * cols) :
    ∃ r < rows, ∃ c < cols, i = r * cols + c := by
  have hpos : 0 < cols := Nat.pos_of_ne_zero fun h0 => by simp [h0] at h
  exact ⟨i / cols, Nat.div_lt_of_lt_mul (by rwa [Nat.mul_comm]), i % cols, Nat.mod_lt _ hpos,
    (Nat.div_add_mod' i cols).symm⟩

theorem matmulLoop_eq [Arith F] {rows cols inner : Nat} {a b c : List F} {bAt : Nat → Nat → Nat}
    {put : F → F → F} (ha : rows * inner ≤ a.length)
    (hb : ∀ kk < inner, ∀ col < cols, bAt kk col < b.length) (hc : rows * cols ≤ c.length) :
    (forRange rows c fun c row => forRange cols c fun c col => do
      let sum ← sumProducts inner a b (fun kk => row * inner + kk) (fun kk => bAt kk col)
      update c (row * cols + col) fun old => put old sum) =
    .ok (fillTo (rows * cols) (fun i old => put old <|
      dotTo inner (fun kk => a[i / cols * inner + kk]?.getD Arith.zero)
        fun kk => b[bAt kk (i % cols)]?.getD Arith.zero) c) := by
  generalize hg : (fun i old => put old <|
    dotTo inner (fun kk => a[i / cols * inner + kk]?.getD Arith.zero)
      fun kk => b[bAt kk (i % cols)]?.getD Arith.zero) = g
  refine forRange_eq (fun row => fillTo (row * cols) g c) (by simp [fillTo_zero]) fun row hrow => ?_
  rw [Nat.add_mul, Nat.one_mul]
  refine forRange_eq (fun col => fillTo (row * cols + col) g c) (by simp) fun col hcol => ?_
  obtain ⟨hdiv, hmod⟩ := div_mod_of_lt row hcol
  rw [sumProducts_eq (fun kk hk => Nat.lt_of_lt_of_le (row_col_lt hrow hk) ha)
    fun kk hk => hb kk hk col hcol, Outcome.ok_bind, ← Nat.add_assoc,
    ← update_fillTo (Nat.lt_of_lt_of_le (row_col_lt hrow hcol) hc), ← hg]
  simp only [hdiv, hmod]

theorem matmulWith_eq [Arith F] {bIndex : Nat → Nat → Nat → Nat → Nat} {put : F → F → F}
    (hm : m.length = 3) {a b c : List F} (ha : dim m 0 * dim m 2 ≤ a.length)
    (hb : ∀ kk < dim m 2, ∀ col < dim m 1, bIndex (dim m 1) (dim m 2) kk col < b.length)
    (hc : dim m 0 * dim m 1 ≤ c.length) :
    matmulWith bIndex put m [.Read a, .Read b, .Write c] =
      .ok [.Read a, .Read b, .Write (fillTo (dim m 0 * dim m 1) (fun i old => put old <|
        dotTo (dim m 2) (fun kk => a[i / dim m 1 * dim m 2 + kk]?.getD Arith.zero)
          fun kk => b[bIndex (dim m 1) (dim m 2) kk (i % dim m 1)]?.getD Arith.zero) c)] := by
  simp [matmulWith, word_eq (show 0 < m.length by omega), word_eq (show 1 < m.length by omega),
    word_eq (show 2 < m.length by omega), readF32, writeF32, Outcome.expect, Slot.elems,
    matmulLoop_eq ha hb hc]

theorem gemvWith_eq [Arith F] {put : F → F → F} (hm : m.length = 3) {a b c : List F}
    (ha : dim m 2 ≤ a.length) (hb : dim m 2 * dim m 1 ≤ b.length) (hc : dim m 1 ≤ c.length) :
    gemvWith put m [.Read a, .Read b, .Write c] =
      .ok [.Read a, .Read b, .Write (fillTo (dim m 1) (fun i old => put old <|
        dotTo (dim m 2) (fun kk => a[kk]?.getD Arith.zero)
          fun kk => b[kk * dim m 1 + i]?.getD Arith.zero) c)] := by
  have hloop : (forRange (dim m 1) c fun c col => do
      let sum ← sumProducts (dim m 2) a b (fun kk => kk) (fun kk => kk * dim m 1 + col)
      update c col fun old => put old sum) =
      .ok (fillTo (dim m 1) (fun i old => put old <|
        dotTo (dim m 2) (fun kk => a[kk]?.getD Arith.zero)
          fun kk => b[kk * dim m 1 + i]?.getD Arith.zero) c) := by
    refine forRange_eq (fun col => fillTo col _ c) (fillTo_zero _ _) fun col hcol => ?_
    rw [sumProducts_eq (fun kk hk => Nat.lt_of_lt_of_le hk ha)
      fun kk hk => Nat.lt_of_lt_of_le (row_col_lt hk hcol) hb, Outcome.ok_bind]
    exact update_fillTo (Nat.lt_of_lt_of_le hcol hc)
  simp [gemvWith, word_eq (show 1 < m.length by omega), word_eq (show 2 < m.length by omega),
    readF32, writeF32, Outcome.expect, Slot.elems, hloop]

/-- The elements written before row `r`, column `c` of the source. -/
def transposed (rows cols r c i : Nat) : Bool :=
  i < rows * cols && (i % rows < r || (i % rows == r && i / rows < c))

theorem transposed_step {rows cols r c : Nat} (hr : r < rows) (hc : c < cols) (i : Nat) :
    transposed rows cols r (c + 1) i = (transposed rows cols r c i || i == c * rows + r) := by
  obtain ⟨hdiv, hmod⟩ := div_mod_of_lt c hr
  rw [Bool.eq_iff_iff]
  simp only [transposed, Bool.and_eq_true, Bool.or_eq_true, decide_eq_true_eq, beq_iff_eq]
  constructor
  · intro h
    by_cases he : i % rows = r ∧ i / rows = c
    · right
      rw [← he.1, ← he.2]
      exact (Nat.div_add_mod' i rows).symm
    · left
      omega
  · intro h
    rcases h with h | rfl
    · omega
    · refine ⟨?_, .inr ⟨hmod, by omega⟩⟩
      rw [Nat.mul_comm rows cols]
      exact row_col_lt hc hr

/-- At the end of a row of the source the next one begins. -/
theorem transposed_row {rows cols : Nat} (r i : Nat) :
    transposed rows cols (r + 1) 0 i = transposed rows cols r cols i := by
  rw [Bool.eq_iff_iff]
  simp only [transposed, Bool.and_eq_true, Bool.or_eq_true, decide_eq_true_eq, beq_iff_eq]
  refine and_congr_right fun hi => ?_
  have hc : i / rows < cols := Nat.div_lt_of_lt_mul hi
  generalize i / rows = q at hc ⊢
  omega

theorem transposed_start (rows cols i : Nat) : transposed rows cols 0 0 i = false := by
  simp [transposed]

/-- After the last row all elements are written. -/
theorem transposed_end (rows cols i : Nat) :
    transposed rows cols rows 0 i = decide (i < rows * cols) := by
  rw [Bool.eq_iff_iff]
  simp only [transposed, Bool.and_eq_true, Bool.or_eq_true, decide_eq_true_eq, beq_iff_eq]
  refine ⟨And.left, fun hi => ⟨hi, .inl (Nat.mod_lt _ ?_)⟩⟩
  exact Nat.pos_of_ne_zero fun h0 => by simp [h0] at hi

theorem transposeLoop_eq {rows cols : Nat} {src dst : List F} (d : F)
    (hs : rows * cols ≤ src.length) (hd : rows * cols ≤ dst.length) :
    (forRange rows dst fun dst r => forRange cols dst fun dst c => do
      let v ← index src (r * cols + c)
      update dst (c * rows + r) fun _ => v : Outcome Empty (List F)) =
    .ok (fillTo (rows * cols) (fun i _ => src[i % rows * cols + i / rows]?.getD d) dst) := by
  generalize hg : (fun (i : Nat) (_ : F) => src[i % rows * cols + i / rows]?.getD d) = g
  refine (forRange_eq (fun r => fillOn (transposed rows cols r 0) g dst) ?_ ?_).trans
    (congrArg Outcome.ok (fillOn_congr fun i _ => transposed_end rows cols i))
  · exact (fillOn_congr fun i _ => transposed_start rows cols i).trans (fillOn_false dst)
  · intro r hr
    have hrow : fillOn (transposed rows cols (r + 1) 0) g dst =
        fillOn (transposed rows cols r cols) g dst := fillOn_congr fun i _ => transposed_row r i
    rw [hrow]
    refine forRange_eq (fun c => fillOn (transposed rows cols r c) g dst) rfl fun c hc => ?_
    obtain ⟨hdiv, hmod⟩ := div_mod_of_lt c hr
    have hnew : transposed rows cols r c (c * rows + r) = false := by
      simp [transposed, hdiv, hmod]
    have hlt : c * rows + r < dst.length := by
      refine Nat.lt_of_lt_of_le ?_ hd
      rw [Nat.mul_comm rows cols]
      exact row_col_lt hc hr
    rw [index_eq (Nat.lt_of_lt_of_le (row_col_lt hr hc) hs) d, Outcome.ok_bind,
      ← update_fillOn hlt hnew (transposed_step hr hc), ← hg]
    simp only [hdiv, hmod]

theorem transpose_eq [Arith F] (hm : m.length = 2) {src dst : List F}
    (hs : dim m 0 * dim m 1 ≤ src.length) (hd : dim m 0 * dim m 1 ≤ dst.length) :
    Native.transpose m [.Read src, .Write dst] =
      .ok [.Read src, .Write (fillTo (dim m 0 * dim m 1)
        (fun i _ => src[i % dim m 0 * dim m 1 + i / dim m 0]?.getD Arith.zero) dst)] := by
  simp [Native.transpose, word_eq (show 0 < m.length by omega),
    word_eq (show 1 < m.length by omega), readF32, writeF32, Outcome.expect, Slot.elems,
    transposeLoop_eq Arith.zero hs hd]

theorem take_eq_map {n : Nat} {x : List F} (h : n ≤ x.length) (d : F) :
    x.take n = (List.range n).map fun j => x[j]?.getD d := by
  refine List.ext_getElem (by simpa using h) fun i hi _ => ?_
  have hn : i < n := by simp at hi; omega
  simp [List.getElem?_eq_getElem (Nat.lt_of_lt_of_le hn h)]

theorem partials_pos (wg : Workgroups) : 0 < partials wg :=
  Nat.lt_of_lt_of_le Nat.one_pos (Nat.le_max_right _ _)

theorem update_first {x : List F} (h : 0 < x.length) (v : F) :
    (update x 0 fun _ => v : Outcome Empty (List F)) = .ok (fillTo 1 (fun _ _ => v) x) := by
  have hstep : (update (fillTo 0 (fun _ _ => v) x) 0 fun _ => v : Outcome Empty (List F)) = _ :=
    update_fillTo h
  rwa [fillTo_zero] at hstep

theorem sum_eq [Floats F] (hm : m.length = 1) {x part : List F} (hx : dim m 0 ≤ x.length)
    (hp : 0 < part.length) : Native.sum m [.Read x, .Write part] =
      .ok [.Read x, .Write (fillTo 1 (fun _ _ =>
        sumF32 ((List.range (dim m 0)).map fun j => x[j]?.getD Arith.zero)) part)] := by
  simp [Native.sum, word_eq (show 0 < m.length by omega), readF32, writeF32, Outcome.expect,
    Slot.elems, slice_eq hx, update_first hp, take_eq_map hx Arith.zero]

theorem dot_eq [Floats F] (hm : m.length = 1) {a b part : List F} (ha : dim m 0 ≤ a.length)
    (hb : dim m 0 ≤ b.length) (hp : 0 < part.length) :
    Native.dot m [.Read a, .Read b, .Write part] =
      .ok [.Read a, .Read b, .Write (fillTo 1 (fun _ _ =>
        sumF32 ((List.range (dim m 0)).map fun j =>
          Arith.mul (a[j]?.getD Arith.zero) (b[j]?.getD Arith.zero))) part)] := by
  have hzip : List.zipWith Arith.mul (a.take (dim m 0)) (b.take (dim m 0)) =
      (List.range (dim m 0)).map fun j =>
        Arith.mul (a[j]?.getD Arith.zero) (b[j]?.getD Arith.zero) := by
    rw [take_eq_map ha Arith.zero, take_eq_map hb Arith.zero, List.zipWith_map, List.zipWith_self]
  simp [Native.dot, word_eq (show 0 < m.length by omega), readF32, writeF32, Outcome.expect,
    Slot.elems, slice_eq ha, slice_eq hb, update_first hp, hzip]

variable {wg : Workgroups} {slots : List (Slot F)}

/-- **What each builtin's native code does** with the slots that it may get. -/
theorem native_eq [Floats F] {b : Builtin} (hb : b ≠ .clamp) (hm : b.MetaOk m)
    (hs : Bound b m wg slots) : b.native m slots = .ok (b.written m slots) := by
  cases b with
  | clamp => exact absurd rfl hb
  | matmul =>
    obtain ⟨x, y, z, rfl, hx, hy, hz⟩ := bound_in_in_out hs rfl
    exact matmulWith_eq hm hx (fun kk hk col hc => Nat.lt_of_lt_of_le (row_col_lt hk hc) hy) hz
  | matmulAdd =>
    obtain ⟨x, y, z, rfl, hx, hy, hz⟩ := bound_in_in_out hs rfl
    exact matmulWith_eq hm hx (fun kk hk col hc => Nat.lt_of_lt_of_le (row_col_lt hk hc) hy) hz
  | matmulTrp =>
    obtain ⟨x, y, z, rfl, hx, hy, hz⟩ := bound_in_in_out hs rfl
    refine matmulWith_eq hm hx (fun kk hk col hc => Nat.lt_of_lt_of_le ?_ hy) hz
    rw [Nat.mul_comm]
    exact row_col_lt hc hk
  | gemv =>
    obtain ⟨x, y, z, rfl, hx, hy, hz⟩ := bound_in_in_out hs rfl
    exact gemvWith_eq hm hx hy hz
  | gemvAdd =>
    obtain ⟨x, y, z, rfl, hx, hy, hz⟩ := bound_in_in_out hs rfl
    exact gemvWith_eq hm hx hy hz
  | transpose =>
    obtain ⟨x, y, rfl, hx, hy⟩ := bound_in_out hs rfl
    exact transpose_eq hm hx hy
  | dot =>
    obtain ⟨x, y, z, rfl, hx, hy, hz⟩ := bound_in_in_out hs rfl
    exact dot_eq hm hx hy (Nat.lt_of_lt_of_le (partials_pos wg) hz)
  | sum =>
    obtain ⟨x, y, rfl, hx, hy⟩ := bound_in_out hs rfl
    exact sum_eq hm hx (Nat.lt_of_lt_of_le (partials_pos wg) hy)
  | add | mul | max | min =>
    obtain ⟨x, y, rfl, -, hy⟩ := bound_out_in hs rfl
    exact withOther_eq _ (hm ▸ Nat.one_pos) hy
  | scale =>
    obtain ⟨x, rfl, -⟩ := bound_one hs rfl
    rw [Builtin.native, Native.scale, word_eq (hm ▸ Nat.two_pos), Outcome.ok_bind,
      expect_word (hm ▸ Nat.one_lt_two), Outcome.ok_bind]
    exact inPlace_eq (fun _ _ => rfl) _ x
  | zeroTensor =>
    obtain ⟨x, rfl, -⟩ := bound_one hs rfl
    rw [Builtin.native, Native.zeroTensor, word_eq (hm ▸ Nat.one_pos), Outcome.ok_bind]
    exact inPlace_eq (fun _ _ => rfl) _ x
  | fillConstant =>
    obtain ⟨x, rfl, -⟩ := bound_one hs rfl
    rw [Builtin.native, Native.fillConstant, word_eq (hm ▸ Nat.two_pos), Outcome.ok_bind,
      expect_word (hm ▸ Nat.one_lt_two), Outcome.ok_bind]
    exact inPlace_eq (fun _ _ => rfl) _ x
  | fillRandom =>
    obtain ⟨x, rfl, -⟩ := bound_one hs rfl
    rw [Builtin.native, Native.fillRandom, word_eq (hm ▸ Nat.two_pos), Outcome.ok_bind,
      expect_word (hm ▸ Nat.one_lt_two), Outcome.ok_bind]
    exact inPlace_eq (fun _ _ => rfl) _ x

/-- A loop whose body always panics returns only if it has no round. -/
theorem eachFirst_panic (g : Nat → F → F) (n i : Nat) (x : List F) :
    eachFirst (fun _ _ => .panic) n i x = .ok (fillTo n g x) ∨
      eachFirst (fun _ _ => .panic) n i x = .panic := by
  cases n with
  | zero =>
    rw [fillTo_zero]
    exact .inl rfl
  | succ n =>
    cases x with
    | nil => exact .inl rfl
    | cons v xs => exact .inr rfl

/-- `clamp` panics where its bounds are out of order and it has an element to
clamp, before it has written any. -/
theorem clamp_cases [Floats F] (hm : Builtin.clamp.MetaOk m) (hs : Bound .clamp m wg slots) :
    Builtin.clamp.native m slots = .ok (Builtin.clamp.written m slots) ∨
      Builtin.clamp.native m slots = .panic := by
  obtain ⟨x, rfl, hx⟩ := bound_one hs rfl
  have h1 : 1 < m.length := hm ▸ by decide
  have h2 : 2 < m.length := hm ▸ by decide
  rw [Builtin.native, Native.clamp, word_eq (hm ▸ by decide), Outcome.ok_bind, expect_word h1,
    Outcome.ok_bind, expect_word h2, Outcome.ok_bind]
  by_cases hle : Floats.le (Floats.ofBits (m[1]?.getD 0) : F) (Floats.ofBits (m[2]?.getD 0))
  · refine .inl (inPlace_eq (fun i v => ?_) _ x)
    rw [clampF32, if_pos hle]
    rfl
  · have hbody : (fun (_ : Nat) (v : F) => clampF32 v (Floats.ofBits (m[1]?.getD 0))
        (Floats.ofBits (m[2]?.getD 0))) = fun _ _ => .panic := by
      funext i v
      rw [clampF32, if_neg hle]
    simp only [hbody]
    rcases eachFirst_panic (Builtin.clamp.value m (elem [.Write x])) (dim m 0) 0 x with he | he
    · refine .inl ?_
      simp [inPlace, readF32, writeF32, Outcome.expect, Slot.elems, he, Builtin.written,
        Builtin.out, Builtin.owns]
    · refine .inr ?_
      simp [inPlace, readF32, Outcome.expect, Slot.elems, he]

/-- What a run that returns did. -/
theorem native_ok [Floats F] {b : Builtin} (hm : b.MetaOk m) (hs : Bound b m wg slots)
    {ends : List (Slot F)} (h : b.native m slots = .ok ends) : ends = b.written m slots := by
  by_cases hb : b = .clamp
  · subst hb
    rcases clamp_cases hm hs with he | he <;> rw [h] at he
    · exact Outcome.ok.inj he
    · cases he
  · exact Outcome.ok.inj (h.symm.trans (native_eq hb hm hs))

end Each

end Wilupgu.Builtins
