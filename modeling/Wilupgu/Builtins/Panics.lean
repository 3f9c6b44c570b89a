import Wilupgu.Builtins.Shaders
import Wilupgu.Safe.Checked
import Wilupgu.Safe.Sizes

/-! # When native code panics

Native code panics where it indexes past the end of a slot, and `clamp` also
where its bounds are out of order. The first doesn't happen to tensors whose
buffers hold them: `execute` checks that they are as long as the loops go. -/

namespace Wilupgu.Builtins

open Backend Backends Loops Native

/-! ## What the loops index -/

namespace Builtin

/-- Where `B`'s element is. -/
def bAt : Builtin → Nat → Nat → Nat → Nat → Nat
  | matmulTrp => Native.colMajor
  | _ => Native.rowMajor

/-- Element `i` of this slot is indexed, or in a part that is sliced off. -/
def Indexes (b : Builtin) (m : List UInt32) (slot i : Nat) : Prop :=
  let (M, N, K) := (dim m 0, dim m 1, dim m 2)
  match b with
  | matmul | matmulAdd | matmulTrp => ∃ row < M, ∃ col < N,
      (∃ kk < K, slot = 1 ∧ i = row * K + kk ∨ slot = 2 ∧ i = b.bAt N K kk col) ∨
        slot = 3 ∧ i = row * N + col
  | gemv | gemvAdd => ∃ col < N,
      (∃ kk < K, slot = 1 ∧ i = kk ∨ slot = 2 ∧ i = kk * N + col) ∨ slot = 3 ∧ i = col
  | transpose => ∃ r < M, ∃ c < N, slot = 1 ∧ i = r * N + c ∨ slot = 2 ∧ i = c * M + r
  | dot => (slot = 1 ∨ slot = 2) ∧ i < M ∨ slot = 3 ∧ i = 0
  | sum => slot = 1 ∧ i < M ∨ slot = 2 ∧ i = 0
  | _ => False

/-- Every slot, of these lengths, goes as far as it's indexed. -/
def InRange (b : Builtin) (m : List UInt32) (len : Nat → Nat) : Prop :=
  ∀ slot i, b.Indexes m slot i → i < len slot

/-- `clamp`'s bounds are in order, if it has an element to clamp. -/
def Ordered (F : Type) [Floats F] (b : Builtin) (m : List UInt32) (len : Nat → Nat) : Prop :=
  b = clamp → 0 < dim m 0 → 0 < len 1 →
    Floats.le (Floats.ofBits (m[1]?.getD 0) : F) (Floats.ofBits (m[2]?.getD 0)) = true

/-- A slot for each role, of any length. -/
abbrev Shaped {F : Type} (b : Builtin) (slots : List (Slot F)) : Prop :=
  List.Forall₂ Fits (b.signature.layout.map fun role => (role, 0)) slots

end Builtin

/-- The elements of slot `slot`, counted from 1. -/
def slotLen {F : Type} (slots : List (Slot F)) (slot : Nat) : Nat :=
  ((slots[slot - 1]?.map Slot.elems).getD []).length

variable {F : Type} {m : List UInt32} {slots : List (Slot F)} {b : Builtin}

/-! ## The loops -/

theorem isOk_sumProducts [Arith F] {k : Nat} {x y : List F} {xIndex yIndex : Nat → Nat} :
    (sumProducts k x y xIndex yIndex).isOk = true ↔
      ∀ kk < k, xIndex kk < x.length ∧ yIndex kk < y.length := by
  refine isOk_forRange (I := fun _ => True) trivial (fun _ _ _ _ _ _ => trivial) fun kk _ sum _ => ?_
  rw [Outcome.isOk_bind_of (Q := yIndex kk < y.length), isOk_index]
  intro v
  rw [Outcome.isOk_bind_of (Q := True), isOk_index, and_true]
  exact fun _ => iff_of_true rfl trivial

/-- A loop that sums up and then puts the sum into `c`. -/
theorem isOk_putSums [Arith F] {n k : Nat} {x y c : List F} (xIndex yIndex : Nat → Nat → Nat)
    (cIndex : Nat → Nat) (put : F → F → F) :
    (forRange n c fun c col => do
      let sum ← sumProducts k x y (xIndex col) (yIndex col)
      update c (cIndex col) fun old => put old sum).isOk = true ↔
    ∀ col < n, (∀ kk < k, xIndex col kk < x.length ∧ yIndex col kk < y.length) ∧
      cIndex col < c.length := by
  refine isOk_forRange (I := fun c' => c'.length = c.length) rfl ?_ fun col _ c' hc => ?_
  · intro col _ c' t hc h
    obtain ⟨sum, -, h⟩ := Outcome.bind_eq_ok.mp h
    exact (length_of_update h).trans hc
  · rw [Outcome.isOk_bind_of (Q := cIndex col < c.length), isOk_sumProducts]
    intro sum
    rw [isOk_update, hc]

theorem length_putSums [Arith F] {n k : Nat} {x y c c' : List F} (xIndex yIndex : Nat → Nat → Nat)
    (cIndex : Nat → Nat) (put : F → F → F)
    (h : (forRange n c fun c col => do
      let sum ← sumProducts k x y (xIndex col) (yIndex col)
      update c (cIndex col) fun old => put old sum) = .ok c') : c'.length = c.length := by
  refine forRange_keeps (I := fun c' => c'.length = c.length) ?_ rfl h
  intro col _ c' t hc h
  obtain ⟨sum, -, h⟩ := Outcome.bind_eq_ok.mp h
  exact (length_of_update h).trans hc

theorem isOk_matmulLoop [Arith F] {rows cols inner : Nat} {x y c : List F} {bAt : Nat → Nat → Nat}
    (put : F → F → F) :
    (forRange rows c fun c row => forRange cols c fun c col => do
      let sum ← sumProducts inner x y (fun kk => row * inner + kk) (fun kk => bAt kk col)
      update c (row * cols + col) fun old => put old sum).isOk = true ↔
    ∀ row < rows, ∀ col < cols,
      (∀ kk < inner, row * inner + kk < x.length ∧ bAt kk col < y.length) ∧
        row * cols + col < c.length := by
  refine isOk_forRange (I := fun c' => c'.length = c.length) rfl ?_ fun row _ c' hc => ?_
  · exact fun row _ c' t hc h => (length_putSums (fun _ kk => row * inner + kk)
      (fun col kk => bAt kk col) (fun col => row * cols + col) put h).trans hc
  · rw [isOk_putSums (fun _ kk => row * inner + kk) (fun col kk => bAt kk col)
      (fun col => row * cols + col) put, hc]

theorem length_matmulLoop [Arith F] {rows cols inner : Nat} {x y c c' : List F}
    {bAt : Nat → Nat → Nat} {put : F → F → F}
    (h : (forRange rows c fun c row => forRange cols c fun c col => do
      let sum ← sumProducts inner x y (fun kk => row * inner + kk) (fun kk => bAt kk col)
      update c (row * cols + col) fun old => put old sum) = .ok c') : c'.length = c.length := by
  refine forRange_keeps (I := fun c' => c'.length = c.length) ?_ rfl h
  exact fun row _ c' t hc h => (length_putSums (fun _ kk => row * inner + kk)
    (fun col kk => bAt kk col) (fun col => row * cols + col) put h).trans hc

/-! ## Each builtin -/

/-- Writing back a list as long as the slot. -/
theorem isOk_writeF32 {s : Nat} {x data : List F} (hs : slots[s - 1]? = some (.Write x))
    (hlen : data.length = x.length) : (writeF32 slots s data).isOk = true := by
  simp [writeF32, Outcome.expect, hs, hlen, Outcome.isOk]

theorem isOk_matmulWith [Arith F] {bIndex : Nat → Nat → Nat → Nat → Nat} {put : F → F → F}
    (hm : m.length = 3) {x y c : List F} :
    (matmulWith bIndex put m [.Read x, .Read y, .Write c]).isOk = true ↔
      ∀ row < dim m 0, ∀ col < dim m 1,
        (∀ kk < dim m 2, row * dim m 2 + kk < x.length ∧
          bIndex (dim m 1) (dim m 2) kk col < y.length) ∧ row * dim m 1 + col < c.length := by
  rw [← isOk_matmulLoop put]
  simp only [matmulWith, word_eq (show 0 < m.length by omega), word_eq (show 1 < m.length by omega),
    word_eq (show 2 < m.length by omega), readF32, Outcome.expect, Outcome.ok_bind, Slot.elems]
  exact Outcome.isOk_bind_ok fun c' hc' => isOk_writeF32 rfl (length_matmulLoop hc')

theorem isOk_gemvWith [Arith F] {put : F → F → F} (hm : m.length = 3) {x y c : List F} :
    (gemvWith put m [.Read x, .Read y, .Write c]).isOk = true ↔
      ∀ col < dim m 1, (∀ kk < dim m 2, kk < x.length ∧ kk * dim m 1 + col < y.length) ∧
        col < c.length := by
  rw [← isOk_putSums (fun _ kk => kk) (fun col kk => kk * dim m 1 + col) (fun col => col) put]
  simp only [gemvWith, word_eq (show 1 < m.length by omega), word_eq (show 2 < m.length by omega),
    readF32, Outcome.expect, Outcome.ok_bind, Slot.elems]
  exact Outcome.isOk_bind_ok fun c' hc' => isOk_writeF32 rfl (length_putSums (fun _ kk => kk)
    (fun col kk => kk * dim m 1 + col) (fun col => col) put hc')

theorem isOk_transpose (hm : m.length = 2) {x y : List F} :
    (transpose m [.Read x, .Write y]).isOk = true ↔
      ∀ r < dim m 0, ∀ c < dim m 1, r * dim m 1 + c < x.length ∧ c * dim m 0 + r < y.length := by
  have hkeeps : ∀ r c (dst t : List F), dst.length = y.length →
      (do let v ← index x (r * dim m 1 + c)
          update dst (c * dim m 0 + r) fun _ => v : Outcome Empty (List F)) = .ok t →
        t.length = y.length := by
    intro r c dst t hdst h
    obtain ⟨v, -, h⟩ := Outcome.bind_eq_ok.mp h
    exact (length_of_update h).trans hdst
  have hloop : ∀ dst : List F, dst.length = y.length → ∀ r,
      (forRange (dim m 1) dst fun dst c => do
        let v ← index x (r * dim m 1 + c)
        update dst (c * dim m 0 + r) fun _ => v : Outcome Empty (List F)).isOk = true ↔
      ∀ c < dim m 1, r * dim m 1 + c < x.length ∧ c * dim m 0 + r < y.length := by
    intro dst hdst r
    refine isOk_forRange (I := fun t => t.length = y.length) hdst
      (fun c _ dst t hd h => hkeeps r c dst t hd h) fun c _ t ht => ?_
    rw [Outcome.isOk_bind_of (Q := c * dim m 0 + r < y.length), isOk_index]
    intro v
    rw [isOk_update, ht]
  have hrow : ∀ r (dst t : List F), dst.length = y.length →
      (forRange (dim m 1) dst fun dst c => do
        let v ← index x (r * dim m 1 + c)
        update dst (c * dim m 0 + r) fun _ => v : Outcome Empty (List F)) = .ok t →
      t.length = y.length := fun r dst t hd h =>
    forRange_keeps (I := fun t => t.length = y.length)
      (fun c _ dst t hd h => hkeeps r c dst t hd h) hd h
  simp only [transpose, word_eq (show 0 < m.length by omega), word_eq (show 1 < m.length by omega),
    readF32, Outcome.expect, Outcome.ok_bind, Slot.elems]
  refine (Outcome.isOk_bind_ok fun t ht => isOk_writeF32 rfl ?_).trans ?_
  · exact forRange_keeps (I := fun t => t.length = y.length)
      (fun r _ dst t hd h => hrow r dst t hd h) rfl ht
  · exact isOk_forRange (I := fun t => t.length = y.length) rfl
      (fun r _ dst t hd h => hrow r dst t hd h) fun r _ dst hd => hloop dst hd r

theorem isOk_withOther {op : F → F → F} (hm : 0 < m.length) {x y : List F} :
    (withOther op m [.Write x, .Read y]).isOk = true := by
  have hlen : ∀ n (x y : List F), (zipFirst op n x y).length = x.length := by
    intro n
    induction n with
    | zero => exact fun _ _ => rfl
    | succ n ih =>
      intro x y
      cases x with
      | nil => rfl
      | cons u xs =>
        cases y with
        | nil => rfl
        | cons v ys => rw [zipFirst, List.length_cons, ih, List.length_cons]
  simp only [withOther, word_eq hm, readF32, Outcome.expect, Outcome.ok_bind, Slot.elems]
  have hslot : ([.Write x, .Read y] : List (Slot F))[1 - 1]? = some (.Write x) := rfl
  exact isOk_writeF32 hslot (hlen _ _ _)

theorem isOk_inPlace {f : Nat → F → Outcome Empty F} {n : Nat} {x : List F} {P : Prop}
    (hf : ∀ i v, (f i v).isOk = true ↔ P) :
    (inPlace f n [.Write x]).isOk = true ↔ (0 < n → 0 < x.length → P) := by
  have heach : ∀ n i (x : List F),
      ((eachFirst f n i x).isOk = true ↔ (0 < n → 0 < x.length → P)) ∧
        ∀ x', eachFirst f n i x = .ok x' → x'.length = x.length := by
    intro n
    induction n with
    | zero => exact fun i x => ⟨by simp [eachFirst, Outcome.isOk], fun x' h => by cases h; rfl⟩
    | succ n ih =>
      intro i x
      cases x with
      | nil => exact ⟨by simp [eachFirst, Outcome.isOk], fun x' h => by cases h; rfl⟩
      | cons v xs =>
        obtain ⟨hok, hlen⟩ := ih (i + 1) xs
        refine ⟨?_, fun x' h => ?_⟩
        · rw [eachFirst, Outcome.isOk_bind_of (Q := 0 < n → 0 < xs.length → P), hf]
          · simp only [List.length_cons, Nat.succ_pos, forall_const]
            exact ⟨And.left, fun hP => ⟨hP, fun _ _ => hP⟩⟩
          · intro u
            rw [Outcome.isOk_bind_ok fun _ _ => rfl, hok]
        · rw [eachFirst, Outcome.bind_eq_ok] at h
          obtain ⟨u, -, h⟩ := h
          obtain ⟨us, hus, h⟩ := Outcome.bind_eq_ok.mp h
          cases h
          rw [List.length_cons, hlen us hus, List.length_cons]
  obtain ⟨hok, hlen⟩ := heach n 0 x
  rw [← hok]
  simp only [inPlace, readF32, Outcome.expect, Outcome.pure_def, Slot.elems]
  exact Outcome.isOk_bind_ok fun x' hx' => isOk_writeF32 rfl (hlen x' hx')

theorem isOk_sum [Floats F] (hm : m.length = 1) {x part : List F} :
    (sum m [.Read x, .Write part]).isOk = true ↔ dim m 0 ≤ x.length ∧ 0 < part.length := by
  have h1 : readF32 [.Read x, .Write part] 1 = .ok x := rfl
  have h2 : readF32 [.Read x, .Write part] 2 = .ok part := rfl
  simp only [sum, word_eq (show 0 < m.length by omega), h1, h2, Outcome.ok_bind]
  refine (Outcome.isOk_bind_of fun x' => ?_).trans (and_congr_left fun _ => isOk_slice)
  refine (Outcome.isOk_bind_ok fun part' h => ?_).trans isOk_update
  exact isOk_writeF32 rfl (length_of_update h)

theorem isOk_dot [Floats F] (hm : m.length = 1) {x y part : List F} :
    (dot m [.Read x, .Read y, .Write part]).isOk = true ↔
      dim m 0 ≤ x.length ∧ dim m 0 ≤ y.length ∧ 0 < part.length := by
  have h1 : readF32 [.Read x, .Read y, .Write part] 1 = .ok x := rfl
  have h2 : readF32 [.Read x, .Read y, .Write part] 2 = .ok y := rfl
  have h3 : readF32 [.Read x, .Read y, .Write part] 3 = .ok part := rfl
  simp only [dot, word_eq (show 0 < m.length by omega), h1, h2, h3, Outcome.ok_bind]
  refine (Outcome.isOk_bind_of fun x' => ?_).trans (and_congr_left fun _ => isOk_slice)
  refine (Outcome.isOk_bind_of fun y' => ?_).trans (and_congr_left fun _ => isOk_slice)
  refine (Outcome.isOk_bind_ok fun part' h => ?_).trans isOk_update
  exact isOk_writeF32 rfl (length_of_update h)

section Builtins

variable [Floats F]

theorem isOk_clampF32 (v lo hi : F) :
    (clampF32 v lo hi).isOk = true ↔ Floats.le lo hi = true := by
  rw [clampF32]
  split <;> simp [Outcome.isOk, *]

/-- In place, each element for itself, nothing is indexed. -/
theorem isOk_each {f : Nat → F → Outcome Empty F} {n : Nat} {x : List F} {len : Nat → Nat}
    (hindex : b.Indexes m = fun _ _ => False) (hb : b ≠ .clamp)
    (hf : ∀ i v, (f i v).isOk = true) :
    (inPlace f n [.Write x]).isOk = true ↔ b.InRange m len ∧ b.Ordered F m len := by
  refine iff_of_true ?_ ⟨fun slot i hi => ?_, fun he => absurd he hb⟩
  · rw [isOk_inPlace (P := True) fun i v => iff_of_true (hf i v) trivial]
    exact fun _ _ => trivial
  · rw [hindex] at hi
    exact hi.elim

/-- **When native code returns**: its slots go as far as it indexes them, and
`clamp`'s bounds are in order. -/
theorem isOk_native_iff (hm : b.MetaOk m) (hs : b.Shaped slots) :
    (b.native m slots).isOk = true ↔
      b.InRange m (slotLen slots) ∧ b.Ordered F m (slotLen slots) := by
  cases b with
  | matmul | matmulAdd | matmulTrp =>
    obtain ⟨x, y, c, rfl, -, -, -⟩ := bound_in_in_out hs rfl
    refine (isOk_matmulWith hm).trans ⟨fun h => ⟨fun slot i hi => ?_, fun he => by cases he⟩, ?_⟩
    · obtain ⟨row, hrow, col, hcol, ⟨kk, hkk, ⟨rfl, rfl⟩ | ⟨rfl, rfl⟩⟩ | ⟨rfl, rfl⟩⟩ := hi
      · exact ((h row hrow col hcol).1 kk hkk).1
      · exact ((h row hrow col hcol).1 kk hkk).2
      · exact (h row hrow col hcol).2
    · intro h row hrow col hcol
      refine ⟨fun kk hkk => ⟨?_, ?_⟩, ?_⟩
      · exact h.1 1 _ ⟨row, hrow, col, hcol, .inl ⟨kk, hkk, .inl ⟨rfl, rfl⟩⟩⟩
      · exact h.1 2 _ ⟨row, hrow, col, hcol, .inl ⟨kk, hkk, .inr ⟨rfl, rfl⟩⟩⟩
      · exact h.1 3 _ ⟨row, hrow, col, hcol, .inr ⟨rfl, rfl⟩⟩
  | gemv | gemvAdd =>
    obtain ⟨x, y, c, rfl, -, -, -⟩ := bound_in_in_out hs rfl
    refine (isOk_gemvWith hm).trans ⟨fun h => ⟨fun slot i hi => ?_, fun he => by cases he⟩, ?_⟩
    · obtain ⟨col, hcol, ⟨kk, hkk, ⟨rfl, rfl⟩ | ⟨rfl, rfl⟩⟩ | ⟨rfl, rfl⟩⟩ := hi
      · exact ((h col hcol).1 _ hkk).1
      · exact ((h col hcol).1 kk hkk).2
      · exact (h _ hcol).2
    · intro h col hcol
      refine ⟨fun kk hkk => ⟨?_, ?_⟩, ?_⟩
      · exact h.1 1 _ ⟨col, hcol, .inl ⟨kk, hkk, .inl ⟨rfl, rfl⟩⟩⟩
      · exact h.1 2 _ ⟨col, hcol, .inl ⟨kk, hkk, .inr ⟨rfl, rfl⟩⟩⟩
      · exact h.1 3 _ ⟨col, hcol, .inr ⟨rfl, rfl⟩⟩
  | transpose =>
    obtain ⟨x, y, rfl, -, -⟩ := bound_in_out hs rfl
    refine (isOk_transpose hm).trans ⟨fun h => ⟨fun slot i hi => ?_, fun he => by cases he⟩, ?_⟩
    · obtain ⟨r, hr, c, hc, ⟨rfl, rfl⟩ | ⟨rfl, rfl⟩⟩ := hi
      · exact (h r hr c hc).1
      · exact (h r hr c hc).2
    · exact fun h r hr c hc => ⟨h.1 1 _ ⟨r, hr, c, hc, .inl ⟨rfl, rfl⟩⟩,
        h.1 2 _ ⟨r, hr, c, hc, .inr ⟨rfl, rfl⟩⟩⟩
  | sum =>
    obtain ⟨x, part, rfl, -, -⟩ := bound_in_out hs rfl
    refine (isOk_sum hm).trans ⟨fun h => ⟨fun slot i hi => ?_, fun he => by cases he⟩, ?_⟩
    · obtain ⟨rfl, hi⟩ | ⟨rfl, rfl⟩ := hi
      · exact Nat.lt_of_lt_of_le hi h.1
      · exact h.2
    · exact fun h => ⟨le_of_forall_lt fun i hi => h.1 1 i (.inl ⟨rfl, hi⟩),
        h.1 2 0 (.inr ⟨rfl, rfl⟩)⟩
  | dot =>
    obtain ⟨x, y, part, rfl, -, -, -⟩ := bound_in_in_out hs rfl
    refine (isOk_dot hm).trans ⟨fun h => ⟨fun slot i hi => ?_, fun he => by cases he⟩, ?_⟩
    · obtain ⟨rfl | rfl, hi⟩ | ⟨rfl, rfl⟩ := hi
      · exact Nat.lt_of_lt_of_le hi h.1
      · exact Nat.lt_of_lt_of_le hi h.2.1
      · exact h.2.2
    · exact fun h => ⟨le_of_forall_lt fun i hi => h.1 1 i (.inl ⟨.inl rfl, hi⟩),
        le_of_forall_lt fun i hi => h.1 2 i (.inl ⟨.inr rfl, hi⟩), h.1 3 0 (.inr ⟨rfl, rfl⟩)⟩
  | add | mul | max | min =>
    obtain ⟨x, y, rfl, -, -⟩ := bound_out_in hs rfl
    exact iff_of_true (isOk_withOther (hm ▸ Nat.one_pos))
      ⟨fun slot i hi => hi.elim, fun he => by cases he⟩
  | scale =>
    obtain ⟨x, rfl, -⟩ := bound_one hs rfl
    rw [Builtin.native, Native.scale, word_eq (hm ▸ Nat.two_pos), Outcome.ok_bind,
      expect_word (hm ▸ Nat.one_lt_two), Outcome.ok_bind]
    exact isOk_each rfl (by decide) fun _ _ => rfl
  | zeroTensor =>
    obtain ⟨x, rfl, -⟩ := bound_one hs rfl
    rw [Builtin.native, Native.zeroTensor, word_eq (hm ▸ Nat.one_pos), Outcome.ok_bind]
    exact isOk_each rfl (by decide) fun _ _ => rfl
  | fillConstant =>
    obtain ⟨x, rfl, -⟩ := bound_one hs rfl
    rw [Builtin.native, Native.fillConstant, word_eq (hm ▸ Nat.two_pos), Outcome.ok_bind,
      expect_word (hm ▸ Nat.one_lt_two), Outcome.ok_bind]
    exact isOk_each rfl (by decide) fun _ _ => rfl
  | fillRandom =>
    obtain ⟨x, rfl, -⟩ := bound_one hs rfl
    rw [Builtin.native, Native.fillRandom, word_eq (hm ▸ Nat.two_pos), Outcome.ok_bind,
      expect_word (hm ▸ Nat.one_lt_two), Outcome.ok_bind]
    exact isOk_each rfl (by decide) fun _ _ => rfl
  | clamp =>
    obtain ⟨x, rfl, -⟩ := bound_one hs rfl
    rw [Builtin.native, Native.clamp, word_eq (hm ▸ by decide), Outcome.ok_bind,
      expect_word (show 1 < m.length from hm ▸ by decide), Outcome.ok_bind,
      expect_word (show 2 < m.length from hm ▸ by decide), Outcome.ok_bind]
    refine (isOk_inPlace fun _ v => isOk_clampF32 v _ _).trans ?_
    exact ⟨fun h => ⟨fun slot i hi => hi.elim, fun _ => h⟩, fun h => h.2 rfl⟩

end Builtins

/-! ## On bytes -/

theorem writeF32_eq_ok {s : Nat} {data : List F} {ends : List (Slot F)}
    (h : writeF32 slots s data = .ok ends) :
    ∃ x, slots[s - 1]? = some (.Write x) ∧ data.length = x.length ∧
      ends = slots.set (s - 1) (.Write data) := by
  obtain ⟨slot, hslot, h⟩ := Outcome.bind_eq_ok.mp h
  rw [Outcome.expect_eq_ok] at hslot
  cases slot with
  | Read x => cases h
  | Write x =>
    simp only at h
    split at h
    · cases h
      exact ⟨x, hslot, by assumption, rfl⟩
    · cases h

section Ends

variable [Floats F] {ends : List (Slot F)}

/-- A run whose last step is its one write. -/
def WritesLast (slots : List (Slot F)) (s : Nat) (run : Outcome Empty (List (Slot F))) : Prop :=
  ∀ ends, run = .ok ends → ∃ data, writeF32 slots s data = .ok ends

omit [Floats F] in
theorem WritesLast.bind {α : Type} {s : Nat} {x : Outcome Empty α}
    {f : α → Outcome Empty (List (Slot F))} (h : ∀ a, WritesLast slots s (f a)) :
    WritesLast slots s (x >>= f) := by
  intro ends hends
  obtain ⟨a, -, ha⟩ := Outcome.bind_eq_ok.mp hends
  exact h a ends ha

omit [Floats F] in
theorem WritesLast.self {s : Nat} (data : List F) :
    WritesLast slots s (writeF32 slots s data) := fun _ h => ⟨data, h⟩

omit [Floats F] in
theorem writesLast_inPlace (f : Nat → F → Outcome Empty F) (n : Nat) :
    WritesLast slots 1 (inPlace f n slots) :=
  .bind fun _ => .bind fun _ => .self _

theorem native_writesLast (b : Builtin) (m : List UInt32) (slots : List (Slot F)) :
    WritesLast slots b.out (b.native m slots) := by
  cases b with
  | matmul | matmulAdd | matmulTrp =>
    exact .bind fun _ => .bind fun _ => .bind fun _ => .bind fun _ => .bind fun _ => .bind fun _ =>
      .bind fun _ => .self _
  | gemv | gemvAdd =>
    exact .bind fun _ => .bind fun _ => .bind fun _ => .bind fun _ => .bind fun _ =>
      .bind fun _ => .self _
  | dot =>
    exact .bind fun _ => .bind fun _ => .bind fun _ => .bind fun _ => .bind fun _ =>
      .bind fun _ => .bind fun _ => .self _
  | sum | transpose =>
    exact .bind fun _ => .bind fun _ => .bind fun _ => .bind fun _ => .bind fun _ => .self _
  | add | mul | max | min => exact .bind fun _ => .bind fun _ => .bind fun _ => .self _
  | scale | fillConstant | fillRandom =>
    exact .bind fun _ => .bind fun _ => writesLast_inPlace _ _
  | clamp => exact .bind fun _ => .bind fun _ => .bind fun _ => writesLast_inPlace _ _
  | zeroTensor => exact .bind fun _ => writesLast_inPlace _ _

end Ends

section Bytes

variable [Floats UInt32] {bindings : List NativeBinding}

/-- Native code on bytes panics where it does on elements. -/
theorem runBytes_returns_iff (hwords : ∀ binding ∈ bindings, 4 ∣ (Builtin.bytesIn binding).length) :
    (b.runBytes m bindings).panicked = false ↔
      (b.native m (bindings.map Builtin.slotOf)).isOk = true := by
  rw [Builtin.runBytes]
  rcases hr : b.native m (bindings.map Builtin.slotOf) with ends | e | _
  · refine iff_of_true ?_ rfl
    obtain ⟨data, hdata⟩ := native_writesLast b m _ ends hr
    obtain ⟨x, hx, hlen, rfl⟩ := writeF32_eq_ok hdata
    obtain ⟨hlt, -⟩ := List.getElem?_eq_some_iff.mp hx
    obtain ⟨binding, hb, hbx⟩ := Option.map_eq_some_iff.mp (List.getElem?_map.symm.trans hx)
    obtain ⟨bytes, rfl, rfl⟩ : ∃ bytes, binding = .Write bytes ∧ Builtin.f32s bytes = x := by
      cases binding with
      | Read bytes => cases hbx
      | Write bytes => exact ⟨bytes, rfl, Slot.Write.inj hbx⟩
    have hbytes := length_f32s (hwords _ (List.mem_of_getElem? hb))
    have hcopy : Builtin.copyInto (.Write bytes) (Builtin.f32Bytes data) =
        some (Builtin.f32Bytes data) := by
      refine if_pos ?_
      rw [Builtin.length_f32Bytes, hlen]
      exact hbytes
    simp only [List.getElem?_set_self hlt, Option.map_some, Option.getD_some, Slot.elems, hb,
      Option.bind_some, hcopy]
  · exact iff_of_false (by simp) (by simp [Outcome.isOk])
  · exact iff_of_false (by simp) (by simp [Outcome.isOk])

end Bytes

/-! ## A run of a program -/

/-- Every slot holds `f32`s. -/
theorem kind_of_layout (b : Builtin) : ∀ role ∈ b.signature.layout, role.kind = .F32 := by
  cases b <;> decide

/-- What is indexed, `minLens` asks for. -/
theorem lt_minLens (wg : Workgroups) {slot i : Nat} (h : b.Indexes m slot i) :
    0 < slot ∧ ∃ n, (b.minLens m wg)[slot - 1]? = some n ∧ i < n := by
  cases b with
  | matmul | matmulAdd | matmulTrp =>
    obtain ⟨row, hrow, col, hcol, ⟨kk, hkk, ⟨rfl, rfl⟩ | ⟨rfl, rfl⟩⟩ | ⟨rfl, rfl⟩⟩ := h
    · exact ⟨Nat.one_pos, _, rfl, row_col_lt hrow hkk⟩
    · refine ⟨Nat.two_pos, _, rfl, ?_⟩
      first
        | exact row_col_lt hkk hcol
        | exact Nat.lt_of_lt_of_eq (row_col_lt hcol hkk) (Nat.mul_comm _ _)
    · exact ⟨Nat.succ_pos 2, _, rfl, row_col_lt hrow hcol⟩
  | gemv | gemvAdd =>
    obtain ⟨col, hcol, ⟨kk, hkk, ⟨rfl, rfl⟩ | ⟨rfl, rfl⟩⟩ | ⟨rfl, rfl⟩⟩ := h
    · exact ⟨Nat.one_pos, _, rfl, hkk⟩
    · exact ⟨Nat.two_pos, _, rfl, row_col_lt hkk hcol⟩
    · exact ⟨Nat.succ_pos 2, _, rfl, hcol⟩
  | transpose =>
    obtain ⟨r, hr, c, hc, ⟨rfl, rfl⟩ | ⟨rfl, rfl⟩⟩ := h
    · exact ⟨Nat.one_pos, _, rfl, row_col_lt hr hc⟩
    · exact ⟨Nat.two_pos, _, rfl, Nat.lt_of_lt_of_eq (row_col_lt hc hr) (Nat.mul_comm _ _)⟩
  | sum =>
    obtain ⟨rfl, hi⟩ | ⟨rfl, rfl⟩ := h
    · exact ⟨Nat.one_pos, _, rfl, hi⟩
    · exact ⟨Nat.two_pos, _, rfl, partials_pos wg⟩
  | dot =>
    obtain ⟨rfl | rfl, hi⟩ | ⟨rfl, rfl⟩ := h
    · exact ⟨Nat.one_pos, _, rfl, hi⟩
    · exact ⟨Nat.two_pos, _, rfl, hi⟩
    · exact ⟨Nat.succ_pos 2, _, rfl, partials_pos wg⟩
  | _ => exact h.elim

section Device

variable [Floats UInt32] {w : World CpuBackend} {scope : Scope} {node : Node CpuBackend}
  {args : List Arg} {bindings : List (Access CpuBuffer)} {mem : ByteMemory.Mem}

/-- A node of this builtin. -/
structure IsNodeOf (b : Builtin) (node : Node CpuBackend) : Prop where
  signature : node.raw.signature = b.signature
  code : node.raw.code = b.code

/-- What `execute_raw` gives native code of what is bound. -/
def nativeOf (mem : ByteMemory.Mem) (bindings : List (Access CpuBuffer)) : List NativeBinding :=
  (bindings.map CpuSlot.ofAccess).map (CpuSlot.binding mem)

/-- How many elements the buffer at a slot has room for. -/
def bufferLen (bindings : List (Access CpuBuffer)) (slot : Nat) : Nat :=
  ((bindings[slot - 1]?.map fun a => a.buf.bytes).getD 0) / 4

omit [Floats UInt32] in
theorem bytesIn_binding (a : Access CpuBuffer) :
    (Builtin.bytesIn (CpuSlot.binding mem (CpuSlot.ofAccess a))).length = a.buf.bytes := by
  cases a <;> exact ByteMemory.length_read _ _ _

omit [Floats UInt32] in
theorem four_dvd_bytes (buf : CpuBuffer) : 4 ∣ buf.bytes := by
  rcases buf with ⟨_ | _, _⟩ <;> exact Nat.dvd_mul_left _ _

omit [Floats UInt32] in
theorem slotLen_nativeOf (slot : Nat) :
    slotLen ((nativeOf mem bindings).map Builtin.slotOf) slot = bufferLen bindings slot := by
  rw [slotLen, bufferLen, nativeOf, List.getElem?_map, List.getElem?_map, List.getElem?_map]
  cases bindings[slot - 1]? with
  | none => rfl
  | some a =>
    have hwords : 4 ∣ (Builtin.bytesIn (CpuSlot.binding mem (CpuSlot.ofAccess a))).length := by
      rw [bytesIn_binding]
      exact four_dvd_bytes a.buf
    have hlen := length_f32s hwords
    rw [bytesIn_binding] at hlen
    simp only [Option.map_some, Option.getD_some, Builtin.elems_slotOf]
    omega

/-- The checks of `execute` bind each slot as its role says. -/
theorem shaped_nativeOf (hb : IsNodeOf b node) (hc : Contract w scope node args)
    (hacc : Scope.access w scope args = .ok bindings) :
    b.Shaped ((nativeOf mem bindings).map Builtin.slotOf) := by
  have hlayout : node.signature.layout = b.signature.layout := congrArg Signature.layout hb.signature
  have haccess : List.Forall₂ (fun (arg : Arg) (role : BindingRole) => arg.isWrite = !role.isInput)
      args node.signature.layout := by
    refine List.forall₂_iff_get.mpr ⟨hc.count, fun i h₁ h₂ => ?_⟩
    exact hc.access i _ _ (List.getElem?_eq_getElem h₁) (List.getElem?_eq_getElem h₂)
  rw [hlayout] at haccess
  rw [nativeOf, List.map_map, List.map_map, Builtin.Shaped, List.forall₂_map_left_iff,
    List.forall₂_map_right_iff]
  refine haccess.of_both (access_eq_ok.mp hacc) fun arg role a hrole ha => ?_
  obtain ⟨t, -, rfl⟩ := ha
  refine ⟨?_, Nat.zero_le _⟩
  rw [← hrole]
  cases arg <;> rfl

omit [Floats UInt32] in
theorem tensors_of_access (hacc : Scope.access w scope args = .ok bindings) :
    ∃ tensors, List.Forall₂ (fun arg t => w.boundTensor scope arg.slot = .ok t) args tensors := by
  have hall := access_eq_ok.mp hacc
  clear hacc
  induction hall with
  | nil => exact ⟨[], .nil⟩
  | cons ha _ ih =>
    obtain ⟨t, ht, -⟩ := ha
    obtain ⟨tensors, hrest⟩ := ih
    exact ⟨t :: tensors, .cons ht hrest⟩

/-- Buffers that hold their tensors go as far as `minLens` asks. -/
theorem inRange_of_holds (hb : IsNodeOf b node) (hc : Contract w scope node args)
    (hacc : Scope.access w scope args = .ok bindings)
    (hholds : ∀ arg ∈ args, ∀ t, w.boundTensor scope arg.slot = .ok t → t.Holds t.len) :
    b.InRange node.raw.metaWords (bufferLen bindings) := by
  intro slot i hi
  obtain ⟨-, n, hn, hlt⟩ := lt_minLens node.workgroups hi
  have hneeds : (minLens node.signature (Dispatch.metaWords node.raw) node.workgroups)[slot - 1]? =
      some n := by
    rw [show node.signature = b.signature from hb.signature]
    exact hn
  have hslot : slot - 1 < node.signature.layout.length := by
    rw [← minLens_length]
    exact (List.getElem?_eq_some_iff.mp hneeds).1
  have harg := List.getElem?_eq_getElem (hc.count ▸ hslot)
  obtain ⟨a, ha, t, ht, hbuf⟩ := (access_eq_ok.mp hacc).exists_getElem?_left harg
  have hle := hc.len _ _ _ t harg hneeds ht
  have hkind : t.kind = .F32 := by
    rw [hc.kind _ _ _ t harg (List.getElem?_eq_getElem hslot) ht]
    have hlayout : node.signature.layout = b.signature.layout :=
      congrArg Signature.layout hb.signature
    exact kind_of_layout b _ (hlayout ▸ List.getElem_mem hslot)
  obtain ⟨-, hbits⟩ := hholds _ (List.getElem_mem _) t ht
  rw [hkind] at hbits
  have hbytes : a.buf.bytes = Storage.sizeBytes t.raw := by
    have hsame (arg : Arg) : (arg.access t.raw).buf.bytes = Storage.sizeBytes t.raw := by
      cases arg <;> rfl
    rw [← hbuf]
    exact hsame _
  rw [bufferLen, ha]
  simp only [Option.map_some, Option.getD_some, hbytes]
  simp only [DataKind.bitsPerElem] at hbits
  omega

/-- **When native code runs to its end**: every run that `execute`'s checks let
through does, unless a buffer is shorter than what is indexed of it, or it's
`clamp` with an element to clamp between bounds that are out of order. A buffer
is short only where its tensor's length in bits wrapped. -/
theorem native_runs_to_its_end_iff {raws : Nat → CpuBackend} {poolBytes : Nat → Nat}
    (h : World.Reachable raws poolBytes w) {s n address : Nat}
    (hs : w.scopes.lookup s = some scope) (hn : w.boundNode scope n = .ok (address, node))
    (hb : IsNodeOf b node) (hcheck : Scope.check w scope node args = .ok ())
    (hacc : Scope.access w scope args = .ok bindings) :
    (∀ mem, (node.raw.code.code node.raw.metaWords (nativeOf mem bindings)).panicked = false ↔
      b.InRange node.raw.metaWords (bufferLen bindings) ∧
        b.Ordered UInt32 node.raw.metaWords (bufferLen bindings)) ∧
    ((∀ arg ∈ args, ∀ t, w.boundTensor scope arg.slot = .ok t → t.Holds t.len) →
      b.InRange node.raw.metaWords (bufferLen bindings)) := by
  have hw := World.Reachable.valid h
  obtain ⟨hlookup, hnode⟩ := boundNode_eq_ok.mp hn
  have hagree := nodes_agree h node (AList.mem_values.mpr ⟨address, hnode⟩)
  obtain ⟨node', hnode', hdev⟩ := hw.nodes s scope hs address (List.mem_of_getElem? hlookup)
  obtain rfl : node = node' := Option.some.inj (hnode.symm.trans hnode')
  obtain ⟨tensors, ht⟩ := tensors_of_access hacc
  have hc := (check_iff_contract hw hs hdev hagree ht).mp hcheck
  have hm : b.MetaOk node.raw.metaWords := by
    have hlen := congrArg List.length hagree.types
    have hwords : node.raw.metaWords = node.metaVals.map MetaValue.word := hagree.words
    rw [show node.signature = b.signature from hb.signature, List.length_map, List.length_map] at hlen
    rw [Builtin.MetaOk, hwords, List.length_map, hlen]
  refine ⟨fun mem => ?_, inRange_of_holds hb hc hacc⟩
  have hlens : slotLen ((nativeOf mem bindings).map Builtin.slotOf) = bufferLen bindings :=
    funext slotLen_nativeOf
  rw [hb.code, ← hlens, ← isOk_native_iff hm (shaped_nativeOf hb hc hacc)]
  refine runBytes_returns_iff fun binding hmem => ?_
  obtain ⟨slot, hslot, rfl⟩ := List.mem_map.mp hmem
  obtain ⟨a, -, rfl⟩ := List.mem_map.mp hslot
  rw [bytesIn_binding]
  exact four_dvd_bytes a.buf

end Device

namespace Sample

/-- The order of `f32`s that are not negative, by their bits; nothing is computed. -/
@[reducible] def bits : Floats UInt32 where
  zero := 0
  add x _ := x
  mul x _ := x
  negZero := 0x80000000
  div x _ := x
  max x y := if x < y then y else x
  min x y := if x < y then x else y
  lt x y := decide (x < y)
  le x y := decide (x ≤ y)
  ofBits x := x
  ofUInt32 x := x

/-- A CPU device, a tensor of one `f32` and a `clamp` of one element between
these bits, both bound in a scope. -/
def clamping (lo hi : UInt32) : List (Act CpuBackend) := [
  .tensor (.alloc 0 Backends.Sample.env 0 .F32 1),
  .node (.build 0 100 (@Builtin.shader bits .clamp) [.Uint 1, .Float lo, .Float hi] (.linear 1)),
  .scope (.openOn 0 0), .scope (.bind 0 0), .scope (.bindNode 0 100)]

/-- Each of them, with how it ended. -/
def clamped (lo hi : UInt32) : Option (List (Event CpuBackend) × World CpuBackend) :=
  cpus.play (fun _ _ => True) (clamping lo hi)

theorem reachable_of_clamped {lo hi : UInt32} {es : List (Event CpuBackend)}
    {w : World CpuBackend} (h : clamped lo hi = some (es, w)) :
    World.Reachable CpuBackend.attach (fun _ => 0) w := ⟨es, (World.runs_of_play h).of_where⟩

/-- What the checks of running it say. -/
def checked (w : World CpuBackend) : Outcome Error Unit := do
  let scope ← w.scope 0
  let (_, node) ← w.boundNode scope 0
  Scope.check w scope node [.Write 0]

set_option maxRecDepth 8000 in
theorem clamp_panics_when_played : ((clamped 0x3f800000 0).any fun (_, w) =>
    (RunAct.execute 0 0 [.Write 0]).Allowed w ∧ checked w = .ok () ∧
      (Scope.execute 0 0 [.Write 0] w).1 = .panic) = true := by
  decide +kernel

/-- **`clamp` of one element between 1 and 0 passes the checks and panics.** -/
theorem clamp_panics : ∃ w, World.Reachable CpuBackend.attach (fun _ => 0) w ∧
    (RunAct.execute 0 0 [.Write 0]).Allowed w ∧ checked w = .ok () ∧
      (Scope.execute 0 0 [.Write 0] w).1 = .panic := by
  obtain ⟨⟨es, w⟩, hplay, hall⟩ := Option.any_eq_true _ _ |>.mp clamp_panics_when_played
  exact ⟨w, reachable_of_clamped hplay, of_decide_eq_true hall⟩

set_option maxRecDepth 8000 in
/-- Between 0 and 1 it runs to its end. -/
theorem clamp_runs_to_its_end : ∃ (w : World CpuBackend) (node : Node CpuBackend)
    (bindings : List (Access CpuBuffer)), World.Reachable CpuBackend.attach (fun _ => 0) w ∧
      ∀ mem, (node.raw.code.code node.raw.metaWords (nativeOf mem bindings)).panicked = false := by
  obtain ⟨es, w, hplay, scope, node, bindings, hs, hn, hcheck, hacc, hb, hwords, hlen⟩ :
    ∃ es w, clamped 0 0x3f800000 = some (es, w) ∧ ∃ scope node bindings,
      w.scopes.lookup 0 = some scope ∧ w.boundNode scope 0 = .ok (100, node) ∧
      Scope.check w scope node [.Write 0] = .ok () ∧
      Scope.access w scope [.Write 0] = .ok bindings ∧ @IsNodeOf bits .clamp node ∧
      node.raw.metaWords = [1, 0, 0x3f800000] ∧ bufferLen bindings 1 = 1 :=
    ⟨_, _, rfl, _, _, _, rfl, rfl, rfl, rfl, @IsNodeOf.mk bits .clamp _ rfl rfl, rfl, rfl⟩
  have hreach := reachable_of_clamped hplay
  refine ⟨w, node, bindings, hreach, fun mem => ?_⟩
  have hiff := @native_runs_to_its_end_iff .clamp bits _ _ _ _ _ _ _ hreach _ _ _ hs hn hb hcheck
    hacc
  refine (hiff.1 mem).mpr ⟨?_, ?_⟩
  · intro slot i hi
    exact hi.elim
  · intro _ _ _
    rw [hwords]
    rfl

end Sample
end Wilupgu.Builtins
