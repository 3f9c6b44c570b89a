import Wilupgu.Lib.Splice

/-! # Byte-addressed memory

A memory is a byte at every address. What a program holds of it is ranges;
a write to one range leaves every range disjoint from it alone. The last part
is what is assumed of an allocator: it never hands out a live byte, and a
freed range may come back. -/

namespace ByteMemory

open Splice

/-- A byte at every address. -/
abbrev Mem := Nat → UInt8

/-- `len` bytes from `start` on. -/
structure Range where
  start : Nat
  len : Nat
  deriving DecidableEq

namespace Range

instance : Membership Nat Range := ⟨fun r a => r.start ≤ a ∧ a < r.start + r.len⟩

/-- No byte is in both. -/
def Disjoint (r s : Range) : Prop := ∀ a ∈ r, a ∉ s

/-- Every byte of `r` is in `s`. -/
def Within (r s : Range) : Prop := ∀ a ∈ r, a ∈ s

theorem mem_iff {a : Nat} {r : Range} : a ∈ r ↔ r.start ≤ a ∧ a < r.start + r.len := Iff.rfl

theorem disjoint_iff {r s : Range} : r.Disjoint s ↔
    r.len = 0 ∨ s.len = 0 ∨ r.start + r.len ≤ s.start ∨ s.start + s.len ≤ r.start := by
  constructor
  · intro h
    by_contra hc
    -- if neither is empty nor before the other, the later start is in both
    exact h (max r.start s.start) (by rw [mem_iff]; omega) (by rw [mem_iff]; omega)
  · intro h a ha hs
    rw [mem_iff] at ha hs
    omega

theorem within_of_le {r s : Range} (h₁ : s.start ≤ r.start)
    (h₂ : r.start + r.len ≤ s.start + s.len) : r.Within s := by
  intro a ha
  rw [mem_iff] at ha ⊢
  omega

theorem Within.refl (r : Range) : r.Within r := fun _ => id

theorem Within.trans {r s t : Range} (h : r.Within s) (h' : s.Within t) : r.Within t :=
  fun a ha => h' a (h a ha)

theorem Disjoint.symm {r s : Range} (h : r.Disjoint s) : s.Disjoint r := fun a ha hr => h a hr ha

theorem Disjoint.mono {r r' s s' : Range} (h : r.Disjoint s) (hr : r'.Within r)
    (hs : s'.Within s) : r'.Disjoint s' := fun a ha hs' => h a (hr a ha) (hs a hs')

theorem disjoint_of_len_eq_zero {r : Range} (h : r.len = 0) (s : Range) : r.Disjoint s :=
  disjoint_iff.mpr (.inl h)

/-- Two disjoint ranges that both hold a byte start at different addresses. -/
theorem Disjoint.start_ne {r s : Range} (h : r.Disjoint s) (hr : 0 < r.len) (hs : 0 < s.len) :
    r.start ≠ s.start := by
  rw [disjoint_iff] at h
  omega

/-- A range that holds a byte is not disjoint from itself. -/
theorem not_disjoint_self {r : Range} (hr : 0 < r.len) : ¬r.Disjoint r := fun h => h.start_ne hr hr rfl

end Range

/-! ## Reading and writing -/

/-- The bytes of a range. -/
def read (m : Mem) (ptr len : Nat) : List UInt8 := (List.range len).map fun i => m (ptr + i)

/-- The memory with `data` written from `ptr` on. -/
def write (m : Mem) (ptr : Nat) (data : List UInt8) : Mem :=
  fun a => if ptr ≤ a then data[a - ptr]?.getD (m a) else m a

@[simp] theorem length_read (m : Mem) (ptr len : Nat) : (read m ptr len).length = len := by
  simp [read]

theorem getElem?_read (m : Mem) (ptr len i : Nat) :
    (read m ptr len)[i]? = if i < len then some (m (ptr + i)) else none := by
  by_cases h : i < len <;> simp [read, h]

@[simp] theorem write_nil (m : Mem) (ptr : Nat) : write m ptr [] = m := by
  funext a
  simp [write]

theorem write_of_not_mem {m : Mem} {ptr : Nat} {data : List UInt8} {a : Nat}
    (h : a ∉ (⟨ptr, data.length⟩ : Range)) : write m ptr data a = m a := by
  unfold write
  split
  · have : data.length ≤ a - ptr := by
      by_contra hc
      exact h ⟨by assumption, by simp only; omega⟩
    rw [List.getElem?_eq_none this, Option.getD_none]
  · rfl

/-- **Frame.** A write leaves every range disjoint from it alone. -/
theorem read_write_disjoint {m : Mem} {ptr q n : Nat} {data : List UInt8}
    (h : (⟨ptr, data.length⟩ : Range).Disjoint ⟨q, n⟩) :
    read (write m ptr data) q n = read m q n := by
  refine List.ext_getElem? fun i => ?_
  rw [getElem?_read, getElem?_read]
  split
  · rw [write_of_not_mem fun hm => h _ hm ⟨by simp, by simp only; omega⟩]
  · rfl

/-- A write that starts in a range overwrites its bytes up to the range's end. -/
theorem read_write_within {m : Mem} {ptr off n : Nat} {data : List UInt8} (h : off ≤ n) :
    read (write m (ptr + off) data) ptr n = splice (read m ptr n) off (data.take (n - off)) := by
  refine List.ext_getElem? fun i => ?_
  rw [getElem?_splice (by simp; omega), getElem?_read, getElem?_read]
  by_cases hi : i < n
  · rw [if_pos hi]
    by_cases hin : off ≤ i ∧ i < off + (data.take (n - off)).length
    · rw [if_pos hin]
      simp only [List.length_take] at hin
      rw [write, if_pos (by omega), List.getElem?_take_of_lt (by omega),
        show ptr + i - (ptr + off) = i - off by omega, List.getElem?_eq_getElem (by omega)]
      rfl
    · rw [if_neg hin, if_pos hi, write_of_not_mem]
      simp only [List.length_take] at hin
      rw [Range.mem_iff]
      simp only
      omega
  · rw [if_neg hi, if_neg (by simp only [List.length_take]; omega), if_neg hi]

/-- What was written to a range is what is read from it. -/
theorem read_write_self (m : Mem) (ptr : Nat) (data : List UInt8) :
    read (write m ptr data) ptr data.length = data := by
  have h : read (write m (ptr + 0) data) ptr data.length =
      splice (read m ptr data.length) 0 (data.take (data.length - 0)) :=
    read_write_within (Nat.zero_le _)
  rw [Nat.add_zero] at h
  rw [h, Nat.sub_zero, List.take_length]
  simp [splice]

/-- The bytes of a part of a range. -/
theorem read_sub {m : Mem} {ptr off n k : Nat} (h : off + k ≤ n) :
    read m (ptr + off) k = ((read m ptr n).drop off).take k := by
  refine List.ext_getElem? fun i => ?_
  by_cases hi : i < k
  · rw [List.getElem?_take_of_lt hi, List.getElem?_drop, getElem?_read, getElem?_read, if_pos hi,
      if_pos (by omega), Nat.add_assoc]
  · rw [List.getElem?_eq_none (by simp; omega), List.getElem?_eq_none (by simp; omega)]

theorem read_take {m : Mem} {ptr n k : Nat} (h : k ≤ n) : (read m ptr n).take k = read m ptr k := by
  have h₀ : read m (ptr + 0) k = ((read m ptr n).drop 0).take k := read_sub (by omega)
  rw [Nat.add_zero, List.drop_zero] at h₀
  exact h₀.symm

/-! ## What has changed -/

/-- Every byte outside of `A` is as it was. -/
def ChangesOnly (A : Nat → Prop) (m m' : Mem) : Prop := ∀ a, ¬A a → m' a = m a

namespace ChangesOnly

variable {A A' : Nat → Prop} {m m' m'' : Mem}

theorem refl (A : Nat → Prop) (m : Mem) : ChangesOnly A m m := fun _ _ => rfl

theorem trans (h : ChangesOnly A m m') (h' : ChangesOnly A m' m'') : ChangesOnly A m m'' :=
  fun a ha => (h' a ha).trans (h a ha)

theorem mono (h : ChangesOnly A m m') (hsub : ∀ a, A a → A' a) : ChangesOnly A' m m' :=
  fun a ha => h a fun hA => ha (hsub a hA)

/-- A write changes the bytes it is given. -/
theorem write (m : Mem) {ptr : Nat} {data : List UInt8}
    (h : ∀ a ∈ (⟨ptr, data.length⟩ : Range), A a) : ChangesOnly A m (write m ptr data) :=
  fun a ha => write_of_not_mem fun hm => ha (h a hm)

/-- A range that lies outside reads as it did. -/
theorem read (h : ChangesOnly A m m') {ptr len : Nat} (hout : ∀ a ∈ (⟨ptr, len⟩ : Range), ¬A a) :
    read m' ptr len = read m ptr len := by
  refine List.ext_getElem? fun i => ?_
  rw [getElem?_read, getElem?_read]
  split
  · rw [h _ (hout (ptr + i) ⟨Nat.le_add_right ptr i, by simp only; omega⟩)]
  · rfl

end ChangesOnly

/-! ## An allocator -/

/-- Where an allocator puts the next block of `n` bytes, from the blocks that
are live: outside each of them, and past `low`. Nothing else is promised, so a
freed address may be handed out again, for a block of any size. -/
structure Allocator (low : Nat) where
  base : List Range → Nat → Nat
  fresh : ∀ live n, ∀ r ∈ live, (⟨base live n, n⟩ : Range).Disjoint r
  above : ∀ live n, low < base live n

namespace Allocator

/-- The end of the last of some blocks. -/
def top (live : List Range) : Nat := live.foldr (fun r a => max (r.start + r.len) a) 0

theorem le_top {live : List Range} {r : Range} (h : r ∈ live) : r.start + r.len ≤ top live := by
  induction live with
  | nil => cases h
  | cons s rest ih =>
    simp only [top, List.foldr_cons]
    rcases List.mem_cons.mp h with rfl | h
    · exact Nat.le_max_left _ _
    · exact Nat.le_trans (ih h) (Nat.le_max_right _ _)

/-- The allocator that puts every block after all live ones. -/
def stack (low : Nat) : Allocator low where
  base live _ := max (low + 1) (top live)
  fresh live n r hr := by
    have := le_top hr
    rw [Range.disjoint_iff]
    simp only
    omega
  above live _ := by omega

end Allocator
end ByteMemory
