import Wilupgu.Safe.Ranges
import Mathlib.Algebra.Divisibility.Basic

/-! # The elements in a buffer's bytes

A tensor's elements are in the first bytes of its buffer, what comes after
them is padding. A range that is written is rounded up, and what is written
past its last element falls into the padding. -/

namespace Wilupgu

open Backend Rounding Splice

variable {kind : DataKind} {tensorLen offset len : Nat} {write : Bool} {bytes data : List UInt8}

/-- The `len` elements that a buffer's bytes start with. -/
def elemsIn (kind : DataKind) (len : Nat) (bytes : List UInt8) : List Nat :=
  (HostData.fromBytes kind (bytes.take (exactBytes kind len))).elems

theorem wordBits (kind : DataKind) (n : Nat) :
    n * kind.elemsPerHostWord * kind.bitsPerElem = n * kind.hostWordBytes * 8 := by
  rw [Nat.mul_assoc, kind.hostWord_bits, Nat.mul_assoc]

theorem exactBytes_words (kind : DataKind) (n : Nat) :
    exactBytes kind (n * kind.elemsPerHostWord) = n * kind.hostWordBytes := by
  rw [exactBytes, wordBits, divCeil, if_pos (Nat.mul_mod_left _ _), Nat.add_zero,
    Nat.mul_div_cancel _ (by decide)]

theorem length_elemsIn {n : Nat} (hb : n * kind.hostWordBytes ≤ bytes.length) :
    (elemsIn kind (n * kind.elemsPerHostWord) bytes).length = n * kind.elemsPerHostWord := by
  refine HostData.length_elems_fromBytes kind ?_
  rw [exactBytes_words, List.length_take]
  omega

/-- A `copyAlign` boundary is one between host words. -/
theorem elemsPerHostWord_dvd {n : Nat} (h : n * kind.bitsPerElem % 32 = 0) :
    kind.elemsPerHostWord ∣ n := by
  cases kind <;> simp only [DataKind.elemsPerHostWord, DataKind.bitsPerElem] at h ⊢ <;> omega

theorem RangeOk.start_words (h : RangeOk kind tensorLen offset len write) :
    kind.elemsPerHostWord ∣ offset := elemsPerHostWord_dvd h.start

/-- A range to write in a tensor of whole words is of whole words. -/
theorem RangeOk.len_words (h : RangeOk kind tensorLen offset len true)
    (hw : kind.elemsPerHostWord ∣ tensorLen) : kind.elemsPerHostWord ∣ len := by
  refine (Nat.dvd_add_right h.start_words).mp ?_
  rcases h.fin rfl with hfin | hfin
  · exact hfin ▸ hw
  · exact elemsPerHostWord_dvd hfin

theorem ByteRange.of_words (kind : DataKind) (o k : Nat) :
    ByteRange.of kind (o * kind.elemsPerHostWord) (k * kind.elemsPerHostWord) =
      ⟨o * kind.hostWordBytes, roundUp (k * kind.hostWordBytes) copyAlign,
        k * kind.hostWordBytes⟩ := by
  rw [ByteRange.of, wordBits, exactBytes_words, Nat.mul_div_cancel _ (by decide)]

theorem RangeOk.words_le {n o k : Nat}
    (h : RangeOk kind (n * kind.elemsPerHostWord) (o * kind.elemsPerHostWord)
      (k * kind.elemsPerHostWord) write) : o + k ≤ n := by
  refine Nat.le_of_mul_le_mul_right ?_ kind.elemsPerHostWord_pos
  rw [Nat.add_mul]
  exact h.le

/-- What is written past the last element is past the tensor's last element. -/
theorem RangeOk.padding {n o k : Nat}
    (h : RangeOk kind (n * kind.elemsPerHostWord) (o * kind.elemsPerHostWord)
      (k * kind.elemsPerHostWord) true)
    (hd : data.length = roundUp (k * kind.hostWordBytes) copyAlign) :
    data.take (n * kind.hostWordBytes - o * kind.hostWordBytes) =
      data.take (k * kind.hostWordBytes) := by
  rcases h.fin rfl with hfin | hfin
  · have hfin' : o + k = n := by
      refine Nat.eq_of_mul_eq_mul_right kind.elemsPerHostWord_pos ?_
      rw [Nat.add_mul]
      exact hfin
    rw [← hfin', Nat.add_mul, Nat.add_sub_cancel_left]
  · have hstart := h.start
    rw [← Nat.add_mul, wordBits, Nat.add_mul] at hfin
    rw [wordBits] at hstart
    have hround : roundUp (k * kind.hostWordBytes) copyAlign = k * kind.hostWordBytes :=
      roundUp_of_mod (show k * kind.hostWordBytes % 4 = 0 by omega)
    have hle : o * kind.hostWordBytes + k * kind.hostWordBytes ≤ n * kind.hostWordBytes := by
      rw [← Nat.add_mul]
      exact Nat.mul_le_mul_right _ h.words_le
    rw [List.take_of_length_le (by omega), List.take_of_length_le (by omega)]

/-- **Overwriting a range of elements**, with what was rounded up. -/
theorem elemsIn_write (h : RangeOk kind tensorLen offset len true)
    (hw : kind.elemsPerHostWord ∣ tensorLen)
    (hb : roundUp (exactBytes kind tensorLen) copyAlign ≤ bytes.length)
    (hd : data.length = (ByteRange.of kind offset len).bytes) :
    elemsIn kind tensorLen (splice bytes (ByteRange.of kind offset len).start data) =
      splice (elemsIn kind tensorLen bytes) offset (elemsIn kind len data) := by
  have hle := h.bytes_le
  obtain ⟨k, rfl⟩ := exists_eq_mul_left_of_dvd (h.len_words hw)
  obtain ⟨o, rfl⟩ := exists_eq_mul_left_of_dvd h.start_words
  obtain ⟨n, rfl⟩ := exists_eq_mul_left_of_dvd hw
  have hok := h.words_le
  rw [ByteRange.of_words] at hd hle ⊢
  rw [exactBytes_words] at hb hle
  have hn : n * kind.hostWordBytes ≤ bytes.length := Nat.le_trans (le_roundUp (by decide)) hb
  have hk : k * kind.hostWordBytes ≤ data.length := hd ▸ le_roundUp (by decide)
  simp only [elemsIn, exactBytes_words]
  rw [take_splice (Nat.mul_le_mul_right _ (by omega)) hn (by rw [hd]; exact Nat.le_trans hle hb),
    h.padding hd]
  refine HostData.elems_splice kind ?_ ?_ hok
  · rw [List.length_take]
    omega
  · rw [List.length_take]
    omega

/-- **Reading a range of whole words**, with what was rounded up. -/
theorem elemsIn_read (h : RangeOk kind tensorLen offset len write)
    (hw : kind.elemsPerHostWord ∣ tensorLen) (hl : kind.elemsPerHostWord ∣ len)
    (hb : exactBytes kind tensorLen ≤ bytes.length) :
    elemsIn kind len ((bytes.drop (ByteRange.of kind offset len).start).take
        (ByteRange.of kind offset len).bytes) =
      ((elemsIn kind tensorLen bytes).drop offset).take len := by
  obtain ⟨k, rfl⟩ := exists_eq_mul_left_of_dvd hl
  obtain ⟨o, rfl⟩ := exists_eq_mul_left_of_dvd h.start_words
  obtain ⟨n, rfl⟩ := exists_eq_mul_left_of_dvd hw
  have hok := h.words_le
  rw [exactBytes_words] at hb
  have hrow : o * kind.hostWordBytes + k * kind.hostWordBytes ≤ n * kind.hostWordBytes := by
    rw [← Nat.add_mul]
    exact Nat.mul_le_mul_right _ hok
  have hk : k * kind.hostWordBytes ≤ roundUp (k * kind.hostWordBytes) copyAlign :=
    le_roundUp (by decide)
  have hlen : (bytes.take (n * kind.hostWordBytes)).length = n * kind.hostWordBytes := by
    rw [List.length_take]
    omega
  simp only [elemsIn, ByteRange.of_words, exactBytes_words]
  rw [← HostData.elems_slice kind hlen hok, List.take_take, Nat.min_eq_left hk, List.drop_take,
    List.take_take, Nat.min_eq_left (by omega)]

/-- A host value, padded, is its elements. -/
theorem elemsIn_resize {d : HostData} {n : Nat} (hle : exactBytes d.kind d.len ≤ n) :
    elemsIn d.kind d.len (Tensor.resize d.asBytes n) = d.elems := by
  have hlen : d.asBytes.length = exactBytes d.kind d.len := by
    rw [HostData.length_asBytes, HostData.len, exactBytes_words]
  have hwhole : d.asBytes.take n = d.asBytes := List.take_of_length_le (hlen ▸ hle)
  rw [elemsIn, Tensor.resize, hwhole, List.rightpad, ← hlen, List.take_left,
    HostData.elems_fromBytes_asBytes]

/-- Zero bytes are zero elements. -/
theorem elemsIn_zeros {n k : Nat} (h : k * kind.hostWordBytes ≤ n) :
    elemsIn kind (k * kind.elemsPerHostWord) (List.replicate n 0) =
      List.replicate (k * kind.elemsPerHostWord) 0 := by
  rw [elemsIn, exactBytes_words, List.take_replicate, Nat.min_eq_left h, HostData.elems_zeros]

end Wilupgu
