import Wilupgu.Lib.Splice
import Wilupgu.Lib.Rounding

/-! # The data types a buffer can hold

`DataKind` and `HostData` of src/backend/dtype.rs. A host float is kept as
its bits, since the host only ever moves it. `HostData.elems` says what the
elements of a value are: one per host word, or the eight of a packed word. -/

namespace Wilupgu.Backend

open Rounding Splice

inductive DataKind where
  | F32
  | F16
  | Bf16
  | Int8
  | Int4
  deriving DecidableEq, Repr

namespace DataKind

/-- `DataType::BITS_PER_ELEM` of the kind's marker. -/
def bitsPerElem : DataKind → Nat
  | F32 => 32
  | F16 => 16
  | Bf16 => 16
  | Int8 => 8
  | Int4 => 4

/-- `DataType::ELEMS_PER_HOST_WORD` of the kind's marker. -/
def elemsPerHostWord : DataKind → Nat
  | Int4 => 8
  | _ => 1

/-- The bytes of one `HostRepr` word. -/
def hostWordBytes : DataKind → Nat
  | F32 => 4
  | F16 => 2
  | Bf16 => 2
  | Int8 => 1
  | Int4 => 4

/-- Bytes that `len` elements take. The product wraps, as in a release build. -/
def bytesFor (kind : DataKind) (len : Nat) : Nat := divCeil (wrap (len * kind.bitsPerElem)) 8

theorem hostWord_bits (kind : DataKind) :
    kind.elemsPerHostWord * kind.bitsPerElem = kind.hostWordBytes * 8 := by
  cases kind <;> rfl

theorem hostWordBytes_pos (kind : DataKind) : 0 < kind.hostWordBytes := by cases kind <;> decide

theorem elemsPerHostWord_pos (kind : DataKind) : 0 < kind.elemsPerHostWord := by
  cases kind <;> decide

theorem bitsPerElem_pos (kind : DataKind) : 0 < kind.bitsPerElem := by cases kind <;> decide

end DataKind

/-- Host-side values of one tensor. -/
inductive HostData where
  | F32 (v : List UInt32)
  | F16 (v : List UInt16)
  | Bf16 (v : List UInt16)
  | Int8 (v : List UInt8)
  | Int4 (v : List UInt32)
  deriving DecidableEq

/-- A word's `w` bytes, least significant first. -/
def leBytes : Nat → Nat → List UInt8
  | 0, _ => []
  | w + 1, n => UInt8.ofNat n :: leBytes w (n / 256)

/-- The word with these bytes. -/
def leValue : List UInt8 → Nat
  | [] => 0
  | b :: rest => b.toNat + 256 * leValue rest

/-- `bytemuck::pod_collect_to_vec`: the words of a byte string, the last one
filled up with zero bytes. -/
def podCollect (w : Nat) (bytes : List UInt8) : List Nat := (chunks w bytes).map leValue

namespace HostData

def kind : HostData → DataKind
  | F32 _ => .F32
  | F16 _ => .F16
  | Bf16 _ => .Bf16
  | Int8 _ => .Int8
  | Int4 _ => .Int4

/-- The host words, as numbers. -/
def words : HostData → List Nat
  | F32 v => v.map UInt32.toNat
  | F16 v => v.map UInt16.toNat
  | Bf16 v => v.map UInt16.toNat
  | Int8 v => v.map UInt8.toNat
  | Int4 v => v.map UInt32.toNat

/-- How many elements it holds. A `Vec` has fewer than `2 ^ 63` bytes, so the
product doesn't wrap. -/
def len (d : HostData) : Nat := d.words.length * d.kind.elemsPerHostWord

def asBytes : HostData → List UInt8
  | F32 v => v.flatMap fun x => leBytes 4 x.toNat
  | F16 v => v.flatMap fun x => leBytes 2 x.toNat
  | Bf16 v => v.flatMap fun x => leBytes 2 x.toNat
  | Int8 v => v
  | Int4 v => v.flatMap fun x => leBytes 4 x.toNat

def fromBytes (kind : DataKind) (bytes : List UInt8) : HostData :=
  match kind with
  | .F32 => .F32 ((podCollect 4 bytes).map UInt32.ofNat)
  | .F16 => .F16 ((podCollect 2 bytes).map UInt16.ofNat)
  | .Bf16 => .Bf16 ((podCollect 2 bytes).map UInt16.ofNat)
  | .Int8 => .Int8 bytes
  | .Int4 => .Int4 ((podCollect 4 bytes).map UInt32.ofNat)

end HostData

/-- The elements in one host word: the word, or its eight nibbles from the
least significant one on. -/
def DataKind.unpack (kind : DataKind) (word : Nat) : List Nat :=
  match kind with
  | .Int4 => (List.range 8).map fun i => word / 16 ^ i % 16
  | _ => [word]

/-- The elements of a host value. -/
def HostData.elems (d : HostData) : List Nat := d.words.flatMap d.kind.unpack

/-! ## Words and bytes -/

@[simp] theorem length_leBytes (w n : Nat) : (leBytes w n).length = w := by
  induction w generalizing n with
  | zero => rfl
  | succ w ih => simp [leBytes, ih]

theorem leBytes_zero (w : Nat) : leBytes w 0 = List.replicate w 0 := by
  induction w with
  | zero => rfl
  | succ w ih => rw [leBytes, Nat.zero_div, ih]; rfl

theorem leValue_leBytes {w n : Nat} (h : n < 256 ^ w) : leValue (leBytes w n) = n := by
  induction w generalizing n with
  | zero => simp only [Nat.pow_zero] at h; simp [leBytes, leValue]; omega
  | succ w ih =>
    rw [Nat.pow_succ] at h
    have hrest : n / 256 < 256 ^ w := Nat.div_lt_of_lt_mul (by omega)
    rw [leBytes, leValue, ih hrest, UInt8.toNat_ofNat']
    have := Nat.mod_add_div n 256
    simpa using this

theorem leValue_lt (bytes : List UInt8) : leValue bytes < 256 ^ bytes.length := by
  induction bytes with
  | nil => simp [leValue]
  | cons b rest ih =>
    have hb : b.toNat < 256 := b.toNat_lt
    rw [leValue, List.length_cons, Nat.pow_succ]
    omega

theorem leValue_lt_of_length_le {bytes : List UInt8} {w : Nat} (h : bytes.length ≤ w) :
    leValue bytes < 256 ^ w :=
  Nat.lt_of_lt_of_le (leValue_lt bytes) (Nat.pow_le_pow_right (by decide) h)

theorem length_of_mem_chunks {α : Type} {w : Nat} {l c : List α} (h : c ∈ chunks w l) :
    c.length ≤ w := by
  obtain ⟨i, _, rfl⟩ := List.mem_map.mp h
  simp

theorem podCollect_lt {w : Nat} {bytes : List UInt8} {x : Nat} (h : x ∈ podCollect w bytes) :
    x < 256 ^ w := by
  obtain ⟨c, hc, rfl⟩ := List.mem_map.mp h
  exact leValue_lt_of_length_le (length_of_mem_chunks hc)

theorem map_ofNat_toNat {α : Type} {l : List Nat} {f : Nat → α} {g : α → Nat}
    (h : ∀ n ∈ l, g (f n) = n) : (l.map f).map g = l := by
  rw [List.map_map]
  exact (List.map_congr_left h).trans (List.map_id l)

theorem map_singleton_chunks (bytes : List UInt8) : podCollect 1 bytes = bytes.map UInt8.toNat := by
  have h := chunks_flatMap (fun b : UInt8 => [b]) Nat.one_pos (fun _ => rfl) bytes
  rw [List.flatMap_singleton'] at h
  rw [podCollect, h, List.map_map]
  exact List.map_congr_left fun b _ => by simp [leValue]

namespace HostData

@[simp] theorem kind_fromBytes (k : DataKind) (bytes : List UInt8) :
    (fromBytes k bytes).kind = k := by cases k <;> rfl

theorem words_fromBytes (k : DataKind) (bytes : List UInt8) :
    (fromBytes k bytes).words = podCollect k.hostWordBytes bytes := by
  have h4 : ∀ n ∈ podCollect 4 bytes, (UInt32.ofNat n).toNat = n := fun n hn => by
    have := podCollect_lt hn
    rw [UInt32.toNat_ofNat']
    exact Nat.mod_eq_of_lt (by simpa using this)
  have h2 : ∀ n ∈ podCollect 2 bytes, (UInt16.ofNat n).toNat = n := fun n hn => by
    have := podCollect_lt hn
    rw [UInt16.toNat_ofNat']
    exact Nat.mod_eq_of_lt (by simpa using this)
  cases k with
  | F32 => exact map_ofNat_toNat h4
  | F16 => exact map_ofNat_toNat h2
  | Bf16 => exact map_ofNat_toNat h2
  | Int8 => exact (map_singleton_chunks bytes).symm
  | Int4 => exact map_ofNat_toNat h4

theorem asBytes_eq (d : HostData) : d.asBytes = d.words.flatMap (leBytes d.kind.hostWordBytes) := by
  cases d with
  | Int8 v =>
    have h : ∀ b : UInt8, leBytes 1 b.toNat = [b] := fun b => by simp [leBytes]
    simp [asBytes, words, kind, DataKind.hostWordBytes, List.flatMap_map, h]
  | _ => simp [asBytes, words, kind, DataKind.hostWordBytes, List.flatMap_map]

theorem length_asBytes (d : HostData) : d.asBytes.length = d.words.length * d.kind.hostWordBytes := by
  rw [asBytes_eq]
  exact length_flatMap_const _ (length_leBytes _) _

theorem words_lt (d : HostData) : ∀ x ∈ d.words, x < 256 ^ d.kind.hostWordBytes := by
  intro x hx
  cases d with
  | F32 v | Int4 v =>
    obtain ⟨a, _, rfl⟩ := List.mem_map.mp hx
    exact a.toNat_lt
  | F16 v | Bf16 v =>
    obtain ⟨a, _, rfl⟩ := List.mem_map.mp hx
    exact a.toNat_lt
  | Int8 v =>
    obtain ⟨a, _, rfl⟩ := List.mem_map.mp hx
    exact a.toNat_lt

/-- A host value comes back from its own bytes. -/
theorem podCollect_asBytes (d : HostData) : podCollect d.kind.hostWordBytes d.asBytes = d.words := by
  rw [asBytes_eq, podCollect,
    chunks_flatMap _ d.kind.hostWordBytes_pos (length_leBytes _), List.map_map]
  exact (List.map_congr_left fun x hx => leValue_leBytes (d.words_lt x hx)).trans (List.map_id _)

/-! ## Elements -/

end HostData

theorem length_unpack (kind : DataKind) (word : Nat) :
    (kind.unpack word).length = kind.elemsPerHostWord := by
  cases kind <;> simp [DataKind.unpack, DataKind.elemsPerHostWord]

namespace HostData

theorem length_elems (d : HostData) : d.elems.length = d.len :=
  length_flatMap_const _ (length_unpack d.kind) _

theorem elems_fromBytes (k : DataKind) (bytes : List UInt8) :
    (fromBytes k bytes).elems = (podCollect k.hostWordBytes bytes).flatMap k.unpack := by
  rw [elems, words_fromBytes, kind_fromBytes]

theorem elems_fromBytes_asBytes (d : HostData) : (fromBytes d.kind d.asBytes).elems = d.elems := by
  rw [elems_fromBytes, podCollect_asBytes, elems]

/-- **Overwriting host words is overwriting elements.** In a byte string of
`n` host words, `k` of them written from word `off` on. -/
theorem elems_splice (kind : DataKind) {bytes data : List UInt8} {n off k : Nat}
    (hb : bytes.length = n * kind.hostWordBytes) (hd : data.length = k * kind.hostWordBytes)
    (h : off + k ≤ n) :
    (fromBytes kind (splice bytes (off * kind.hostWordBytes) data)).elems =
      splice (fromBytes kind bytes).elems (off * kind.elemsPerHostWord)
        (fromBytes kind data).elems := by
  simp only [elems_fromBytes, podCollect]
  rw [chunks_splice kind.hostWordBytes_pos hb hd h, map_splice]
  exact flatMap_splice _ (length_unpack kind) _ _ _

theorem length_elems_fromBytes (kind : DataKind) {bytes : List UInt8} {n : Nat}
    (hb : bytes.length = n * kind.hostWordBytes) :
    (fromBytes kind bytes).elems.length = n * kind.elemsPerHostWord := by
  rw [elems_fromBytes, length_flatMap_const _ (length_unpack kind), podCollect, List.length_map,
    length_chunks_mul kind.hostWordBytes_pos hb]

/-- The elements of a run of host words. -/
theorem elems_slice (kind : DataKind) {bytes : List UInt8} {n off k : Nat}
    (hb : bytes.length = n * kind.hostWordBytes) (h : off + k ≤ n) :
    (fromBytes kind ((bytes.drop (off * kind.hostWordBytes)).take (k * kind.hostWordBytes))).elems =
      ((fromBytes kind bytes).elems.drop (off * kind.elemsPerHostWord)).take
        (k * kind.elemsPerHostWord) := by
  have hle : off * kind.hostWordBytes + k * kind.hostWordBytes ≤ n * kind.hostWordBytes := by
    rw [← Nat.add_mul]
    exact Nat.mul_le_mul_right _ h
  have hd : ((bytes.drop (off * kind.hostWordBytes)).take (k * kind.hostWordBytes)).length =
      k * kind.hostWordBytes := by
    rw [List.length_take, List.length_drop]
    omega
  have hlen := length_elems_fromBytes kind hd
  have hself := elems_splice kind hb hd h
  rw [splice_self] at hself
  have hslice := eq_of_splice_self hself.symm (by
    rw [hlen, length_elems_fromBytes kind hb, ← Nat.add_mul]
    exact Nat.mul_le_mul_right _ h)
  rwa [hlen] at hslice

/-- Zero bytes are zero elements. -/
theorem elems_zeros (kind : DataKind) (n : Nat) :
    (fromBytes kind (List.replicate (n * kind.hostWordBytes) 0)).elems =
      List.replicate (n * kind.elemsPerHostWord) 0 := by
  have hbytes : List.replicate (n * kind.hostWordBytes) (0 : UInt8) =
      (List.replicate n 0).flatMap (leBytes kind.hostWordBytes) := by
    rw [List.flatMap_replicate, leBytes_zero, List.flatten_replicate_replicate]
  have hunpack : kind.unpack 0 = List.replicate kind.elemsPerHostWord 0 := by cases kind <;> rfl
  rw [elems_fromBytes, hbytes, podCollect,
    chunks_flatMap _ kind.hostWordBytes_pos (length_leBytes _), List.map_replicate,
    List.map_replicate, leValue_leBytes (Nat.pow_pos (by decide)), List.flatMap_replicate, hunpack,
    List.flatten_replicate_replicate]

end HostData
end Wilupgu.Backend
