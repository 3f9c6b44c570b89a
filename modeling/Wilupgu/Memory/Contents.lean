import Wilupgu.Memory.Layout
import Wilupgu.Safe.Elements

/-! # What the tensors hold

On the CPU backend a tensor holds the bytes of its buffer. A call on contents
writes one tensor's bytes and leaves those of every other tensor alone, since
tensors lie apart. -/

namespace Wilupgu.Memory

open Backend Backends ByteMemory Call Splice

variable {w w' : World CpuBackend}

/-- The memory of device `d`. -/
abbrev memOf (w : World CpuBackend) (d : Nat) : Mem := (w.devices d).raw.heap.mem

/-- The bytes of a buffer. -/
def bytesIn (m : Mem) (buf : CpuBuffer) : List UInt8 := read m buf.ptr buf.bytes

/-- The bytes of the tensor at `p`. -/
def bytesAt (w : World CpuBackend) (p : Nat) : List UInt8 :=
  match w.tensors.lookup p with
  | some t => bytesIn (memOf w t.dev) t.raw
  | none => []

/-- Its elements. -/
def elemsAt (w : World CpuBackend) (p : Nat) : List Nat :=
  match w.tensors.lookup p with
  | some t => elemsIn t.kind t.len (bytesAt w p)
  | none => []

theorem bytesAt_of_lookup {p : Nat} {t : Tensor CpuBackend} (ht : w.tensors.lookup p = some t) :
    bytesAt w p = bytesIn (memOf w t.dev) t.raw := by
  rw [bytesAt, ht]

theorem elemsAt_of_lookup {p : Nat} {t : Tensor CpuBackend} (ht : w.tensors.lookup p = some t) :
    elemsAt w p = elemsIn t.kind t.len (bytesAt w p) := by
  rw [elemsAt, ht]

theorem length_bytesAt {p : Nat} {t : Tensor CpuBackend} (ht : w.tensors.lookup p = some t) :
    (bytesAt w p).length = Storage.sizeBytes t.raw := by
  rw [bytesAt_of_lookup ht, bytesIn, length_read]
  rfl

/-- The same tensors over the same memory hold the same. -/
theorem bytesAt_congr (ht : w'.tensors = w.tensors) (hm : ∀ d, memOf w' d = memOf w d) :
    bytesAt w' = bytesAt w := by
  funext p
  simp only [bytesAt, ht, hm]

theorem elemsAt_congr (ht : w'.tensors = w.tensors) (hb : bytesAt w' = bytesAt w) :
    elemsAt w' = elemsAt w := by
  funext p
  simp only [elemsAt, ht, hb]

/-! ## Writing a part of a buffer -/

/-- The device with `data` written to a buffer, from byte `offset` on. -/
def writeTo (buf : CpuBuffer) (offset : Nat) (data : List UInt8)
    (dev : ComputeDevice CpuBackend) : ComputeDevice CpuBackend :=
  { dev with raw := dev.raw.setMem (write dev.raw.heap.mem (buf.ptr + offset) data) }

section Write

variable {p : Nat} {t : Tensor CpuBackend} (hl : Laid w) (hv : w.Valid)
  (ht : w.tensors.lookup p = some t) {offset : Nat} {data : List UInt8}
  (hfit : offset + data.length ≤ Storage.sizeBytes t.raw)
include hl hv ht hfit

/-- **A write in a tensor's buffer changes its bytes there**, and no byte of
any other tensor. -/
theorem bytesAt_write : bytesAt (w.setDevice t.dev (writeTo t.raw offset data (w.devices t.dev))) =
    Function.update (bytesAt w) p (splice (bytesAt w p) offset data) := by
  have hmem : ∀ d, memOf (w.setDevice t.dev (writeTo t.raw offset data (w.devices t.dev))) d =
      if d = t.dev then write (memOf w t.dev) (CpuBuffer.ptr t.raw + offset) data
      else memOf w d := by
    intro d
    rw [memOf, World.setDevice_devices, Function.update_apply]
    split <;> rfl
  have hsize : Storage.sizeBytes t.raw = CpuBuffer.bytes t.raw := rfl
  rw [hsize] at hfit
  funext q
  by_cases hq : q = p
  · subst q
    rw [Function.update_self, bytesAt_of_lookup ht, bytesAt_of_lookup (w := w.setDevice _ _) ht,
      hmem, if_pos rfl, bytesIn, bytesIn, read_write_within (by omega),
      List.take_of_length_le (by omega)]
  · rw [Function.update_of_ne hq]
    rcases ht' : w.tensors.lookup q with _ | t'
    · simp only [bytesAt, World.setDevice_tensors, ht']
    · rw [bytesAt_of_lookup ht', bytesAt_of_lookup (w := w.setDevice _ _) ht', hmem]
      split
      · rename_i hdev
        have hapart := hl.disjoint hv (Ne.symm hq) ht ht' hdev.symm
        rw [bytesIn, bytesIn, read_write_disjoint, hdev]
        refine hapart.mono (Range.within_of_le ?_ ?_) (Range.Within.refl _)
        · exact Nat.le_add_right _ _
        · show CpuBuffer.ptr t.raw + offset + data.length ≤
            CpuBuffer.ptr t.raw + CpuBuffer.bytes t.raw
          omega
      · rfl

/-- The same of elements. -/
theorem elemsAt_write : elemsAt (w.setDevice t.dev (writeTo t.raw offset data (w.devices t.dev))) =
    Function.update (elemsAt w) p
      (elemsIn t.kind t.len (splice (bytesAt w p) offset data)) := by
  have hbytes := bytesAt_write hl hv ht hfit
  funext q
  by_cases hq : q = p
  · subst q
    rw [Function.update_self, elemsAt_of_lookup (w := w.setDevice _ _) ht, hbytes,
      Function.update_self]
  · rw [Function.update_of_ne hq]
    simp only [elemsAt, World.setDevice_tensors, hbytes, Function.update_of_ne hq]

end Write

/-! ## Calls on a small tensor -/

section Raw

variable {buf src dst : CpuBuffer} {offset bytes : Nat} {data : List UInt8}

theorem uploadRaw_run (h : offset + data.length ≤ buf.bytes)
    (dev : ComputeDevice CpuBackend) :
    onRaw! (Storage.uploadRaw (B := CpuBackend) buf offset data) dev = (.ok (), writeTo buf offset data dev) := by
  have hraw : Storage.uploadRaw (B := CpuBackend) buf offset data dev.raw =
      (.ok (), dev.raw.setMem (write dev.raw.heap.mem (buf.ptr + offset) data)) := if_pos h
  rw [onRaw!, mapErr_run, onRaw_run, hraw]
  rfl

theorem downloadRaw_run (h : offset + bytes ≤ buf.bytes)
    (dev : ComputeDevice CpuBackend) : onRaw! (Storage.downloadRaw (B := CpuBackend) buf offset bytes) dev =
      (.ok (read dev.raw.heap.mem (buf.ptr + offset) bytes), dev) := by
  have hraw : Storage.downloadRaw (B := CpuBackend) buf offset bytes dev.raw =
      (.ok (read dev.raw.heap.mem (buf.ptr + offset) bytes), dev.raw) := if_pos h
  rw [onRaw!, mapErr_run, onRaw_run, hraw]
  rfl

/-- A copy in range, if the backend takes the buffers. -/
theorem copyRaw_cases {offset' : Nat} (h : offset + bytes ≤ src.bytes)
    (h' : offset' + bytes ≤ dst.bytes) (dev : ComputeDevice CpuBackend) :
    (∃ e, (onRaw (Storage.copyRaw (B := CpuBackend) src offset dst offset' bytes)).mapErr Error.Backend dev =
      (.err e, dev)) ∨
    (onRaw (Storage.copyRaw (B := CpuBackend) src offset dst offset' bytes)).mapErr Error.Backend dev =
      (.ok (), writeTo dst offset' (read dev.raw.heap.mem (src.ptr + offset) bytes) dev) := by
  rw [mapErr_run, onRaw_run]
  by_cases howner : src.owner ≠ dev.raw.owner ∨ dst.owner ≠ dev.raw.owner
  · have hraw : Storage.copyRaw (B := CpuBackend) src offset dst offset' bytes dev.raw =
        (.err "copy_raw: a buffer belongs to another device", dev.raw) := if_pos howner
    rw [hraw]
    exact .inl ⟨_, rfl⟩
  · have hraw : Storage.copyRaw (B := CpuBackend) src offset dst offset' bytes dev.raw =
        (.ok (), dev.raw.setMem (write dev.raw.heap.mem (dst.ptr + offset')
          (read dev.raw.heap.mem (src.ptr + offset) bytes))) :=
      (if_neg howner).trans (if_pos ⟨h', h⟩)
    rw [hraw]
    exact .inr rfl

theorem clearRaw_cases (buf : CpuBuffer) (dev : ComputeDevice CpuBackend) :
    (∃ e, (onRaw (Storage.clearRaw (B := CpuBackend) buf)).mapErr Error.Backend dev = (.err e, dev)) ∨
    (onRaw (Storage.clearRaw (B := CpuBackend) buf)).mapErr Error.Backend dev =
      (.ok (), writeTo buf 0 (List.replicate (buf.bytes) 0) dev) := by
  rw [mapErr_run, onRaw_run]
  by_cases howner : buf.owner ≠ dev.raw.owner
  · have hraw : Storage.clearRaw (B := CpuBackend) buf dev.raw =
        (.err "clear_raw: the buffer belongs to another device", dev.raw) := if_pos howner
    rw [hraw]
    exact .inl ⟨_, rfl⟩
  · have hraw : Storage.clearRaw (B := CpuBackend) buf dev.raw = (.ok (), dev.raw.setMem
        (write dev.raw.heap.mem buf.ptr (List.replicate buf.bytes 0))) := if_neg howner
    rw [hraw]
    exact .inr rfl

end Raw

theorem byteRange_returns (kind : DataKind) (tensorLen offset len : Nat) (b : Bool) :
    (byteRange kind tensorLen offset len b).returns = true := by
  unfold byteRange
  split
  · rfl
  · simp only
    split
    · rfl
    · split <;> rfl

section Small

variable {t src dst : Tensor CpuBackend} (ht : t.Sized) (hsmall : t.Small)

section One

include ht hsmall

/-- An upload that passes its checks writes its range. -/
theorem uploadAt_cases (offset : Nat) (data : HostData) (dev : ComputeDevice CpuBackend) :
    (∃ e, t.uploadAt offset data dev = (.err e, dev)) ∨
    (data.kind = t.kind ∧ RangeOk t.kind t.len offset data.len true ∧
      t.uploadAt offset data dev =
        (.ok (), writeTo t.raw (ByteRange.of t.kind offset data.len).start
          (Tensor.resize data.asBytes (ByteRange.of t.kind offset data.len).bytes) dev)) := by
  rw [Tensor.uploadAt, check_run]
  rcases hkind : Rules.sameKind t.kind data.kind with _ | e | _
  · simp only
    rw [check_run]
    have hreturns := byteRange_returns t.kind t.len offset data.len true
    rcases hrange : byteRange t.kind t.len offset data.len true with range | e | _
    · obtain ⟨hok, rfl⟩ := (byteRange_eq_ok hsmall).mp hrange
      have hin := (ht.inBuffer hsmall hok).2.2
      refine .inr ⟨(Rules.sameKind_eq_ok.mp hkind).symm, hok, uploadRaw_run ?_ dev⟩
      rw [Tensor.length_resize]
      exact hin
    · exact .inl ⟨e, rfl⟩
    · rw [hrange] at hreturns
      cases hreturns
  · exact .inl ⟨e, rfl⟩
  · unfold Rules.sameKind at hkind
    split at hkind <;> cases hkind

/-- A download that passes its checks reads its range. -/
theorem downloadRange_cases (offset len : Nat) (dev : ComputeDevice CpuBackend) :
    (∃ e, t.downloadRange offset len dev = (.err e, dev)) ∨
    (RangeOk t.kind t.len offset len false ∧ t.downloadRange offset len dev =
      (.ok (HostData.fromBytes t.kind
        ((read dev.raw.heap.mem (CpuBuffer.ptr t.raw + (ByteRange.of t.kind offset len).start)
          (ByteRange.of t.kind offset len).bytes).take (exactBytes t.kind len))), dev)) := by
  rw [Tensor.downloadRange, check_run]
  have hreturns := byteRange_returns t.kind t.len offset len false
  rcases hrange : byteRange t.kind t.len offset len false with range | e | _
  · obtain ⟨hok, rfl⟩ := (byteRange_eq_ok hsmall).mp hrange
    have hin := (ht.inBuffer hsmall hok).2.2
    refine .inr ⟨hok, ?_⟩
    simp only
    rw [bind_of_ok (downloadRaw_run hin dev)]
    rfl
  · exact .inl ⟨e, rfl⟩
  · rw [hrange] at hreturns
    cases hreturns

/-- **A download gives the elements that are there.** -/
theorem download_run (dev : ComputeDevice CpuBackend) : t.download dev =
    (.ok (HostData.fromBytes t.kind
      ((bytesIn dev.raw.heap.mem t.raw).take (exactBytes t.kind t.len))), dev) := by
  rcases downloadRange_cases ht hsmall 0 t.len dev with ⟨e, he⟩ | ⟨-, hdown⟩
  · exact absurd (congrArg Prod.fst he) (downloadRange_whole hsmall dev e)
  · have hexact : exactBytes t.kind t.len ≤ CpuBuffer.bytes t.raw := by
      have hbuffer := ht.buffer
      rw [bufferBytes_eq, hsmall.bytesFor] at hbuffer
      exact Nat.le_trans (Rounding.le_roundUp (by decide)) hbuffer
    have hstart : (ByteRange.of t.kind 0 t.len).start = 0 := by
      rw [ByteRange.of, Nat.zero_mul]
    have hbytes : exactBytes t.kind t.len ≤ (ByteRange.of t.kind 0 t.len).bytes :=
      Rounding.le_roundUp (by decide)
    rw [hstart, Nat.add_zero, read_take hbytes] at hdown
    rw [Tensor.download, bind_run, attempt_run, hdown, bytesIn, read_take hexact]
    rfl

omit ht hsmall in
/-- Clearing writes zeros to the whole buffer, if the backend takes it. -/
theorem zero_cases (t : Tensor CpuBackend) (dev : ComputeDevice CpuBackend) :
    (∃ e, t.zero dev = (.err e, dev)) ∨
    t.zero dev = (.ok (), writeTo t.raw 0 (List.replicate (Storage.sizeBytes t.raw) 0) dev) := by
  rcases clearRaw_cases t.raw dev with ⟨e, he⟩ | hok
  · exact .inl ⟨e, bind_of_err he⟩
  · exact .inr (bind_of_ok hok)

end One

theorem copyRanges_returns (src : Tensor CpuBackend) (srcOffset : Nat) (dst : Tensor CpuBackend)
    (dstOffset len : Nat) : (src.copyRanges srcOffset dst dstOffset len).returns = true := by
  refine Outcome.returns_bind ?_ fun _ _ => Outcome.returns_bind (byteRange_returns ..) fun _ _ =>
    Outcome.returns_bind (byteRange_returns ..) fun _ _ => rfl
  unfold Rules.sameKind
  split <;> rfl

/-- A copy that passes its checks writes its range of `dst`. -/
theorem copyChecked_cases (hs : src.Sized) (hd : dst.Sized) (hsmall : src.Small)
    (hsmall' : dst.Small) (srcOffset dstOffset len : Nat) (dev : ComputeDevice CpuBackend) :
    (∃ e, src.copyChecked srcOffset dst dstOffset len dev = (.err e, dev)) ∨
    (dst.kind = src.kind ∧ RangeOk src.kind src.len srcOffset len false ∧
      RangeOk dst.kind dst.len dstOffset len true ∧
      src.copyChecked srcOffset dst dstOffset len dev =
        (.ok (), writeTo dst.raw (ByteRange.of dst.kind dstOffset len).start
          (read dev.raw.heap.mem
            (CpuBuffer.ptr src.raw + (ByteRange.of src.kind srcOffset len).start)
            (ByteRange.of src.kind srcOffset len).bytes) dev)) := by
  rw [Tensor.copyChecked, check_run]
  have hreturns := copyRanges_returns src srcOffset dst dstOffset len
  rcases hranges : src.copyRanges srcOffset dst dstOffset len with ranges | e | _
  · obtain ⟨hkind, hok, hok', rfl⟩ := (copyRanges_eq_ok hsmall hsmall').mp hranges
    have hin := (hs.inBuffer hsmall hok).2.2
    have hin' := (hd.inBuffer hsmall' hok').2.2
    have hbytes : (ByteRange.of dst.kind dstOffset len).bytes =
        (ByteRange.of src.kind srcOffset len).bytes := by rw [hkind]; rfl
    rw [hbytes] at hin'
    simp only [hbytes]
    exact (copyRaw_cases hin hin' dev).imp_right fun h => ⟨hkind, hok, hok', h⟩
  · exact .inl ⟨e, rfl⟩
  · rw [hranges] at hreturns
    cases hreturns

end Small

end Wilupgu.Memory
