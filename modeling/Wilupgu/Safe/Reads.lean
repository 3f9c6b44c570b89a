import Wilupgu.Safe.Elements

/-! # Reading a range back

`download_range` moves whole bytes and makes whole host words of them. What it
returns is the range that was asked for exactly if the range is made of whole
host words, and, for a tensor whose length in bits wrapped, if it ends in what
is left of it. -/

namespace Wilupgu

open Backend Call Rounding

/-- A buffer has bytes, and reading a range that is in it and aligned gives its
part of them. -/
class LawfulReads (B : Type) [Storage B] where
  bytes : B → Storage.Buffer B → List UInt8
  length_bytes (raw : B) (buf : Storage.Buffer B) : (bytes raw buf).length = Storage.sizeBytes buf
  downloadRaw_spec {raw : B} {buf : Storage.Buffer B} {offset n : Nat} :
    offset % copyAlign = 0 → n % copyAlign = 0 → offset + n ≤ Storage.sizeBytes buf →
      ∃ raw', Storage.downloadRaw buf offset n raw =
        (.ok (((bytes raw buf).drop offset).take n), raw')

/-- A range that comes back as asked: whole host words, up to what the tensor's
bits are modulo `2 ^ 64`. -/
def ReadsAsAsked (kind : DataKind) (tensorLen offset len : Nat) : Prop :=
  len = 0 ∨ kind.elemsPerHostWord ∣ len ∧
    (offset + len) * kind.bitsPerElem ≤ wrap (tensorLen * kind.bitsPerElem)

/-- What was returned is the range of the whole. -/
def IsRangeOf (data whole : HostData) (offset len : Nat) : Prop :=
  data.len = len ∧ data.elems = (whole.elems.drop offset).take len

/-! ## Lengths that wrapped -/

variable {kind : DataKind} {tensorLen offset len : Nat} {range : ByteRange}

/-- What is left of a length of whole words is whole words. -/
theorem exists_left (h : kind.elemsPerHostWord ∣ tensorLen) :
    ∃ n, wrap (tensorLen * kind.bitsPerElem) = n * kind.elemsPerHostWord * kind.bitsPerElem := by
  obtain ⟨n, rfl⟩ := exists_eq_mul_left_of_dvd h
  have hword : kind.hostWordBytes * 8 ∣ limit := by cases kind <;> decide
  rw [wordBits, Nat.mul_assoc, wrap]
  obtain ⟨k, hk⟩ := (Nat.dvd_mod_iff hword).mpr (Nat.dvd_mul_left (kind.hostWordBytes * 8) n)
  exact ⟨k, by rw [hk, wordBits, Nat.mul_comm, ← Nat.mul_assoc]⟩

/-- What any range that is let through for reading is. -/
theorem byteRange_ok (h : byteRange kind tensorLen offset len false = .ok range) :
    offset + len ≤ tensorLen ∧ offset + len < limit ∧
      wrap (offset * kind.bitsPerElem) % 32 = 0 ∧
      range = ⟨wrap (offset * kind.bitsPerElem) / 8, nextMultipleOf (kind.bytesFor len) copyAlign,
        kind.bytesFor len⟩ := by
  simp only [byteRange] at h
  split at h
  · cases h
  · rename_i fin hfin
    obtain ⟨hadd, hle⟩ := Option.filter_eq_some_iff.mp hfin
    unfold checkedAdd at hadd
    split at hadd
    · rename_i hlt
      cases hadd
      split at h
      · cases h
      · rename_i hstart
        split at h
        · rename_i hw
          exact absurd hw.1 (by simp)
        · exact ⟨of_decide_eq_true hle, hlt, not_not.mp hstart, (Outcome.ok.inj h).symm⟩
    · cases hadd

/-- The whole of a tensor always is. -/
theorem byteRange_whole (h : tensorLen < limit) :
    byteRange kind tensorLen 0 tensorLen false =
      .ok ⟨0, bufferBytes kind tensorLen, kind.bytesFor tensorLen⟩ := by
  have hadd : checkedAdd 0 tensorLen = some tensorLen := by
    rw [checkedAdd, Nat.zero_add, if_pos h]
  have hfin : Option.filter (fun fin => decide (fin ≤ tensorLen)) (some tensorLen) =
      some tensorLen := by simp
  simp [byteRange, hadd, hfin, wrap, bufferBytes]

theorem bytesFor_of_le {n : Nat}
    (h : len * kind.bitsPerElem ≤ wrap (n * kind.bitsPerElem)) :
    kind.bytesFor len = exactBytes kind len := by
  rw [DataKind.bytesFor, exactBytes, wrap_of_lt (Nat.lt_of_le_of_lt h (wrap_lt _))]

/-! ## Downloads -/

section Tensors

variable {B : Type} [Storage B] {t : Tensor B} {dev dev' : ComputeDevice B} {data : HostData}

/-- What is returned, is made of what the backend read. -/
theorem downloadRange_ok (h : t.downloadRange offset len dev = (.ok data, dev')) :
    ∃ range bytes raw', byteRange t.kind t.len offset len false = .ok range ∧
      Storage.downloadRaw t.raw range.start range.bytes dev.raw = (.ok bytes, raw') ∧
      data = .fromBytes t.kind (bytes.take range.exact) := by
  rw [Tensor.downloadRange, Call.check_eq_ok] at h
  obtain ⟨range, hrange, h⟩ := h
  obtain ⟨bytes, dev₁, hread, h⟩ := bind_eq_ok.mp h
  cases h
  rw [onRaw!, mapErr_eq_ok, onRaw, zoom_run] at hread
  obtain ⟨hbytes, -⟩ := Prod.mk.inj hread
  exact ⟨range, bytes, _, hrange, Prod.ext hbytes rfl, rfl⟩

variable [LawfulReads B]

/-- The bytes of the tensor's buffer. -/
abbrev Tensor.bytes (t : Tensor B) (dev : ComputeDevice B) : List UInt8 :=
  LawfulReads.bytes dev.raw t.raw

theorem Tensor.Sized.bytesFor_le (ht : t.Sized) (dev : ComputeDevice B) :
    t.kind.bytesFor t.len ≤ (t.bytes dev).length := by
  have hup : t.kind.bytesFor t.len ≤ bufferBytes t.kind t.len := by
    rw [bufferBytes_eq]
    exact le_roundUp (by decide)
  rw [Tensor.bytes, LawfulReads.length_bytes]
  exact hup.trans ht.buffer

/-- **The whole of a tensor**: the first bytes of its buffer. -/
theorem download_ok (ht : t.Sized) (hlen : t.len < limit) (dev : ComputeDevice B) :
    ∃ dev', t.download dev =
      (.ok (.fromBytes t.kind ((t.bytes dev).take (t.kind.bytesFor t.len))), dev') := by
  have hup : t.kind.bytesFor t.len ≤ bufferBytes t.kind t.len := by
    rw [bufferBytes_eq]
    exact le_roundUp (by decide)
  have haligned : bufferBytes t.kind t.len % copyAlign = 0 := by
    rw [bufferBytes_eq]
    exact roundUp_mod _ _
  have hinside : 0 + bufferBytes t.kind t.len ≤ Storage.sizeBytes t.raw := by
    rw [Nat.zero_add]
    exact ht.buffer
  obtain ⟨raw', hread⟩ : ∃ raw', Storage.downloadRaw t.raw 0 (bufferBytes t.kind t.len) dev.raw =
      (.ok (((t.bytes dev).drop 0).take (bufferBytes t.kind t.len)), raw') :=
    LawfulReads.downloadRaw_spec (Nat.zero_mod _) haligned hinside
  refine ⟨{ dev with raw := raw' }, ?_⟩
  have hrange : t.downloadRange 0 t.len dev =
      (.ok (.fromBytes t.kind ((t.bytes dev).take (t.kind.bytesFor t.len))),
        { dev with raw := raw' }) := by
    rw [Tensor.downloadRange, byteRange_whole hlen, check_run]
    simp only
    rw [bind_run, onRaw!, mapErr_run, onRaw, zoom_run, hread]
    simp only [Outcome.mapErr_ok, pure_run, List.drop_zero, List.take_take, Nat.min_eq_left hup]
  rw [Tensor.download, bind_run, attempt_run, hrange]
  rfl

/-- **When a range comes back as asked**: whatever the buffer holds. -/
theorem downloadRange_iff (ht : t.Sized) (hlen : t.len < limit)
    (h : t.downloadRange offset len dev = (.ok data, dev')) :
    ∃ whole dev'', t.download dev = (.ok whole, dev'') ∧
      (IsRangeOf data whole offset len ↔ ReadsAsAsked t.kind t.len offset len) := by
  obtain ⟨dev'', hdownload⟩ := download_ok ht hlen dev
  refine ⟨_, dev'', hdownload, ?_⟩
  obtain ⟨range, bytes, raw', hrange, hread, rfl⟩ := downloadRange_ok h
  obtain ⟨hle, -, hstart, rfl⟩ := byteRange_ok hrange
  obtain ⟨n, hn⟩ := exists_left (Nat.dvd_of_mod_eq_zero ht.whole)
  -- as many bytes as what is left of the length has
  have hexact : t.kind.bytesFor t.len = exactBytes t.kind (n * t.kind.elemsPerHostWord) := by
    rw [DataKind.bytesFor, hn, exactBytes]
  have hbytes := ht.bytesFor_le dev
  rw [hexact] at hbytes
  have hwhole : (HostData.fromBytes t.kind ((t.bytes dev).take (t.kind.bytesFor t.len))).elems =
      elemsIn t.kind (n * t.kind.elemsPerHostWord) (t.bytes dev) := by rw [hexact, elemsIn]
  have hcount : (elemsIn t.kind (n * t.kind.elemsPerHostWord) (t.bytes dev)).length =
      n * t.kind.elemsPerHostWord := length_elemsIn (by rwa [exactBytes_words] at hbytes)
  rw [IsRangeOf, ReadsAsAsked, hwhole, hn]
  constructor
  · intro hasked
    obtain ⟨hlenof, helems⟩ := hasked
    rcases Nat.eq_zero_or_pos len with hzero | hpos
    · exact .inl hzero
    · refine .inr ⟨?_, Nat.mul_le_mul_right _ ?_⟩
      · rw [← hlenof, HostData.len, HostData.kind_fromBytes]
        exact Nat.dvd_mul_left _ _
      · have hfits := congrArg List.length helems
        rw [HostData.length_elems, hlenof, List.length_take, List.length_drop, hcount] at hfits
        omega
  · intro hcond
    rcases hcond with rfl | ⟨hwords, hend⟩
    · have hempty : t.kind.bytesFor 0 = 0 := by
        rw [DataKind.bytesFor, Nat.zero_mul]
        rfl
      have hnone : (HostData.fromBytes t.kind (bytes.take 0)).elems = [] := by
        rw [List.take_zero]
        cases t.kind <;> rfl
      rw [hempty]
      refine ⟨?_, hnone.trans List.take_zero.symm⟩
      rw [← HostData.length_elems, hnone]
      rfl
    · rw [← hn] at hend
      have hstart' : wrap (offset * t.kind.bitsPerElem) = offset * t.kind.bitsPerElem :=
        wrap_of_lt (Nat.lt_of_le_of_lt
          ((Nat.mul_le_mul_right _ (Nat.le_add_right _ _)).trans hend) (wrap_lt _))
      have hlen' : t.kind.bytesFor len = exactBytes t.kind len :=
        bytesFor_of_le ((Nat.mul_le_mul_right _ (Nat.le_add_left _ _)).trans hend)
      have hround : nextMultipleOf (t.kind.bytesFor len) copyAlign =
          roundUp (exactBytes t.kind len) copyAlign := by rw [nextMultipleOf_bytesFor, hlen']
      have hof : (⟨wrap (offset * t.kind.bitsPerElem) / 8,
          nextMultipleOf (t.kind.bytesFor len) copyAlign, t.kind.bytesFor len⟩ : ByteRange) =
          .of t.kind offset len := by
        rw [hround, hstart', hlen']
        rfl
      rw [hn] at hend
      have hok : RangeOk t.kind (n * t.kind.elemsPerHostWord) offset len false :=
        ⟨Nat.le_of_mul_le_mul_right hend t.kind.bitsPerElem_pos, hstart' ▸ hstart,
          fun hf => absurd hf Bool.false_ne_true⟩
      rw [hof] at hread ⊢
      have hin : (ByteRange.of t.kind offset len).start + (ByteRange.of t.kind offset len).bytes ≤
          Storage.sizeBytes t.raw := by
        refine hok.bytes_le.trans (Nat.le_trans (Nat.le_of_eq ?_) ht.buffer)
        rw [bufferBytes_eq, hexact]
      have hstart4 : (ByteRange.of t.kind offset len).start % copyAlign = 0 := by
        have h32 := hok.start
        simp only [ByteRange.of, copyAlign]
        omega
      have hbytes4 : (ByteRange.of t.kind offset len).bytes % copyAlign = 0 := roundUp_mod _ _
      obtain ⟨raw'', hspec⟩ := LawfulReads.downloadRaw_spec hstart4 hbytes4 hin
      rw [hspec] at hread
      cases hread
      have helems := elemsIn_read hok (Nat.dvd_mul_left _ _) hwords hbytes
      refine ⟨?_, helems⟩
      have hcount' := congrArg List.length helems
      rw [List.length_take, List.length_drop, hcount] at hcount'
      rw [← HostData.length_elems]
      refine hcount'.trans ?_
      have hle' := hok.le
      omega

end Tensors

/-! ## Every tensor there is -/

variable {B : Type} [Storage B] [Dispatch B] [Capturable B] [Areable B] [Topology B]
  {w : World B} {t : Tensor B} {data : HostData} {dev' : ComputeDevice B}

/-- **When `download_range` returns the range it was asked for.** -/
theorem download_range_returns_as_asked_iff [LawfulStorage B] [LawfulAreable B] [LawfulReads B]
    {raws : Nat → B} {poolBytes : Nat → Nat} (h : w.Reachable raws poolBytes) {p : Nat}
    (hp : w.tensors.lookup p = some t) (hlen : t.len < limit)
    (hd : t.downloadRange offset len (w.devices t.dev) = (.ok data, dev')) :
    ∃ whole dev'', t.download (w.devices t.dev) = (.ok whole, dev'') ∧
      (IsRangeOf data whole offset len ↔ ReadsAsAsked t.kind t.len offset len) :=
  downloadRange_iff ((sized h).tensors t (AList.mem_values.mpr ⟨p, hp⟩)) hlen hd

/-! ## On the CPU -/

section Cpu

open Backends ByteMemory

instance : LawfulReads CpuBackend where
  bytes raw buf := read raw.heap.mem buf.ptr buf.bytes
  length_bytes raw buf := length_read _ _ _
  downloadRaw_spec {raw buf offset n} _ _ h := by
    refine ⟨raw, ?_⟩
    have hin : offset + n ≤ buf.bytes := h
    show _ = (Outcome.ok (((read raw.heap.mem buf.ptr buf.bytes).drop offset).take n), raw)
    rw [← read_sub hin]
    exact if_pos h

end Cpu

namespace Sample

open Backends Backends.Sample

/-- Eight nibbles, and five `f16`s. -/
def written : List (Act CpuBackend) := [
  .tensor (.alloc 0 env 0 .Int4 8), .memory (.upload 0 (.Int4 [0x76543210])),
  .tensor (.alloc 0 env 1 .F16 5), .memory (.upload 1 (.F16 [1, 2, 3, 4, 5]))]

set_option maxRecDepth 8000 in
/-- **Three nibbles come back as eight**, the fourth one not asked for. -/
theorem three_nibbles_come_back_as_eight : ∃ (w : World CpuBackend) (t : Tensor CpuBackend)
    (data : HostData), World.Reachable CpuBackend.attach (fun _ => 0) w ∧
      w.tensors.lookup 0 = some t ∧ t.kind = .Int4 ∧ t.len = 8 ∧
      (t.downloadRange 0 3 (w.devices t.dev)).1 = .ok data ∧ data.len = 8 ∧
      data.elems = [0, 1, 2, 3, 0, 0, 0, 0] := by
  obtain ⟨es, w, hplay, t, data, hdata⟩ : ∃ es w, cpus.play (fun _ _ => True) written = some (es, w) ∧
      ∃ (t : Tensor CpuBackend) (data : HostData), w.tensors.lookup 0 = some t ∧ t.kind = .Int4 ∧
        t.len = 8 ∧ (t.downloadRange 0 3 (w.devices t.dev)).1 = .ok data ∧ data.len = 8 ∧
        data.elems = [0, 1, 2, 3, 0, 0, 0, 0] :=
    ⟨_, _, rfl, _, _, rfl, rfl, rfl, rfl, rfl, rfl⟩
  exact ⟨w, t, data, ⟨es, (World.runs_of_play hplay).of_where⟩, hdata⟩

set_option maxRecDepth 8000 in
/-- The third `f16` alone comes back as that. -/
theorem one_f16_comes_back : ∃ (w : World CpuBackend) (t : Tensor CpuBackend)
    (data whole : HostData), World.Reachable CpuBackend.attach (fun _ => 0) w ∧
      w.tensors.lookup 1 = some t ∧ (t.downloadRange 2 1 (w.devices t.dev)).1 = .ok data ∧
      (t.download (w.devices t.dev)).1 = .ok whole ∧ IsRangeOf data whole 2 1 := by
  obtain ⟨es, w, hplay, t, data, dev', hp, hlen, hd, hasked⟩ : ∃ es w,
      cpus.play (fun _ _ => True) written = some (es, w) ∧
      ∃ (t : Tensor CpuBackend) (data : HostData) (dev' : ComputeDevice CpuBackend),
        w.tensors.lookup 1 = some t ∧ t.len = 5 ∧
        t.downloadRange 2 1 (w.devices t.dev) = (.ok data, dev') ∧
        ReadsAsAsked t.kind t.len 2 1 :=
    ⟨_, _, rfl, _, _, _, rfl, rfl, rfl, .inr ⟨by decide, by decide⟩⟩
  have hreach : World.Reachable CpuBackend.attach (fun _ => 0) w :=
    ⟨es, (World.runs_of_play hplay).of_where⟩
  obtain ⟨whole, dev'', hwhole, hiff⟩ :=
    download_range_returns_as_asked_iff hreach hp (hlen ▸ by decide) hd
  exact ⟨w, t, data, whole, hreach, hp, congrArg Prod.fst hd, congrArg Prod.fst hwhole,
    hiff.mpr hasked⟩

end Sample
end Wilupgu
