import Wilupgu.Safe.Origin
import Wilupgu.Backends.Cpu

/-! # What a tensor's buffer holds

Every buffer, allocated, carved or from a pool, has the bytes that
`bufferBytes` gives for its kind and length. That count is taken of a product
that wraps, so it covers the tensor's elements exactly if the product fits. -/

namespace Wilupgu

open Backend Call Rounding

variable {kind : DataKind} {len : Nat}

/-! ## Byte counts -/

/-- A count of bytes is an eighth of a `u64`, so rounding it to `copyAlign`
doesn't wrap. -/
theorem nextMultipleOf_bytesFor (kind : DataKind) (len : Nat) :
    nextMultipleOf (kind.bytesFor len) copyAlign = roundUp (kind.bytesFor len) copyAlign := by
  have hbits : kind.bytesFor len * 8 < wrap (len * kind.bitsPerElem) + 8 := roundUp_lt (by decide)
  have hwrap := wrap_lt (len * kind.bitsPerElem)
  have hup : roundUp (kind.bytesFor len) copyAlign < kind.bytesFor len + 4 := roundUp_lt (by decide)
  refine nextMultipleOf_eq (by decide) ?_
  simp only [limit] at *
  omega

theorem bufferBytes_eq (kind : DataKind) (len : Nat) :
    bufferBytes kind len = roundUp (kind.bytesFor len) copyAlign := nextMultipleOf_bytesFor kind len

/-- The bytes asked for hold what the product left of the bits. -/
theorem wrap_le_bufferBytes (kind : DataKind) (len : Nat) :
    wrap (len * kind.bitsPerElem) ≤ bufferBytes kind len * 8 := by
  have hbits : wrap (len * kind.bitsPerElem) ≤ kind.bytesFor len * 8 := le_roundUp (by decide)
  have hup : kind.bytesFor len ≤ bufferBytes kind len := by
    rw [bufferBytes_eq]
    exact le_roundUp (by decide)
  omega

/-- They are less than two words more. -/
theorem bufferBytes_lt (kind : DataKind) (len : Nat) :
    bufferBytes kind len * 8 < wrap (len * kind.bitsPerElem) + 40 := by
  have hbits : kind.bytesFor len * 8 < wrap (len * kind.bitsPerElem) + 8 := roundUp_lt (by decide)
  have hup : bufferBytes kind len < kind.bytesFor len + 4 := by
    rw [bufferBytes_eq]
    exact roundUp_lt (by decide)
  omega

/-- A length is made of whole words also where rounding it wraps. -/
theorem wholeWords_mod (kind : DataKind) (len : Nat) :
    wholeWords kind len % kind.elemsPerHostWord = 0 := by
  refine nextMultipleOf_mod kind.elemsPerHostWord_pos ?_
  cases kind <;> decide

/-! ## Buffers as long as asked -/

section Sized

variable {B : Type} [Storage B]

/-- A tensor made of whole words, its buffer as long as one is asked for. -/
structure Tensor.Sized (t : Tensor B) : Prop where
  whole : t.len % t.kind.elemsPerHostWord = 0
  buffer : bufferBytes t.kind t.len ≤ Storage.sizeBytes t.raw

/-- A pool whose buffers are as long as their keys say. -/
def PoolSized (dev : ComputeDevice B) : Prop :=
  ∀ b ∈ dev.pool.blocks, bufferBytes b.1.1 b.1.2 ≤ Storage.sizeBytes b.2

theorem allocBuffer_sized [LawfulStorage B] {env : Storage.Env B} {dev dev' : ComputeDevice B}
    {buf : Storage.Buffer B} (hpool : PoolSized dev)
    (h : ComputeDevice.allocBuffer env kind len dev = (.ok buf, dev')) :
    bufferBytes kind len ≤ Storage.sizeBytes buf := by
  obtain ⟨pooled, dev₁, htake, h⟩ := bind_eq_ok.mp h
  cases pooled with
  | some b =>
    cases h
    rcases ht : dev.pool.take Storage.sizeBytes kind len with ⟨taken, pool⟩
    rw [ComputeDevice.takePooled, total_run, ht] at htake
    cases htake
    exact hpool ((kind, len), buf) ((BufferPool.take_some _ ht).mem_iff.mpr (.head _))
  | none =>
    obtain ⟨first, dev₂, hfirst, h⟩ := bind_eq_ok.mp h
    cases first with
    | ok b =>
      cases h
      rw [attempt_eq_ok, onRaw_eq_ok] at hfirst
      exact LawfulStorage.allocRaw_size hfirst.1
    | error e =>
      obtain ⟨_, dev₃, -, h⟩ := bind_eq_ok.mp h
      rw [mapErr_eq_ok, onRaw_eq_ok] at h
      exact LawfulStorage.allocRaw_size h.1

/-- It panics only if the backend does. -/
theorem allocBuffer_returns {env : Storage.Env B}
    (h : ∀ bytes raw, (Storage.allocRaw env bytes raw).1.returns = true) (dev : ComputeDevice B) :
    (ComputeDevice.allocBuffer env kind len dev).1.returns = true := by
  refine returns_bind rfl fun pooled dev₁ _ => ?_
  cases pooled with
  | some b => rfl
  | none =>
    refine returns_bind (returns_attempt (h _ _)) fun first dev₂ _ => ?_
    cases first with
    | ok b => rfl
    | error e => exact returns_bind rfl fun _ dev₃ _ => returns_mapErr (h _ _)

variable [Topology B] {dev dev' : ComputeDevice B} {t : Tensor B}

theorem alloc_sized [LawfulStorage B] {id : Nat} {env : Storage.Env B} (hpool : PoolSized dev)
    (h : ComputeDevice.alloc id env kind len dev = (.ok t, dev')) : t.Sized := by
  obtain ⟨buf, rfl, hb⟩ := deviceAlloc_ok h
  exact ⟨wholeWords_mod kind len, allocBuffer_sized hpool hb⟩

theorem carve_sized [Areable B] [LawfulAreable B] {key : Nat} {area area' : DeviceArea B}
    (h : area.alloc key kind len dev = (.ok (t, area'), dev')) : t.Sized := by
  obtain ⟨buf, raw', rfl, -, -, hb⟩ := areaAlloc_ok h
  exact ⟨wholeWords_mod kind len, LawfulAreable.carve_size hb⟩

theorem alloc_returns {env : Storage.Env B}
    (h : ∀ bytes raw, (Storage.allocRaw env bytes raw).1.returns = true) (id : Nat)
    (dev : ComputeDevice B) : (ComputeDevice.alloc id env kind len dev).1.returns = true :=
  returns_bind rfl fun _ _ _ =>
    returns_bind (Rules.supportedKind_returns _ _) fun _ _ _ =>
      returns_bind (allocBuffer_returns h _) fun _ _ _ => rfl

theorem carve_returns [Areable B] {area : DeviceArea B}
    (h : ∀ bytes raw, (Areable.carve area.raw bytes raw).1.returns = true) (key : Nat)
    (dev : ComputeDevice B) : (area.alloc key kind len dev).1.returns = true :=
  returns_bind rfl fun _ _ _ =>
    returns_bind (Rules.supportedKind_returns _ _) fun _ _ _ =>
      returns_bind (returns_mapErr (h _ _)) fun _ _ _ => rfl

/-- Every tensor there is and every pooled buffer is as long as asked. -/
structure World.Sized [Dispatch B] [Capturable B] [Areable B] (w : World B) : Prop where
  tensors : ∀ t ∈ w.tensors.values, t.Sized
  pools : ∀ d, PoolSized (w.devices d)

variable [Dispatch B] [Capturable B] [Areable B] {w w' : World B}

omit [Topology B] in
theorem sized_init (raws : Nat → B) (poolBytes : Nat → Nat) : (World.init raws poolBytes).Sized where
  tensors t ht := by cases ht
  pools d b hb := by cases hb

theorem sized_step [LawfulStorage B] [LawfulAreable B] {e : Event B} (hw : w.Sized)
    (h : w.Step e w') : w'.Sized where
  tensors t ht := by
    rcases made_step h ht with ht | ⟨a, -, hm⟩
    · exact hw.tensors t ht
    · cases hm with
      | alloc hm => exact alloc_sized (hw.pools _) hm
      | carve _ hm => exact carve_sized hm
  pools d b hb := by
    rcases pooled_step h hb with hb | ⟨t, ht, buf, -, hm, rfl⟩
    · exact hw.pools d b hb
    · have := (hw.tensors t ht).buffer
      rwa [Tensor.raw, hm] at this

/-- **Every buffer is as long as asked**, wherever it came from. -/
theorem sized [LawfulStorage B] [LawfulAreable B] {raws : Nat → B} {poolBytes : Nat → Nat}
    (h : w.Reachable raws poolBytes) : w.Sized :=
  h.invariant (sized_init raws poolBytes) fun _ _ _ => sized_step

/-! ## Tensors that hold their elements -/

/-- The length rounded up to whole words takes fewer than `2 ^ 64` bits. -/
def Fits (kind : DataKind) (len : Nat) : Prop :=
  roundUp len kind.elemsPerHostWord * kind.bitsPerElem < limit

omit [Topology B] [Dispatch B] [Capturable B] [Areable B] in
/-- At least as long as asked, and the buffer holds all of it. -/
def Tensor.Holds (t : Tensor B) (len : Nat) : Prop :=
  len ≤ t.len ∧ t.len * t.kind.bitsPerElem ≤ Storage.sizeBytes t.raw * 8

theorem roundUp_le_of_fits (h : Fits kind len) : roundUp len kind.elemsPerHostWord < limit :=
  Nat.lt_of_le_of_lt (Nat.le_mul_of_pos_right _ kind.bitsPerElem_pos) h

omit [Topology B] [Dispatch B] [Capturable B] [Areable B] in
theorem Tensor.Sized.holds (ht : t.Sized) (hlen : t.len = wholeWords t.kind len)
    (h : Fits t.kind len) : t.Holds len := by
  have hround : t.len = roundUp len t.kind.elemsPerHostWord :=
    hlen.trans (nextMultipleOf_eq t.kind.elemsPerHostWord_pos (roundUp_le_of_fits h))
  have hbits := wrap_le_bufferBytes t.kind t.len
  rw [wrap_of_lt (by rw [hround]; exact h)] at hbits
  refine ⟨?_, Nat.le_trans hbits (Nat.mul_le_mul_right 8 ht.buffer)⟩
  rw [hround]
  exact le_roundUp t.kind.elemsPerHostWord_pos

omit [Topology B] [Dispatch B] [Capturable B] [Areable B] in
/-- Where the length doesn't fit, a buffer of just the bytes asked for is too
small, or the tensor is shorter than asked. -/
theorem Tensor.not_holds (hlen : t.len = wholeWords t.kind len)
    (hsize : Storage.sizeBytes t.raw = bufferBytes t.kind t.len) (h : ¬Fits t.kind len) :
    ¬t.Holds len := by
  intro hholds
  obtain ⟨hle, hall⟩ := hholds
  rcases nextMultipleOf_cases (n := len) t.kind.elemsPerHostWord_pos
    (by cases t.kind <;> decide) with hround | hlt
  · have hbig : limit ≤ t.len * t.kind.bitsPerElem := by
      rw [hlen, wholeWords, hround]
      exact Nat.le_of_not_lt h
    have hwrap := wrap_add_limit_le hbig
    have hbytes := bufferBytes_lt t.kind t.len
    have hlimit : 40 ≤ limit := by decide
    omega
  · rw [hlen] at hle
    exact absurd hlt (Nat.not_lt.mpr hle)

/-- What `ComputeDevice::alloc` gives on any device holds what was asked for,
and it panics only if the backend does. -/
def World.AllocHolds (w : World B) (kind : DataKind) (len : Nat) : Prop :=
  ∀ d env, (∀ t, (ComputeDevice.alloc d env kind len (w.devices d)).1 = .ok t → t.Holds len) ∧
    ((∀ bytes raw, (Storage.allocRaw env bytes raw).1.returns = true) →
      (ComputeDevice.alloc d env kind len (w.devices d)).1.returns = true)

/-- So does what `DeviceArea::alloc` gives of any area. -/
def World.CarveHolds (w : World B) (kind : DataKind) (len : Nat) : Prop :=
  ∀ a area, w.areas.lookup a = some area →
    (∀ t area', (area.alloc a kind len (w.devices area.dev)).1 = .ok (t, area') → t.Holds len) ∧
    ((∀ bytes raw, (Areable.carve area.raw bytes raw).1.returns = true) →
      (area.alloc a kind len (w.devices area.dev)).1.returns = true)

/-- What fits, a reachable world's allocations hold. -/
theorem allocHolds_of_fits [LawfulStorage B] [LawfulAreable B] {raws : Nat → B}
    {poolBytes : Nat → Nat} (hw : w.Reachable raws poolBytes) (h : Fits kind len) :
    w.AllocHolds kind len := by
  intro d env
  refine ⟨fun t ht => ?_, fun hret => alloc_returns hret d _⟩
  have hok := Prod.ext (y := (Outcome.ok t, _)) ht rfl
  obtain ⟨buf, rfl, -⟩ := deviceAlloc_ok hok
  exact (alloc_sized ((sized hw).pools d) hok).holds rfl h

theorem carveHolds_of_fits [LawfulAreable B] (h : Fits kind len) : w.CarveHolds kind len := by
  intro a area harea
  refine ⟨fun t area' ht => ?_, fun hret => carve_returns hret a _⟩
  have hok := Prod.ext (y := (Outcome.ok (t, area'), _)) ht rfl
  obtain ⟨buf, raw', rfl, -⟩ := areaAlloc_ok hok
  exact (carve_sized hok).holds rfl h

end Sized

/-! ## A backend that gives no more than asked -/

section Cpu

open Backends Backends.Sample

/-- A block of host words has the bytes of a count that is rounded to words. -/
theorem cpu_bytes (kind : DataKind) (len : Nat) :
    divCeil (bufferBytes kind len) 4 * 4 = bufferBytes kind len := by
  change roundUp (bufferBytes kind len) copyAlign = _
  rw [bufferBytes_eq]
  exact roundUp_of_mod (roundUp_mod _ _)

/-- CPU devices without a pool. -/
def cpus : World CpuBackend := .init .attach fun _ => 0

/-- One of them with an area of `bytes` bytes. -/
def reserved (bytes : Nat) : World CpuBackend := (World.reserve 0 env 0 bytes cpus).2

theorem reachable_reserved (bytes : Nat) :
    World.Reachable CpuBackend.attach (fun _ => 0) (reserved bytes) :=
  ⟨[⟨.tensor (.reserve 0 env 0 bytes), .ok .unit⟩], .single ⟨rfl, rfl⟩⟩

/-- A new CPU tensor has the bytes that are asked for, no more. -/
theorem cpus_alloc (kind : DataKind) (len : Nat) : ∃ t : Tensor CpuBackend,
    (ComputeDevice.alloc 0 env kind len (cpus.devices 0)).1 = .ok t ∧ t.kind = kind ∧
      t.len = wholeWords kind len ∧ Storage.sizeBytes t.raw = bufferBytes kind t.len :=
  ⟨⟨.Alloc ⟨.Owned _ _, 0⟩, kind, wholeWords kind len, 0⟩, rfl, rfl, rfl, cpu_bytes kind _⟩

/-- Cutting a whole new area out of it. -/
theorem carve_whole (ptr bytes : Nat) (raw : CpuBackend) :
    Areable.carve (⟨ptr, divCeil bytes 4, 0, raw.owner⟩ : CpuArea) bytes raw =
      (.ok (⟨.Part (ptr + 0 * 4) (divCeil bytes 4), raw.owner⟩,
        ⟨ptr, divCeil bytes 4, 0 + divCeil bytes 4, raw.owner⟩), raw) := by
  simp only [Areable.carve, CpuBackend.carve]
  rw [if_neg (by simp), if_pos (Nat.le_of_eq (Nat.sub_zero _).symm)]

/-- So has one that takes up its area. -/
theorem reserved_carve (kind : DataKind) (len : Nat) :
    ∃ (area : DeviceArea CpuBackend) (t : Tensor CpuBackend) (area' : DeviceArea CpuBackend),
      (reserved (bufferBytes kind (wholeWords kind len))).areas.lookup 0 = some area ∧
      (area.alloc 0 kind len
        ((reserved (bufferBytes kind (wholeWords kind len))).devices area.dev)).1 =
          .ok (t, area') ∧
      t.kind = kind ∧ t.len = wholeWords kind len ∧
      Storage.sizeBytes t.raw = bufferBytes kind t.len := by
  generalize hbytes : bufferBytes kind (wholeWords kind len) = bytes
  obtain ⟨ptr, harea, hdev⟩ : ∃ ptr,
      (reserved bytes).areas.lookup 0 = some ⟨⟨ptr, divCeil bytes 4, 0, 0⟩, 0⟩ ∧
        ((reserved bytes).devices 0).raw.owner = 0 := ⟨_, rfl, rfl⟩
  have hcarve := carve_whole ptr bytes ((reserved bytes).devices 0).raw
  rw [hdev] at hcarve
  refine ⟨_, ⟨.Carved 0 ⟨.Part (ptr + 0 * 4) (divCeil bytes 4), 0⟩, kind, wholeWords kind len, 0⟩,
    ⟨⟨ptr, divCeil bytes 4, 0 + divCeil bytes 4, 0⟩, 0⟩, harea, ?_, rfl, rfl, ?_⟩
  · rw [areaAlloc_run rfl, hbytes, hcarve]
  · rw [← hbytes]
    exact cpu_bytes kind _

end Cpu

/-! ## Allocations hold what fits, and nothing else -/

/-- In every reachable world of every backend that keeps its promises,
`ComputeDevice::alloc` gives tensors that hold what was asked for. -/
def AllocAlwaysHolds (kind : DataKind) (len : Nat) : Prop :=
  ∀ (B : Type) [Storage B] [Dispatch B] [Capturable B] [Areable B] [Topology B]
    [LawfulStorage B] [LawfulAreable B] (raws : Nat → B) (poolBytes : Nat → Nat) (w : World B),
    w.Reachable raws poolBytes → w.AllocHolds kind len

/-- So does `DeviceArea::alloc`. -/
def CarveAlwaysHolds (kind : DataKind) (len : Nat) : Prop :=
  ∀ (B : Type) [Storage B] [Dispatch B] [Capturable B] [Areable B] [Topology B]
    [LawfulStorage B] [LawfulAreable B] (raws : Nat → B) (poolBytes : Nat → Nat) (w : World B),
    w.Reachable raws poolBytes → w.CarveHolds kind len

/-- **A tensor holds what was asked for exactly if that fits.** -/
theorem alloc_holds_iff_fits (kind : DataKind) (len : Nat) :
    (AllocAlwaysHolds kind len ↔ Fits kind len) ∧
      (CarveAlwaysHolds kind len ↔ Fits kind len) := by
  refine ⟨⟨fun hall => ?_, fun hfits => ?_⟩, ⟨fun hall => ?_, fun hfits => ?_⟩⟩
  · by_contra hnot
    obtain ⟨t, ht, rfl, hlen, hsize⟩ := cpus_alloc kind len
    have hholds := hall Backends.CpuBackend .attach (fun _ => 0) cpus .refl
    exact t.not_holds hlen hsize hnot ((hholds 0 _).1 t ht)
  · intro B _ _ _ _ _ _ _ raws poolBytes w hw
    exact allocHolds_of_fits hw hfits
  · by_contra hnot
    obtain ⟨area, t, area', harea, ht, rfl, hlen, hsize⟩ := reserved_carve kind len
    have hholds := hall Backends.CpuBackend .attach (fun _ => 0) _
      (reachable_reserved (bufferBytes t.kind (wholeWords t.kind len))) 0 area harea
    exact t.not_holds hlen hsize hnot (hholds.1 t area' ht)
  · intro B _ _ _ _ _ _ _ raws poolBytes w hw
    exact carveHolds_of_fits hfits

/-- `2 ^ 59` floats take `2 ^ 64` bits, which wrap to none: the tensor says it
has them all, and its buffer has no byte. -/
theorem wrapped_alloc_holds_nothing : ∃ t : Tensor Backends.CpuBackend,
    (ComputeDevice.alloc 0 Backends.Sample.env .F32 (2 ^ 59) (cpus.devices 0)).1 = .ok t ∧
      t.len = 2 ^ 59 ∧ Storage.sizeBytes t.raw = 0 ∧ ¬AllocAlwaysHolds .F32 (2 ^ 59) := by
  obtain ⟨t, ht, hkind, hlen, hsize⟩ := cpus_alloc .F32 (2 ^ 59)
  have hwords : wholeWords .F32 (2 ^ 59) = 2 ^ 59 := by decide
  have hbytes : bufferBytes .F32 (2 ^ 59) = 0 := by decide
  rw [hlen, hwords] at hsize
  refine ⟨t, ht, hlen.trans hwords, hsize.trans hbytes, fun hall => ?_⟩
  have hholds := (hall Backends.CpuBackend .attach (fun _ => 0) cpus .refl 0 _).1 t ht
  have hbits := hholds.2
  rw [hkind, hlen, hwords, hsize, hbytes] at hbits
  exact absurd hbits (by decide)

end Wilupgu
