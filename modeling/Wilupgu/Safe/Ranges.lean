import Wilupgu.Safe.Sizes
import Wilupgu.Safe.Checked

/-! # Ranges that stay in their buffers

What `byteRange` lets through, as exact numbers, for a tensor whose bits don't
wrap. The ranges given to the backend are made of it alone, so they are
aligned and end in the buffer, as long as every buffer is as long as asked. -/

namespace Wilupgu

open Backend Call Rounding

/-! ## What `byteRange` lets through -/

/-- A tensor of this length has fewer than `2 ^ 64` bits, with a word to spare. -/
def SmallLen (kind : DataKind) (len : Nat) : Prop := len * kind.bitsPerElem + 64 < limit

section Bytes

variable {kind : DataKind} {tensorLen offset len : Nat} {write : Bool} {range : ByteRange}

/-- The bits of a range of `len` elements, in bytes. -/
def exactBytes (kind : DataKind) (len : Nat) : Nat := divCeil (len * kind.bitsPerElem) 8

theorem SmallLen.mono (h : SmallLen kind tensorLen) (hle : len ≤ tensorLen) : SmallLen kind len :=
  Nat.lt_of_le_of_lt (Nat.add_le_add_right (Nat.mul_le_mul_right _ hle) 64) h

theorem SmallLen.wrap (h : SmallLen kind len) : wrap (len * kind.bitsPerElem) = len * kind.bitsPerElem :=
  wrap_of_lt (Nat.lt_of_le_of_lt (Nat.le_add_right _ 64) h)

theorem SmallLen.bytesFor (h : SmallLen kind len) : kind.bytesFor len = exactBytes kind len := by
  rw [DataKind.bytesFor, h.wrap, exactBytes]

theorem SmallLen.lt_limit (h : SmallLen kind len) : len < limit :=
  Nat.lt_of_le_of_lt (Nat.le_mul_of_pos_right _ kind.bitsPerElem_pos)
    (Nat.lt_of_le_of_lt (Nat.le_add_right _ 64) h)

/-- The elements `offset..offset + len` are in a tensor of `tensorLen`, start
at a `copyAlign` boundary and, to be written, end at one or at its end. -/
structure RangeOk (kind : DataKind) (tensorLen offset len : Nat) (write : Bool) : Prop where
  le : offset + len ≤ tensorLen
  start : offset * kind.bitsPerElem % 32 = 0
  fin : write = true → offset + len = tensorLen ∨ (offset + len) * kind.bitsPerElem % 32 = 0

/-- What such a range moves. -/
def ByteRange.of (kind : DataKind) (offset len : Nat) : ByteRange where
  start := offset * kind.bitsPerElem / 8
  bytes := roundUp (exactBytes kind len) copyAlign
  exact := exactBytes kind len

/-- **What `byteRange` lets through.** -/
theorem byteRange_eq_ok (hsmall : SmallLen kind tensorLen) :
    byteRange kind tensorLen offset len write = .ok range ↔
      RangeOk kind tensorLen offset len write ∧ range = .of kind offset len := by
  by_cases hle : offset + len ≤ tensorLen
  · have hadd : checkedAdd offset len = some (offset + len) :=
      if_pos (Nat.lt_of_le_of_lt hle hsmall.lt_limit)
    have hoffset := (hsmall.mono (Nat.le_trans (Nat.le_add_right offset len) hle)).wrap
    have hfin := (hsmall.mono hle).wrap
    have hlen := (hsmall.mono (Nat.le_trans (Nat.le_add_left len offset) hle)).bytesFor
    have hbytes : nextMultipleOf (exactBytes kind len) copyAlign =
        roundUp (exactBytes kind len) copyAlign := hlen ▸ nextMultipleOf_bytesFor kind len
    simp only [byteRange, hadd, Option.filter_some, hle, decide_true, if_true, hoffset, hfin,
      hlen, hbytes]
    have h32 : copyAlign * 8 = 32 := rfl
    rw [h32]
    constructor
    · intro h
      split at h
      · cases h
      · rename_i hstart
        split at h
        · cases h
        · rename_i hend
          refine ⟨⟨hle, not_not.mp hstart, fun hw => ?_⟩, (Outcome.ok.inj h).symm⟩
          by_contra hne
          exact hend ⟨hw, fun he => hne (.inl he), fun he => hne (.inr he)⟩
    · intro h
      obtain ⟨hok, rfl⟩ := h
      rw [if_neg (not_not.mpr hok.start), if_neg]
      · rfl
      · intro hend
        obtain ⟨hw, hne, hmod⟩ := hend
        exact (hok.fin hw).elim hne hmod
  · have hnone : (checkedAdd offset len).filter (· ≤ tensorLen) = none := by
      unfold checkedAdd
      split
      · rw [Option.filter_some, if_neg (by simpa using hle)]
      · rfl
    simp only [byteRange, hnone]
    exact iff_of_false (by simp) fun h => hle h.1.le

/-- The range ends where the elements' bytes end, rounded up from the start. -/
theorem RangeOk.bytes_le (h : RangeOk kind tensorLen offset len write) :
    (ByteRange.of kind offset len).start + (ByteRange.of kind offset len).bytes ≤
      roundUp (exactBytes kind tensorLen) copyAlign := by
  obtain ⟨k, hk⟩ := Nat.dvd_of_mod_eq_zero h.start
  have hstart : (ByteRange.of kind offset len).start = 4 * k := by
    simp only [ByteRange.of, hk]
    omega
  rw [hstart]
  calc 4 * k + roundUp (exactBytes kind len) copyAlign
      = roundUp (4 * k + exactBytes kind len) copyAlign :=
        (roundUp_add (by decide) (Nat.mul_mod_right 4 k)).symm
    _ = roundUp (exactBytes kind (offset + len)) copyAlign := by
        rw [exactBytes, exactBytes, ← divCeil_mul_add (by decide), Nat.add_mul, hk,
          show 8 * (4 * k) = 32 * k by omega]
    _ ≤ roundUp (exactBytes kind tensorLen) copyAlign :=
        roundUp_mono (by decide) (divCeil_mono (by decide) (Nat.mul_le_mul_right _ h.le))

/-- The whole of a tensor can always be read and written. -/
theorem rangeOk_whole (kind : DataKind) (tensorLen : Nat) (write : Bool) :
    RangeOk kind tensorLen 0 tensorLen write where
  le := Nat.le_of_eq (Nat.zero_add _)
  start := by rw [Nat.zero_mul]
  fin _ := .inl (Nat.zero_add _)

end Bytes

/-! ## Calls on memory -/

section Logs

variable {B : Type} [Storage B] [Dispatch B] [Capturable B]

/-- `bytes` bytes from `offset` on, aligned and in the buffer. -/
def InBuffer (buf : Storage.Buffer B) (offset bytes : Nat) : Prop :=
  offset % copyAlign = 0 ∧ bytes % copyAlign = 0 ∧ offset + bytes ≤ Storage.sizeBytes buf

/-- A call's ranges are in the buffers it names. -/
def Backend.RawCall.InBuffers : RawCall B → Prop
  | .upload buf offset data => InBuffer buf offset data.length
  | .download buf offset bytes => InBuffer buf offset bytes
  | .copy src srcOffset dst dstOffset bytes =>
    InBuffer src srcOffset bytes ∧ InBuffer dst dstOffset bytes
  | .clear _ | .execute _ _ | .replay _ => True

/-- What reaches the backend from `l` to `l'` is in its buffers. -/
def Logs (l l' : Logged B) : Prop := ∀ call ∈ l'.log, call ∈ l.log ∨ call.InBuffers

theorem frame_logs : Frame (Logs (B := B)) := by
  refine ⟨fun _ _ => .inl, fun {l₁ l₂ l₃} h h' call hm => ?_⟩
  exact (h' call hm).elim (h call) .inr

variable {ε α : Type}

theorem quiet_logs (c : Call B ε α) : Keeps Logs (Logged.quiet c) := fun _ _ => .inl

theorem noting_logs (entry : RawCall B) (h : entry.InBuffers) (c : Call B ε α) :
    Keeps Logs (Logged.noting entry c) := by
  intro l call hm
  rcases List.mem_append.mp hm with hm | hm
  · exact .inl hm
  · rw [List.mem_singleton.mp hm]
    exact .inr h

theorem tensors_logs [Areable B] : KeptByTensors (Logs (B := B)) where
  alloc _ _ := quiet_logs _
  dropBuffer _ _ _ := .inl
  reserve _ _ _ _ := .inl
  release _ _ _ := .inl
  carve _ _ := quiet_logs _

theorem nodes_logs : KeptByNodes (Logs (B := B)) where
  build _ _ _ := quiet_logs _
  update _ _ := quiet_logs _
  drop _ _ _ := .inl

theorem runs_logs : KeptByRuns (Logs (B := B)) where
  execute _ _ _ := noting_logs (.execute _ _) trivial _
  beginCapture := quiet_logs _
  endCapture := quiet_logs _
  replay _ _ := noting_logs (.replay _) trivial _
  release _ _ _ := .inl

theorem synchronize_logs (l : Logged B) : Logs l (Dispatch.synchronize l) := fun _ => .inl

/-! ## Calls on small tensors -/

omit [Dispatch B] [Capturable B] in
/-- A tensor of fewer than `2 ^ 64` bits, with a word to spare. -/
def Tensor.Small (t : Tensor B) : Prop := SmallLen t.kind t.len

omit [Dispatch B] [Capturable B] in
theorem Tensor.Sized.inBuffer {t : Tensor B} {offset len : Nat} {write : Bool} (ht : t.Sized)
    (hsmall : t.Small) (h : RangeOk t.kind t.len offset len write) :
    InBuffer t.raw (ByteRange.of t.kind offset len).start
      (ByteRange.of t.kind offset len).bytes := by
  have hle := h.bytes_le
  have hbuffer := ht.buffer
  rw [bufferBytes_eq, hsmall.bytesFor] at hbuffer
  refine ⟨?_, roundUp_mod _ _, Nat.le_trans hle hbuffer⟩
  have hstart := h.start
  simp only [ByteRange.of, copyAlign]
  omega

omit [Dispatch B] [Capturable B] in
/-- The checks of a copy between small tensors. -/
theorem copyRanges_eq_ok {src dst : Tensor B} (hsrc : src.Small) (hdst : dst.Small)
    {srcOffset dstOffset len : Nat} {ranges : ByteRange × ByteRange} :
    src.copyRanges srcOffset dst dstOffset len = .ok ranges ↔
      dst.kind = src.kind ∧ RangeOk src.kind src.len srcOffset len false ∧
        RangeOk dst.kind dst.len dstOffset len true ∧
        ranges = (.of src.kind srcOffset len, .of dst.kind dstOffset len) := by
  rw [Tensor.copyRanges, Outcome.check_bind_eq_ok, Rules.sameKind_eq_ok]
  simp only [Outcome.bind_eq_ok, byteRange_eq_ok hsrc, byteRange_eq_ok hdst, Outcome.pure_def,
    Outcome.ok.injEq]
  constructor
  · intro h
    obtain ⟨hkind, _, ⟨hs, rfl⟩, _, ⟨hd, rfl⟩, hr⟩ := h
    exact ⟨hkind, hs, hd, hr.symm⟩
  · intro h
    obtain ⟨hkind, hs, hd, rfl⟩ := h
    exact ⟨hkind, _, ⟨hs, rfl⟩, _, ⟨hd, rfl⟩, rfl⟩

omit [Dispatch B] [Capturable B] in
@[simp] theorem Tensor.length_resize (bytes : List UInt8) (n : Nat) :
    (Tensor.resize bytes n).length = n := by
  rw [Tensor.resize, List.length_rightpad, List.length_take]
  omega

variable {t src dst : Tensor (Logged B)}

theorem uploadAt_logs (ht : t.Sized) (hsmall : t.Small) (offset : Nat) (data : HostData) :
    Keeps (Along Logs) (t.uploadAt offset data) := by
  have hF := frame_along (frame_logs (B := B))
  refine hF.lift_bind fun _ => hF.check_bind fun range hrange => ?_
  obtain ⟨hok, rfl⟩ := (byteRange_eq_ok hsmall).mp hrange
  refine keeps_mapErr (along_of_beside (keeps_onRaw (noting_logs _ ?_ _)))
  show InBuffer (B := B) t.raw _ _
  rw [Tensor.length_resize]
  exact ht.inBuffer hsmall hok

theorem upload_logs (ht : t.Sized) (hsmall : t.Small) (data : HostData) :
    Keeps (Along Logs) (t.upload data) :=
  (frame_along frame_logs).lift_bind fun _ => uploadAt_logs ht hsmall 0 data

theorem downloadRange_logs (ht : t.Sized) (hsmall : t.Small) (offset len : Nat) :
    Keeps (Along Logs) (t.downloadRange offset len) := by
  have hF := frame_along (frame_logs (B := B))
  refine hF.check_bind fun range hrange => ?_
  obtain ⟨hok, rfl⟩ := (byteRange_eq_ok hsmall).mp hrange
  refine hF.bind (keeps_mapErr (along_of_beside (keeps_onRaw (noting_logs _ ?_ _)))) fun _ => hF.pure _
  exact ht.inBuffer hsmall hok

theorem download_logs (ht : t.Sized) (hsmall : t.Small) : Keeps (Along Logs) t.download := by
  have hF := frame_along (frame_logs (B := B))
  refine hF.bind (keeps_attempt (downloadRange_logs ht hsmall 0 t.len)) fun r => ?_
  cases r with
  | ok data => exact hF.pure data
  | error e => exact hF.lift .panic

theorem copyChecked_logs (hs : src.Sized) (hd : dst.Sized) (hsmall : src.Small)
    (hsmall' : dst.Small) (srcOffset dstOffset len : Nat) :
    Keeps (Along Logs) (src.copyChecked srcOffset dst dstOffset len) := by
  have hF := frame_along (frame_logs (B := B))
  refine hF.check_bind fun ranges hranges => ?_
  obtain ⟨hkind, hok, hok', rfl⟩ := (copyRanges_eq_ok hsmall hsmall').mp hranges
  refine keeps_mapErr (along_of_beside (keeps_onRaw (noting_logs _ ?_ _)))
  have hsrc := hs.inBuffer hsmall hok
  rw [← hkind] at hsrc
  exact ⟨hkind ▸ hsrc, hd.inBuffer hsmall' hok'⟩

theorem copyInto_logs (hs : src.Sized) (hd : dst.Sized) (hsmall : src.Small)
    (hsmall' : dst.Small) (srcOffset dstOffset len : Nat) :
    Keeps (Along Logs) (src.copyInto srcOffset dst dstOffset len) := by
  have hF := frame_along (frame_logs (B := B))
  exact hF.lift_bind fun _ => hF.bind (copyChecked_logs hs hd hsmall hsmall' _ _ _) fun _ =>
    keeps_modify fun dev => synchronize_logs dev.raw

theorem zero_logs (t : Tensor (Logged B)) : Keeps (Along Logs) t.zero := by
  have hF := frame_along (frame_logs (B := B))
  exact hF.bind (keeps_mapErr (along_of_beside (keeps_onRaw (noting_logs (.clear _) trivial _))))
    fun _ => keeps_modify fun dev => synchronize_logs dev.raw

/-! ## Steps -/

variable [Areable B] {w w' : World (Logged B)}

/-- The tensor at `p`, if one is there, is small. -/
def World.SmallAt (w : World B) (p : Nat) : Prop :=
  ∀ t ∈ w.tensors.lookup p, t.Small

/-- The tensor bound at `slot` in scope `s` is. -/
def World.SmallIn (w : World B) (s slot : Nat) : Prop :=
  ∀ scope ∈ w.scopes.lookup s, ∀ p ∈ scope.bufs[slot]?, w.SmallAt p

/-- The call is made on small tensors. -/
def MemoryAct.OnSmall (w : World B) : MemoryAct → Prop
  | upload p _ | uploadAt p _ _ | download p | downloadRange p _ _ | zero p => w.SmallAt p
  | copyInto p _ q _ _ => w.SmallAt p ∧ w.SmallAt q
  | scopeUpload s slot _ | scopeDownload s slot => w.SmallIn s slot
  | scopeCopy s src _ dst _ _ => w.SmallIn s src ∧ w.SmallIn s dst

def Act.OnSmall (w : World B) : Act B → Prop
  | memory a => a.OnSmall w
  | tensor _ | node _ | scope _ | run _ => True

/-- Every device's log grows by calls in their buffers. -/
abbrev World.Logs (w w' : World (Logged B)) : Prop := w.Devices (Along Wilupgu.Logs) w'

theorem frame_worldLogs : Frame (World.Logs (B := B)) := frame_devices (frame_along frame_logs)

theorem onDevice_logs {d : Nat} {c : Call (ComputeDevice (Logged B)) ε α}
    (h : Keeps (Along Logs) c) : Keeps World.Logs (World.onDevice d c) :=
  keeps_onDevice (fun _ _ _ => devices_setDevice (frame_along frame_logs)) h

theorem onTensor_logs {p : Nat} {c : Tensor (Logged B) → Call (ComputeDevice (Logged B)) Error α}
    (h : ∀ t, w.tensors.lookup p = some t → Keeps (Along Logs) (c t)) :
    w.Logs (World.onTensor p c w).2 := by
  rw [World.onTensor, bind_of_ok (get_run w)]
  refine frame_worldLogs.check_bind_at fun t ht => ?_
  exact onDevice_logs (h t (Outcome.expect_eq_ok.mp ht)) w

/-- What a call on the tensor bound at a slot follows. -/
theorem onBound_logs {s slot : Nat} {c : Tensor (Logged B) → Call (ComputeDevice (Logged B)) Error α}
    (h : ∀ scope p t, w.scopes.lookup s = some scope → scope.bufs[slot]? = some p →
      w.tensors.lookup p = some t → Keeps (Along Logs) (c t)) :
    w.Logs ((do
      let w ← .get
      let t ← w.boundTensor (← w.scope s) slot
      World.onDevice t.dev (c t) : Call (World (Logged B)) Error α) w).2 := by
  rw [bind_of_ok (get_run w)]
  refine frame_worldLogs.check_bind_at fun scope hs => frame_worldLogs.check_bind_at fun t ht => ?_
  obtain ⟨p, hp, hl⟩ := boundTensor_eq_ok.mp ht
  exact onDevice_logs (h scope p t (Outcome.expect_eq_ok.mp hs) hp hl) w

theorem MemoryAct.logs (hw : w.Sized) {a : MemoryAct} (ha : a.OnSmall w) :
    w.Logs (a.run w).2 := by
  have hsized : ∀ {p t}, w.tensors.lookup p = some t → t.Sized :=
    fun ht => hw.tensors _ (AList.mem_values.mpr ⟨_, ht⟩)
  cases a with
  | upload p data =>
    rw [MemoryAct.run, silent_world]
    exact onTensor_logs fun t ht => upload_logs (hsized ht) (ha t ht) data
  | uploadAt p offset data =>
    rw [MemoryAct.run, silent_world]
    exact onTensor_logs fun t ht => uploadAt_logs (hsized ht) (ha t ht) offset data
  | download p =>
    rw [MemoryAct.run, giving_world]
    exact onTensor_logs fun t ht => download_logs (hsized ht) (ha t ht)
  | downloadRange p offset len =>
    rw [MemoryAct.run, giving_world]
    exact onTensor_logs fun t ht => downloadRange_logs (hsized ht) (ha t ht) offset len
  | zero p =>
    rw [MemoryAct.run, silent_world]
    exact onTensor_logs fun t _ => zero_logs t
  | copyInto p srcOffset q dstOffset len =>
    rw [MemoryAct.run, silent_world, World.copyInto, bind_of_ok (get_run w)]
    refine frame_worldLogs.check_bind_at fun dst hdst => onTensor_logs fun src hsrc => ?_
    rw [World.tensor, Outcome.expect_eq_ok] at hdst
    exact copyInto_logs (hsized hsrc) (hsized hdst) (ha.1 src hsrc) (ha.2 dst hdst) _ _ _
  | scopeUpload s slot data =>
    rw [MemoryAct.run, silent_world]
    exact onBound_logs fun scope p t hs hp ht =>
      upload_logs (hsized ht) (ha scope hs p hp t ht) data
  | scopeDownload s slot =>
    rw [MemoryAct.run, giving_world]
    exact onBound_logs fun scope p t hs hp ht =>
      download_logs (hsized ht) (ha scope hs p hp t ht)
  | scopeCopy s src srcOffset dst dstOffset len =>
    rw [MemoryAct.run, silent_world]
    unfold Scope.copy
    split
    · exact frame_worldLogs.lift _ w
    · rw [bind_of_ok (get_run w)]
      refine frame_worldLogs.check_bind_at fun scope hs =>
        frame_worldLogs.check_bind_at fun t ht => frame_worldLogs.check_bind_at fun t' ht' => ?_
      rw [World.scope, Outcome.expect_eq_ok] at hs
      obtain ⟨p, hp, hl⟩ := boundTensor_eq_ok.mp ht
      obtain ⟨p', hp', hl'⟩ := boundTensor_eq_ok.mp ht'
      exact onDevice_logs (copyChecked_logs (hsized hl) (hsized hl') (ha.1 scope hs p hp t hl)
        (ha.2 scope hs p' hp' t' hl') _ _ _) w

/-- **What a step on small tensors gives the backend is in its buffers.** -/
theorem logs_step [Topology B] {e : Event (Logged B)} (hw : w.Sized) (h : w.Step e w')
    (he : e.act.OnSmall w) : w.Logs w' := by
  obtain ⟨ha, hr⟩ := h
  rcases e with ⟨a, out⟩
  obtain rfl : (a.perform w).2 = w' := congrArg Prod.snd hr
  cases a with
  | tensor a => exact (TensorAct.keeps frame_logs tensors_logs a w).2
  | memory a => exact MemoryAct.logs hw he
  | node a => exact fun d => ((NodeAct.keeps frame_logs nodes_logs a w).2 d).2
  | scope a => exact fun d => ((ScopeAct.keeps frame_logs synchronize_logs a w).2 d).2
  | run a => exact fun d => ((RunAct.keeps frame_logs runs_logs a w).2 d).2

/-- The whole of a small tensor passes the checks of a download. -/
theorem downloadRange_whole {B : Type} [Storage B] {t : Tensor B} (h : t.Small)
    (dev : ComputeDevice B) (e : Error) : (t.downloadRange 0 t.len dev).1 ≠ .err e := by
  have hrange := (byteRange_eq_ok h).mpr ⟨rangeOk_whole t.kind t.len false, rfl⟩
  rw [Tensor.downloadRange, hrange, check_run]
  simp only
  rw [bind_run, onRaw!, mapErr_run]
  rcases onRaw (Storage.downloadRaw t.raw _ _) dev with ⟨data | e | _, dev'⟩
  · simp [pure_run]
  · exact e.elim
  · simp

/-- **A run on small tensors gives the backend ranges in its buffers only**,
and the `expect` of a download meets no error. -/
theorem small_run_stays_in_buffers [Topology B] [LawfulStorage B] [LawfulAreable B]
    {raws : Nat → B} {poolBytes : Nat → Nat} {es : List (Event (Logged B))}
    (h : Transition.Runs (Transition.Where World.Step fun w e => e.act.OnSmall w)
      (World.init (fun d => ⟨raws d, []⟩) poolBytes) es w) :
    (∀ d, ∀ call ∈ logOf w d, call.InBuffers) ∧
      ∀ t ∈ w.tensors.values, t.Small → ∀ dev e, (t.downloadRange 0 t.len dev).1 ≠ .err e := by
  refine ⟨?_, fun t _ ht dev e => downloadRange_whole ht dev e⟩
  have hinv : w.Sized ∧ ∀ d, ∀ call ∈ logOf w d, call.InBuffers := by
    refine h.preserves (I := fun w => w.Sized ∧ ∀ d, ∀ call ∈ logOf w d, call.InBuffers)
      (fun w e w' hw hstep => ?_) ⟨sized_init _ _, fun d call hm => by cases hm⟩
    obtain ⟨hstep, he⟩ := hstep
    refine ⟨sized_step hw.1 hstep, fun d call hm => ?_⟩
    exact (logs_step hw.1 hstep he d call hm).elim (hw.2 d call) id
  exact hinv.2

end Logs

/-! ## A run on small tensors -/

section Small

variable {B : Type} [Storage B]

instance (t : Tensor B) : Decidable t.Small := inferInstanceAs (Decidable (_ < _))

variable [Dispatch B] [Capturable B] [Areable B]

instance (w : World B) (p : Nat) : Decidable (w.SmallAt p) :=
  inferInstanceAs (Decidable (∀ t ∈ w.tensors.lookup p, t.Small))

instance (w : World B) (s slot : Nat) : Decidable (w.SmallIn s slot) :=
  inferInstanceAs (Decidable (∀ scope ∈ w.scopes.lookup s, ∀ p ∈ scope.bufs[slot]?, w.SmallAt p))

instance MemoryAct.decidableOnSmall (w : World B) : (a : MemoryAct) → Decidable (a.OnSmall w)
  | upload p _ | uploadAt p _ _ | download p | downloadRange p _ _ | zero p =>
    inferInstanceAs (Decidable (w.SmallAt p))
  | copyInto p _ q _ _ => inferInstanceAs (Decidable (w.SmallAt p ∧ w.SmallAt q))
  | scopeUpload s slot _ | scopeDownload s slot => inferInstanceAs (Decidable (w.SmallIn s slot))
  | scopeCopy s src _ dst _ _ => inferInstanceAs (Decidable (w.SmallIn s src ∧ w.SmallIn s dst))

instance Act.decidableOnSmall (w : World B) : (a : Act B) → Decidable (a.OnSmall w)
  | memory a => MemoryAct.decidableOnSmall w a
  | tensor _ | node _ | scope _ | run _ => isTrue trivial

end Small

namespace Sample

open Backends.Sample

/-- Five nibbles are uploaded as a word of eight, copied and downloaded. -/
def nibbles : List (Act (Logged Backends.CpuBackend)) := [
  .tensor (.alloc 0 env 0 .Int4 5), .tensor (.alloc 0 env 1 .Int4 12),
  .memory (.upload 0 (.Int4 [0x76543210])), .memory (.copyInto 0 0 1 8 8), .memory (.download 1)]

end Sample

open Sample

set_option maxRecDepth 4000

/-- One whose three calls on memory all reach the backend. -/
theorem small_run_stays_in_buffers_once : ∃ w : World (Logged Backends.CpuBackend),
    (logOf w 0).length = 3 ∧ ∀ call ∈ logOf w 0, call.InBuffers := by
  have hplay : (logged.play (fun w a => a.OnSmall w) nibbles).isSome = true := by decide
  have hlog : (logOf (logged.after nibbles) 0).length = 3 := by decide
  obtain ⟨es, hrun⟩ := World.runs_after hplay
  exact ⟨logged.after nibbles, hlog, (small_run_stays_in_buffers hrun).1 0⟩

end Wilupgu
