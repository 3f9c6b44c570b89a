import Wilupgu.Capture.Slots
import Wilupgu.Memory.Balance
import Wilupgu.Memory.Lists

/-! # What a call changes

On the CPU backend a call changes the bytes of the tensors it writes and bytes
that are in no live block, whatever else the program does meanwhile. So a
tensor's contents stay the same, wherever it is moved, until a call writes it. -/

namespace Wilupgu.Capture

open Backend Backends ByteMemory Call Memory Transition

variable {w w' : World CpuBackend} {d : Nat}

/-! ## Which tensors a call writes -/

/-- The tensor at `p` is one that the call writes. A replay writes what its
scope has bound at the addresses of the recorded `Write`s. -/
def Writes (w : World CpuBackend) : Act CpuBackend → Nat → Prop
  | .memory (.upload q _), p | .memory (.uploadAt q _ _), p | .memory (.zero q), p
  | .memory (.copyInto _ _ q _ _), p => p = q
  | .memory (.scopeUpload s slot _), p | .memory (.scopeCopy s _ _ slot _ _), p =>
    slotPlace w s slot = some p
  | .run (.execute s _ args), p =>
    ∃ arg ∈ args, arg.isWrite = true ∧ slotPlace w s arg.slot = some p
  | .run (.replay s r), p =>
    ∃ scope ∈ w.scopes.lookup s, p ∈ scope.bufs ∧ ∃ recording ∈ w.recordings.lookup r,
      ∃ call ∈ recording.calls, ∃ arg ∈ call.args, arg.isWrite = true ∧
        ∃ t ∈ w.tensors.lookup p, Storage.address t.raw = arg.address
  | _, _ => False

instance (w : World CpuBackend) (p : Nat) : (a : Act CpuBackend) → Decidable (Writes w a p)
  | .memory (.upload q _) | .memory (.uploadAt q _ _) | .memory (.zero q)
  | .memory (.copyInto _ _ q _ _) => inferInstanceAs (Decidable (p = q))
  | .memory (.scopeUpload s slot _) | .memory (.scopeCopy s _ _ slot _ _) =>
    inferInstanceAs (Decidable (slotPlace w s slot = some p))
  | .run (.execute s _ args) => inferInstanceAs (Decidable
    (∃ arg ∈ args, arg.isWrite = true ∧ slotPlace w s arg.slot = some p))
  | .run (.replay s r) => inferInstanceAs (Decidable
    (∃ scope ∈ w.scopes.lookup s, p ∈ scope.bufs ∧ ∃ recording ∈ w.recordings.lookup r,
      ∃ call ∈ recording.calls, ∃ arg ∈ call.args, arg.isWrite = true ∧
        ∃ t ∈ w.tensors.lookup p, Storage.address t.raw = arg.address))
  | .memory (.download _) | .memory (.downloadRange _ _ _) | .memory (.scopeDownload _ _)
  | .run (.beginCapture _) | .run (.endCapture _ _ _) | .run (.unwindCapture _)
  | .run (.dropRecording _) | .tensor _ | .node _ | .scope _ => isFalse not_false

/-- Where the tensor at `p` is after a call, if it isn't dropped. -/
def placeAfter (w : World CpuBackend) : Act CpuBackend → Nat → Option Nat
  | .tensor (.dropTensor q), p => if p = q then none else some p
  | .tensor (.moveTensor q q'), p => if p = q then some q' else some p
  | .tensor (.replaceTensor q q'), p =>
    if (World.replaceTensor q q' w).1.isOk then
      if p = q then some q' else if p = q' then some q else some p
    else some p
  | _, p => some p

/-! ## On a device -/

section Devices

variable {A A' : Nat → Prop}

/-- No byte outside of `A` is changed. -/
def Only (A : Nat → Prop) (raw raw' : CpuBackend) : Prop :=
  ChangesOnly A raw.heap.mem raw'.heap.mem

theorem frame_only (A : Nat → Prop) : Frame (Only A) where
  refl raw := .refl A raw.heap.mem
  trans := ChangesOnly.trans

theorem Only.of_heap {raw raw' : CpuBackend} (h : raw'.heap.mem = raw.heap.mem) : Only A raw raw' :=
  fun a _ => by rw [h]

/-- Writing in a buffer changes its bytes. -/
theorem only_write {buf : CpuBuffer} {offset : Nat} {data : List UInt8} (raw : CpuBackend)
    (h : offset + data.length ≤ buf.bytes) :
    Only (· ∈ buf.range) raw
      (raw.setMem (ByteMemory.write raw.heap.mem (buf.ptr + offset) data)) := by
  refine ChangesOnly.write _ fun a ha => ?_
  rw [Range.mem_iff] at ha
  rw [CpuBuffer.range, Range.mem_iff]
  simp only at ha ⊢
  omega

theorem uploadRaw_only (buf : CpuBuffer) (offset : Nat) (data : List UInt8) :
    Keeps (Only (· ∈ buf.range)) (CpuBackend.uploadRaw buf offset data) := by
  intro raw
  simp only [CpuBackend.uploadRaw]
  split
  · exact only_write raw ‹_›
  · exact (frame_only _).refl raw

theorem copyRaw_only (src : CpuBuffer) (srcOffset : Nat) (dst : CpuBuffer) (dstOffset bytes : Nat) :
    Keeps (Only (· ∈ dst.range)) (CpuBackend.copyRaw src srcOffset dst dstOffset bytes) := by
  intro raw
  simp only [CpuBackend.copyRaw]
  split
  · exact (frame_only _).refl raw
  · split
    · refine only_write raw ?_
      rw [length_read]
      exact And.left ‹_›
    · exact (frame_only _).refl raw

theorem clearRaw_only (buf : CpuBuffer) :
    Keeps (Only (· ∈ buf.range)) (CpuBackend.clearRaw buf) := by
  intro raw
  simp only [CpuBackend.clearRaw]
  split
  · exact (frame_only _).refl raw
  · have hfits : 0 + (List.replicate buf.bytes (0 : UInt8)).length ≤ buf.bytes := by simp
    have h := only_write raw hfits
    rwa [Nat.add_zero] at h

/-- A new block is in no live one. -/
theorem heapAlloc_only (env : Allocator dangling) (words : Nat) (raw : CpuBackend) :
    Only (fun a => ∀ r ∈ raw.heap.blocks, a ∉ r) raw
      (raw.setHeap (raw.heap.alloc env words).2) := by
  refine ChangesOnly.write _ fun a ha r hr => ?_
  rw [List.length_replicate] at ha
  exact heap_alloc_disjoint env words raw.heap r hr a ha

/-- The bytes of the slots that a call writes. -/
def WrittenIn (slots : List CpuSlot) (a : Nat) : Prop :=
  ∃ slot ∈ slots, slot.isWrite = true ∧ a ∈ slot.range

theorem writeBack_only {slots : List CpuSlot} {ends : List (List UInt8)} {m₀ : Mem} (m : Mem)
    (h : List.Forall₂ NativeBinding.Keeps (slots.map (CpuSlot.binding m₀)) ends) :
    ChangesOnly (WrittenIn slots) m (CpuSlot.writeBack m slots ends) := by
  induction slots generalizing ends m with
  | nil => exact .refl _ m
  | cons slot rest ih =>
    cases ends with
    | nil => cases h
    | cons bytes ends =>
      rw [List.map_cons, List.forall₂_cons] at h
      obtain ⟨hkeeps, hrest⟩ := h
      have hlater (m : Mem) : ChangesOnly (WrittenIn (slot :: rest)) m
          (CpuSlot.writeBack m rest ends) := by
        refine (ih m hrest).mono ?_
        rintro a ⟨other, hother, ha⟩
        exact ⟨other, List.mem_cons_of_mem slot hother, ha⟩
      cases slot with
      | Read ptr len => exact hlater m
      | Write ptr len =>
        refine .trans (.write m fun a ha => ⟨_, List.mem_cons_self, rfl, ?_⟩) (hlater _)
        -- the slot's bytes are as many as before
        have hlen : bytes.length = len := by
          simpa only [CpuSlot.binding, NativeBinding.Keeps, length_read] using hkeeps
        rw [hlen] at ha
        exact ha

theorem runNative_only (node : CpuNode) (slots : List CpuSlot) :
    Keeps (Only (WrittenIn slots)) (CpuBackend.runNative node slots) :=
  fun raw => writeBack_only raw.heap.mem (node.code.keeps _ _)

/-- So does a device that isn't recording; one that is only notes the call. -/
theorem executeRaw_only (address : Nat) (node : CpuNode) (bindings : List (Access CpuBuffer)) :
    Keeps (Only (WrittenIn (bindings.map CpuSlot.ofAccess)))
      (CpuBackend.executeRaw address node bindings) := by
  intro raw
  simp only [CpuBackend.executeRaw]
  split
  · exact (frame_only _).refl raw
  · split
    · exact (frame_only _).refl raw
    · split
      · exact .of_heap rfl
      · exact runNative_only node _ raw

theorem replay_only (nodes : Nat → Option CpuNode) (capture : CpuCapture) :
    Keeps (Only fun a => ∃ call ∈ capture.calls, WrittenIn call.slots a)
      (CpuBackend.replay nodes capture) := by
  have hF := frame_only fun a => ∃ call ∈ capture.calls, WrittenIn call.slots a
  suffices hcalls : ∀ calls : List CpuCall, calls ⊆ capture.calls →
      Keeps (Only fun a => ∃ call ∈ capture.calls, WrittenIn call.slots a)
        (CpuBackend.replayCalls nodes calls) by
    intro raw
    simp only [CpuBackend.replay]
    split
    · exact hF.refl raw
    · exact hcalls capture.calls (List.Subset.refl _) raw
  intro calls hsub
  induction calls with
  | nil => exact hF.pure ()
  | cons call rest ih =>
    obtain ⟨hcall, hrest⟩ := List.cons_subset.mp hsub
    refine hF.lift_bind fun node => hF.bind ?_ fun _ => ih hrest
    exact (runNative_only node call.slots).mono fun _ _ h => h.mono fun a ha => ⟨call, hcall, ha⟩

end Devices

/-! ## Tensors' contents -/

section Tensors

variable {t : Tensor CpuBackend}

/-- The bytes of a tensor's buffer. -/
def InBuffer (t : Tensor CpuBackend) (a : Nat) : Prop := a ∈ CpuBuffer.range t.raw

theorem uploadAt_only (t : Tensor CpuBackend) (offset : Nat) (data : HostData) :
    Keeps (Along (Only (InBuffer t))) (t.uploadAt offset data) :=
  (frame_along (frame_only _)).lift_bind fun _ => (frame_along (frame_only _)).lift_bind fun _ =>
    keeps_mapErr (along_of_beside (keeps_onRaw (uploadRaw_only t.raw _ _)))

theorem upload_only (t : Tensor CpuBackend) (data : HostData) :
    Keeps (Along (Only (InBuffer t))) (t.upload data) :=
  (frame_along (frame_only _)).lift_bind fun _ => uploadAt_only t 0 data

theorem downloadRange_only {A : Nat → Prop} (t : Tensor CpuBackend) (offset len : Nat) :
    Keeps (Along (Only A)) (t.downloadRange offset len) := by
  refine (frame_along (frame_only A)).lift_bind fun range => (frame_along (frame_only A)).bind
    (keeps_mapErr (along_of_beside (keeps_onRaw fun raw => ?_))) fun _ =>
      (frame_along (frame_only A)).pure _
  simp only [Storage.downloadRaw, CpuBackend.downloadRaw]
  split <;> exact (frame_only A).refl raw

theorem download_only {A : Nat → Prop} (t : Tensor CpuBackend) :
    Keeps (Along (Only A)) t.download := by
  refine (frame_along (frame_only A)).bind (keeps_attempt (downloadRange_only t 0 t.len))
    fun r => ?_
  cases r with
  | ok data => exact (frame_along (frame_only A)).pure data
  | error e => exact (frame_along (frame_only A)).lift .panic

theorem zero_only (t : Tensor CpuBackend) : Keeps (Along (Only (InBuffer t))) t.zero :=
  (frame_along (frame_only _)).bind
    (keeps_mapErr (along_of_beside (keeps_onRaw (clearRaw_only t.raw)))) fun _ =>
      fun dev => (frame_only _).refl dev.raw

theorem copyChecked_only (src : Tensor CpuBackend) (srcOffset : Nat) (dst : Tensor CpuBackend)
    (dstOffset len : Nat) :
    Keeps (Along (Only (InBuffer dst))) (src.copyChecked srcOffset dst dstOffset len) :=
  (frame_along (frame_only _)).lift_bind fun _ =>
    keeps_mapErr (along_of_beside (keeps_onRaw (copyRaw_only src.raw _ dst.raw _ _)))

theorem copyInto_only (src : Tensor CpuBackend) (srcOffset : Nat) (dst : Tensor CpuBackend)
    (dstOffset len : Nat) :
    Keeps (Along (Only (InBuffer dst))) (src.copyInto srcOffset dst dstOffset len) :=
  (frame_along (frame_only _)).lift_bind fun _ => (frame_along (frame_only _)).bind
    (copyChecked_only src srcOffset dst dstOffset len) fun _ =>
      fun dev => (frame_only _).refl dev.raw

end Tensors

/-! ## In a world -/

/-- On device `d`, no byte outside of `A d` is changed. -/
def OnlyAt (A : Nat → Nat → Prop) (w w' : World CpuBackend) : Prop :=
  ∀ d, ChangesOnly (A d) (memOf w d) (memOf w' d)

theorem frame_onlyAt (A : Nat → Nat → Prop) : Frame (OnlyAt A) where
  refl w d := .refl (A d) (memOf w d)
  trans h h' d := (h d).trans (h' d)

/-- The bytes that a call may change: those of the tensors that it writes, and
those in no live block. -/
def Touched (w : World CpuBackend) (act : Act CpuBackend) (d a : Nat) : Prop :=
  (∃ p t, Writes w act p ∧ w.tensors.lookup p = some t ∧ t.dev = d ∧ InBuffer t a) ∨
    ∀ r ∈ blocks w d, a ∉ r

theorem onlyAt_of_devices {A : Nat → Nat → Prop} (h : ∀ d, memOf w' d = memOf w d) :
    OnlyAt A w w' :=
  fun d a _ => by rw [h d]

theorem onlyAt_setDevice {A : Nat → Nat → Prop} (w : World CpuBackend) (d : Nat)
    (dev : ComputeDevice CpuBackend) (h : Only (A d) (w.devices d).raw dev.raw) :
    OnlyAt A w (w.setDevice d dev) := by
  intro d'
  by_cases hd : d' = d
  · subst hd
    have hmem : memOf (w.setDevice d' dev) d' = dev.raw.heap.mem := by simp [World.setDevice, memOf]
    rw [hmem]
    exact h
  · have hmem : memOf (w.setDevice d dev) d' = memOf w d' := by simp [World.setDevice, hd, memOf]
    rw [hmem]
    exact .refl (A d') (memOf w d')

theorem onDevice_only {ε α : Type} {A : Nat → Nat → Prop} {d : Nat}
    {c : Call (ComputeDevice CpuBackend) ε α} (h : Keeps (Along (Only (A d))) c) :
    Keeps (OnlyAt A) (World.onDevice d c) :=
  fun w => onlyAt_setDevice w d _ (h (w.devices d))

/-- A call on the device of a tensor that is written. -/
theorem onDevice_writes {α : Type} (act : Act CpuBackend) {p : Nat} {t : Tensor CpuBackend}
    (hp : Writes w act p) (ht : w.tensors.lookup p = some t) (hd : t.dev = d)
    {c : Call (ComputeDevice CpuBackend) Error α} (h : Keeps (Along (Only (InBuffer t))) c) :
    Keeps (OnlyAt (Touched w act)) (World.onDevice d c) :=
  onDevice_only (h.mono fun _ _ h => h.mono fun _ ha => .inl ⟨p, t, hp, ht, hd, ha⟩)

/-! ## Calls on contents -/

/-- The tensor bound at a slot. -/
theorem slotPlace_eq {s slot : Nat} {scope : Scope} {t : Tensor CpuBackend}
    (hs : w.scopes.lookup s = some scope) (ht : w.boundTensor scope slot = .ok t) :
    ∃ p, slotPlace w s slot = some p ∧ w.tensors.lookup p = some t := by
  obtain ⟨p, hp, ht⟩ := boundTensor_eq_ok.mp ht
  refine ⟨p, ?_, ht⟩
  rw [slotPlace, hs]
  exact hp

theorem memoryAct_only (hw : w.Valid) (act : MemoryAct) :
    OnlyAt (Touched w (.memory act)) w (act.run w).2 := by
  have hF := frame_onlyAt (Touched w (.memory act))
  have onTensor : ∀ {α : Type} {p : Nat} {c : Tensor CpuBackend → Call _ Error α},
      (∀ t, w.tensors.lookup p = some t →
        Keeps (OnlyAt (Touched w (.memory act))) (World.onDevice t.dev (c t))) →
      OnlyAt (Touched w (.memory act)) w (World.onTensor p c w).2 := by
    intro α p c h
    rw [World.onTensor, bind_of_ok (get_run w)]
    exact hF.check_bind_at fun t ht => h t (Outcome.expect_eq_ok.mp ht) w
  cases act with
  | upload p data =>
    rw [MemoryAct.run, silent_world]
    exact onTensor fun t ht => onDevice_writes (.memory (.upload p data)) rfl ht rfl
      (upload_only t data)
  | uploadAt p offset data =>
    rw [MemoryAct.run, silent_world]
    exact onTensor fun t ht => onDevice_writes (.memory (.uploadAt p offset data)) rfl ht rfl
      (uploadAt_only t offset data)
  | download p =>
    rw [MemoryAct.run, giving_world]
    exact onTensor fun t _ => onDevice_only (download_only t)
  | downloadRange p offset len =>
    rw [MemoryAct.run, giving_world]
    exact onTensor fun t _ => onDevice_only (downloadRange_only t offset len)
  | copyInto p srcOffset q dstOffset len =>
    rw [MemoryAct.run, silent_world, World.copyInto, bind_of_ok (get_run w)]
    refine hF.check_bind_at fun dst hdst => onTensor fun src _ => ?_
    by_cases hdev : dst.dev = src.dev
    · exact onDevice_writes (.memory (.copyInto p srcOffset q dstOffset len)) rfl
        (Outcome.expect_eq_ok.mp hdst) hdev (copyInto_only src srcOffset dst dstOffset len)
    · -- tensors of two devices: nothing is done
      refine onDevice_only fun dev => ?_
      have hfails : Rules.sameDevice src.dev dst.dev "tensor" ≠ .ok () :=
        fun h => hdev (Rules.sameDevice_eq_ok.mp h).symm
      refine (frame_along (frame_only _)).check_bind_at fun _ h => absurd h hfails
  | zero p =>
    rw [MemoryAct.run, silent_world]
    exact onTensor fun t ht => onDevice_writes (.memory (.zero p)) rfl ht rfl (zero_only t)
  | scopeUpload s slot data =>
    rw [MemoryAct.run, silent_world, Scope.upload, bind_of_ok (get_run w)]
    refine hF.check_bind_at fun scope hscope => hF.check_bind_at fun t ht => ?_
    obtain ⟨p, hp, ht⟩ := slotPlace_eq (Outcome.expect_eq_ok.mp hscope) ht
    exact onDevice_writes (.memory (.scopeUpload s slot data)) hp ht rfl (upload_only t data) w
  | scopeDownload s slot =>
    rw [MemoryAct.run, giving_world, Scope.download, bind_of_ok (get_run w)]
    exact hF.check_bind_at fun scope _ => hF.check_bind_at fun t _ =>
      onDevice_only (download_only t) w
  | scopeCopy s src srcOffset dst dstOffset len =>
    rw [MemoryAct.run, silent_world, Scope.copy]
    split
    · exact hF.lift _ w
    · rw [bind_of_ok (get_run w)]
      refine hF.check_bind_at fun scope hscope => hF.check_bind_at fun from' _ =>
        hF.check_bind_at fun into hinto => ?_
      have hs := Outcome.expect_eq_ok.mp hscope
      obtain ⟨p, hp, ht⟩ := slotPlace_eq hs hinto
      have hdev : into.dev = scope.dev := by
        obtain ⟨p, hp, ht⟩ := boundTensor_eq_ok.mp hinto
        obtain ⟨t, ht', hd⟩ := hw.bufs s scope hs p (List.mem_of_getElem? hp)
        cases ht.symm.trans ht'
        exact hd
      exact onDevice_writes (.memory (.scopeCopy s src srcOffset dst dstOffset len)) hp ht hdev
        (copyChecked_only from' srcOffset into dstOffset len) w

/-! ## Calls that make, move and drop tensors -/

/-- A part of a live device's state that holds no bytes is changed. -/
theorem drop_only (t : Tensor CpuBackend) {A : Nat → Prop} : Keeps (Along (Only A)) t.drop := by
  intro dev
  rcases tensorDrop_cases t dev with ⟨_, _, -, -, hdrop⟩ | ⟨buf, -, hdrop⟩ | ⟨_, buf, -, hdrop⟩
  · rw [hdrop]
    exact (frame_only A).refl dev.raw
  all_goals
    rw [hdrop]
    refine .of_heap ?_
    simp only [Storage.dropBuffer, CpuBackend.dropBuffer]
    split <;> rfl

theorem allocBuffer_only (env : Allocator dangling) (kind : DataKind) (len : Nat)
    (dev : ComputeDevice CpuBackend) : Only (fun a => ∀ r ∈ dev.raw.heap.blocks, a ∉ r) dev.raw
      (ComputeDevice.allocBuffer (B := CpuBackend) env kind len dev).2.raw := by
  rcases allocBuffer_cases env kind len dev with ⟨_, _, -, hbuffer⟩ | ⟨-, hbuffer⟩ <;> rw [hbuffer]
  · exact (frame_only _).refl dev.raw
  · exact heapAlloc_only env _ dev.raw

theorem tensorAct_only {act : TensorAct CpuBackend} (ha : act.Allowed w) :
    OnlyAt (Touched w (.tensor act)) w (act.run w).2 := by
  have hnew : ∀ {d : Nat} {dev : ComputeDevice CpuBackend},
      Only (fun a => ∀ r ∈ blocks w d, a ∉ r) (w.devices d).raw dev.raw →
      OnlyAt (Touched w (.tensor act)) w (w.setDevice d dev) :=
    fun h => onlyAt_setDevice w _ _ (h.mono fun _ => .inr)
  cases act with
  | alloc d env p kind len =>
    rw [TensorAct.run, silent_world, alloc_run]
    have hdevice : Only (fun a => ∀ r ∈ blocks w d, a ∉ r) (w.devices d).raw
        (ComputeDevice.alloc (B := CpuBackend) d env kind len (w.devices d)).2.raw := by
      have hbuffer := allocBuffer_only env kind (wholeWords kind len) (w.devices d)
      have hsupported : Rules.supportedKind (w.devices d).raw kind = .ok () := rfl
      rw [ComputeDevice.alloc, bind_of_ok (get_run _), hsupported, check_run]
      simp only
      rw [Call.bind_run]
      rcases hb : ComputeDevice.allocBuffer (B := CpuBackend) env kind (wholeWords kind len)
        (w.devices d) with ⟨_ | _ | _, dev⟩ <;> rw [hb] at hbuffer <;> exact hbuffer
    rcases ht : ComputeDevice.alloc (B := CpuBackend) d env kind len (w.devices d) with
      ⟨_ | _ | _, dev⟩ <;> rw [ht] at hdevice <;> exact hnew hdevice
  | reserve d env a bytes =>
    rw [TensorAct.run, silent_world, reserve_run]
    exact hnew (heapAlloc_only env _ (w.devices d).raw)
  | carve a p kind len =>
    obtain ⟨area, harea⟩ := exists_of_mem ha.1
    rw [TensorAct.run, silent_world]
    rcases carve_cases harea p kind len with ⟨e, he⟩ | ⟨words, -, -, he⟩ <;> rw [he] <;>
      exact onlyAt_of_devices fun _ => rfl
  | dropArea a =>
    obtain ⟨area, harea⟩ := exists_of_mem ha.1
    rw [TensorAct.run, silent_world, dropArea_run harea]
    exact onlyAt_setDevice w area.dev _ (.of_heap rfl)
  | dropTensor p =>
    obtain ⟨t, ht⟩ := exists_of_mem ha.1
    rw [TensorAct.run, silent_world, dropTensor_run ht]
    exact onlyAt_setDevice w t.dev _ (drop_only t (w.devices t.dev))
  | moveTensor p q => exact onlyAt_of_devices fun _ => rfl
  | replaceTensor p q =>
    obtain ⟨t, ht⟩ := exists_of_mem ha.2.1.1
    obtain ⟨t', ht'⟩ := exists_of_mem ha.2.2.1
    rw [TensorAct.run, silent_world, replaceTensor_run ht ht']
    split <;> exact onlyAt_of_devices fun _ => rfl

/-! ## Calls that run, record and replay -/

theorem onRawDevice_only {ε α : Type} {A : Nat → Nat → Prop} {d : Nat} {c : Call CpuBackend ε α}
    (h : Keeps (Only (A d)) c) : Keeps (OnlyAt A) (World.onRawDevice d c) :=
  onDevice_only (along_of_beside (keeps_onRaw h))

theorem execute_only (hw : w.Valid) (s n : Nat) (args : List Arg) :
    OnlyAt (Touched w (.run (.execute s n args))) w (Scope.execute s n args w).2 := by
  have hF := frame_onlyAt (Touched w (.run (.execute s n args)))
  rw [Scope.execute, bind_of_ok (get_run w)]
  refine hF.check_bind_at fun scope hscope => hF.check_bind_at fun node _ =>
    hF.check_bind_at fun _ _ => hF.check_bind_at fun bindings hbindings => ?_
  have hs := Outcome.expect_eq_ok.mp hscope
  refine hF.bind (keeps_mapErr (onRawDevice_only ?_)) (fun _ => ?_) w
  · refine (executeRaw_only node.1 node.2.raw bindings).mono fun _ _ h => h.mono fun a ha => ?_
    -- a slot that is written is that of a tensor bound for a `Write`
    obtain ⟨slot, hslot, hwrite, ha⟩ := ha
    obtain ⟨binding, hbinding, rfl⟩ := List.mem_map.mp hslot
    obtain ⟨arg, harg, hgives⟩ :=
      (Outcome.mapM_eq_ok.mp hbindings).exists_of_mem_right hbinding
    obtain ⟨t, ht, he⟩ := Outcome.bind_eq_ok.mp hgives
    obtain rfl := Outcome.ok.inj he
    obtain ⟨p, hp, hlookup⟩ := slotPlace_eq hs ht
    obtain ⟨q, hq, hlookup'⟩ := boundTensor_eq_ok.mp ht
    obtain ⟨t', ht', hdev⟩ := hw.bufs s scope hs q (List.mem_of_getElem? hq)
    cases hlookup'.symm.trans ht'
    cases arg with
    | Read i => cases hwrite
    | Write i => exact .inl ⟨p, t, ⟨.Write i, harg, rfl, hp⟩, hlookup, hdev, ha⟩
  · split
    · exact fun w => onlyAt_of_devices fun _ => rfl
    · exact hF.pure ()

/-- What a replay on device `d` writes, as long as no tensor is shorter than
a slot recorded at its address. -/
theorem replay_writes (hw : w.Valid) (hrecorded : Recorded w d) (hkept : SlotsKept d w)
    {s r : Nat} {scope : Scope} {recording : Recording CpuBackend}
    (hs : w.scopes.lookup s = some scope) (hr : w.recordings.lookup r = some recording)
    (hd : scope.dev = d) (hcheck : Scope.checkRecorded w scope recording = .ok ()) {a : Nat}
    (ha : ∃ call ∈ recording.raw.calls, WrittenIn call.slots a) :
    Touched w (.run (.replay s r)) d a := by
  obtain ⟨hdev, -, hcalls⟩ := checkRecorded_eq_ok.mp hcheck
  have hrd : recording.dev = d := hdev.symm.trans hd
  obtain ⟨raw, hraw, slot, hslot, hwrite, ha⟩ := ha
  obtain ⟨call, hcall, hagrees⟩ :=
    (hrecorded.recordings r recording hr hrd).exists_of_mem_right hraw
  obtain ⟨arg, harg, haddress, hrole⟩ := hagrees.slots.exists_of_mem_right hslot
  obtain ⟨node, args, hlocate, -⟩ := hcalls call hcall
  obtain ⟨-, -, hargs⟩ := locate_eq_ok.mp hlocate
  obtain ⟨arg', -, i, ⟨⟨p, t, hp, ht, hat⟩, -⟩, -⟩ := hargs.exists_of_mem_left harg
  have hpm : p ∈ scope.bufs := List.mem_of_getElem? hp
  obtain ⟨t', ht', htd⟩ := hw.bufs s scope hs p hpm
  obtain rfl : t = t' := Option.some.inj (ht.symm.trans ht')
  refine .inl ⟨p, t, ⟨scope, hs, hpm, recording, hr, call, hcall, arg, harg, ?_, t, ht, hat⟩, ht,
    htd.trans hd, ?_⟩
  · exact hrole.trans hwrite
  · have hlen := hkept r recording hr hrd raw hraw slot hslot t (AList.mem_values.mpr ⟨p, ht⟩)
      (htd.trans hd) (hat.trans haddress)
    have hstart : CpuBuffer.ptr t.raw = slot.ptr := hat.trans haddress
    refine Range.within_of_le (Nat.le_of_eq hstart) ?_ a ha
    change slot.ptr + slot.len ≤ CpuBuffer.ptr t.raw + CpuBuffer.bytes t.raw
    rw [hstart]
    exact Nat.add_le_add_left hlen _

/-- Whatever it may write, a call that is neither an `execute` nor a replay
writes no byte. -/
theorem runAct_silent {A : Nat → Nat → Prop} (act : RunAct)
    (hexecute : ∀ s n args, act ≠ .execute s n args) (hreplay : ∀ s r, act ≠ .replay s r) :
    Keeps (OnlyAt A) (act.run (B := CpuBackend)) := by
  have hF := frame_onlyAt A
  have hscope : ∀ (w : World CpuBackend) s scope, OnlyAt A w (w.setScope s scope) :=
    fun w s scope => onlyAt_of_devices fun _ => rfl
  have hrecordings : ∀ (w : World CpuBackend) recordings, OnlyAt A w (w.setRecordings recordings) :=
    fun w recordings => onlyAt_of_devices fun _ => rfl
  have hbegin : ∀ d, Keeps (Only (A d)) CpuBackend.beginCapture := by
    intro d raw
    rcases CpuBackend.beginCapture_cases raw with ⟨-, he⟩ | ⟨-, _, -, he⟩ | ⟨-, -, he⟩ <;>
      rw [he] <;> exact .of_heap rfl
  have hend : ∀ d, Keeps (Only (A d)) CpuBackend.endCapture := by
    intro d raw
    rcases CpuBackend.endCapture_cases raw with ⟨-, he⟩ | ⟨-, _, -, he⟩ | ⟨-, -, he⟩ <;>
      rw [he] <;> exact .of_heap rfl
  have hrelease : ∀ d (raw : CpuCapture), Keeps (OnlyAt A)
      (World.onRawDevice d (.modify (Capturable.releaseCapture (B := CpuBackend) raw)) :
        Call _ Error _) :=
    fun d raw => onRawDevice_only (keeps_modify fun _ => .of_heap rfl)
  cases act with
  | execute s n args => exact absurd rfl (hexecute s n args)
  | replay s r => exact absurd rfl (hreplay s r)
  | beginCapture s =>
    refine keeps_silent hF (hF.get_bind fun _ => hF.lift_bind fun scope => ?_)
    split
    · exact hF.lift _
    · exact hF.bind (keeps_modify fun w => hscope w _ _) fun _ =>
        hF.bind (keeps_mapErr (onRawDevice_only (hbegin _))) fun _ =>
          keeps_modify fun w => hscope w _ _
  | endCapture s r result =>
    refine keeps_silent hF (hF.get_bind fun _ => hF.lift_bind fun scope =>
      hF.bind (keeps_modify fun w => hscope w _ _) fun _ => hF.lift_bind fun _ =>
        hF.bind (keeps_mapErr (onRawDevice_only (hend _))) fun raw => ?_)
    cases result with
    | ok _ => exact keeps_modify fun w => hrecordings w _
    | error e => exact hF.bind (hrelease _ raw) fun _ => hF.lift _
  | unwindCapture s =>
    refine keeps_silent hF (hF.get_bind fun _ => hF.lift_bind fun scope =>
      hF.bind (keeps_modify fun w => hscope w _ _) fun _ =>
        hF.bind (keeps_attempt (onRawDevice_only (hend _))) fun ended => ?_)
    cases ended with
    | ok raw => exact hrelease _ raw
    | error _ => exact hF.pure _
  | dropRecording r =>
    exact keeps_silent hF (hF.get_bind fun _ => hF.lift_bind fun recording =>
      hF.bind (keeps_modify fun w => hrecordings w _) fun _ => hrelease _ recording.raw)

/-! ## One step -/

/-- Device `d` has recorded nothing that lies elsewhere now. -/
structure Replayable (d : Nat) (w : World CpuBackend) : Prop where
  recorded : Recorded w d
  kept : SlotsKept d w

/-- **A step changes the bytes of what it writes**, and bytes that are in no
live block. -/
theorem step_only {e : Event CpuBackend} (hw : w.Valid)
    (hr : ∀ s r, e.act = .run (.replay s r) → Replayable d w) (hs : w.Step e w') :
    ChangesOnly (Touched w e.act d) (memOf w d) (memOf w' d) := by
  obtain ⟨ha, hperform⟩ := hs
  rcases e with ⟨act, out⟩
  obtain rfl : (act.perform w).2 = w' := congrArg Prod.snd hperform
  have heap {w' : World CpuBackend} (h : (w'.devices d).raw.heap = (w.devices d).raw.heap) :
      ChangesOnly (Touched w act d) (memOf w d) (memOf w' d) := fun a _ => by rw [memOf, h]
  have hheap : Frame fun raw raw' : CpuBackend => raw'.heap = raw.heap :=
    frame_eq fun raw : CpuBackend => raw.heap
  cases act with
  | tensor act => exact tensorAct_only ha d
  | memory act => exact memoryAct_only hw act d
  | node act => exact heap ((NodeAct.keeps hheap nodes_sameHeap act w).2 d).2
  | scope act => exact heap ((ScopeAct.keeps hheap (fun _ => rfl) act w).2 d).2
  | run act =>
    cases act with
    | execute s n args =>
      rw [Act.perform, RunAct.run, silent_world]
      exact execute_only hw s n args d
    | replay s r =>
      rw [Act.perform, RunAct.run, silent_world]
      have hr := hr s r rfl
      obtain ⟨hscope, hrecording⟩ := ha
      obtain ⟨scope, hscope⟩ := exists_of_mem hscope
      obtain ⟨recording, hrecording⟩ := exists_of_mem hrecording
      rw [replay_run hscope hrecording]
      split
      · rename_i hcheck
        refine onlyAt_setDevice (A := fun d' a => d' = d → Touched w (.run (.replay s r)) d a) w
          scope.dev _ ?_ d |>.mono fun a h => h rfl
        refine (replay_only _ recording.raw _).mono fun a ha hd => ?_
        exact replay_writes hw hr.recorded hr.kept hscope hrecording hd hcheck ha
      · exact .refl _ _
      · exact .refl _ _
    | beginCapture s => exact runAct_silent (.beginCapture s) (by simp) (by simp) w d
    | endCapture s r result => exact runAct_silent (.endCapture s r result) (by simp) (by simp) w d
    | unwindCapture s => exact runAct_silent (.unwindCapture s) (by simp) (by simp) w d
    | dropRecording r => exact runAct_silent (.dropRecording r) (by simp) (by simp) w d

/-- Where the tensor at `p` goes, it stands after the step. -/
theorem lookup_placeAfter {e : Event CpuBackend} (hs : w.Step e w') {p q : Nat}
    {t : Tensor CpuBackend} (ht : w.tensors.lookup p = some t)
    (hq : placeAfter w e.act p = some q) : w'.tensors.lookup q = some t := by
  obtain ⟨ha, hperform⟩ := hs
  rcases e with ⟨act, out⟩
  obtain rfl : (act.perform w).2 = w' := congrArg Prod.snd hperform
  have stays (hsame : (act.perform w).2.tensors.lookup p = w.tensors.lookup p)
      (hq : some p = some q) : (act.perform w).2.tensors.lookup q = some t := by
    cases hq
    exact hsame.trans ht
  cases act with
  | tensor act =>
    cases act with
    | alloc d env p' kind len =>
      refine stays ?_ hq
      have hne : p ≠ p' := by
        rintro rfl
        cases ht.symm.trans ha
      have hwithin := alloc_run (B := CpuBackend) d env p' kind len w
      rw [Act.perform, TensorAct.run, silent_world, hwithin]
      split
      · exact AList.lookup_insert_ne hne
      · rfl
      · rfl
    | reserve d env a bytes =>
      refine stays ?_ hq
      rw [Act.perform, TensorAct.run, silent_world, reserve_run]
      rfl
    | carve a p' kind len =>
      refine stays ?_ hq
      have hne : p ≠ p' := by
        rintro rfl
        cases ht.symm.trans ha.2
      obtain ⟨area, harea⟩ := exists_of_mem ha.1
      rw [Act.perform, TensorAct.run, silent_world, carve_run harea]
      split
      · exact AList.lookup_insert_ne hne
      · rfl
      · rfl
    | dropArea a =>
      refine stays ?_ hq
      obtain ⟨area, harea⟩ := exists_of_mem ha.1
      rw [Act.perform, TensorAct.run, silent_world, dropArea_run harea]
      rfl
    | dropTensor p' =>
      obtain ⟨t', ht'⟩ := exists_of_mem ha.1
      simp only [placeAfter] at hq
      split at hq
      · cases hq
      · refine stays ?_ hq
        rw [Act.perform, TensorAct.run, silent_world, dropTensor_run ht']
        exact AList.lookup_erase_ne ‹_›
    | moveTensor p₁ q₁ =>
      obtain ⟨t', ht'⟩ := exists_of_mem ha.1.1
      have hfree : w.tensors.lookup q₁ = none := ha.2
      simp only [placeAfter] at hq
      change (w.tensors.move p₁ q₁).lookup q = some t
      rw [AList.lookup_move ht']
      split at hq
      · subst p₁
        cases hq
        rw [if_pos rfl]
        exact ht'.symm.trans ht
      · cases hq
        have hne : p ≠ q₁ := by
          rintro rfl
          cases ht.symm.trans hfree
        rw [if_neg hne, if_neg ‹_›]
        exact ht
    | replaceTensor p₁ q₁ =>
      obtain ⟨t₁, ht₁⟩ := exists_of_mem ha.2.1.1
      obtain ⟨t₂, ht₂⟩ := exists_of_mem ha.2.2.1
      have hrun := replaceTensor_run ht₁ ht₂
      rcases hfits : t₁.fits t₂ with _ | e | _ <;> rw [hfits] at hrun
      · simp only [placeAfter, hrun, Outcome.isOk, if_true] at hq
        rw [Act.perform, TensorAct.run, silent_world, hrun]
        change (w.tensors.swap p₁ q₁).lookup q = some t
        rw [AList.lookup_swap ht₁ ht₂]
        by_cases hp : p = p₁
        · subst hp
          rw [if_pos rfl] at hq
          cases hq
          rw [if_pos rfl]
          exact ht₁.symm.trans ht
        · rw [if_neg hp] at hq
          by_cases hp' : p = q₁
          · subst hp'
            rw [if_pos rfl] at hq
            cases hq
            rw [if_neg (Ne.symm hp), if_pos rfl]
            exact ht₂.symm.trans ht
          · rw [if_neg hp'] at hq
            cases hq
            rw [if_neg hp', if_neg hp]
            exact ht
      all_goals
        simp only [placeAfter, hrun, Outcome.isOk, Bool.false_eq_true, if_false] at hq
        refine stays ?_ hq
        rw [Act.perform, TensorAct.run, silent_world, hrun]
  | memory act =>
    exact stays (congrArg _ (MemoryAct.keeps frame_any memory_any act w).1.tensors) hq
  | node act =>
    exact stays (congrArg _ (NodeAct.keeps frame_any nodes_any act w).1.tensors) hq
  | scope act =>
    exact stays (congrArg _ (ScopeAct.keeps frame_any memory_any.synchronize act w).1.tensors) hq
  | run act =>
    exact stays (congrArg _ (RunAct.keeps frame_any runs_any act w).1.tensors) hq

/-! ## Whole runs -/

/-- What is known of a world that a program gets to. -/
structure Housed (d : Nat) (w : World CpuBackend) : Prop where
  established : Established w
  balanced : Balanced w d
  replayable : Replayable d w

theorem Housed.init (poolBytes : Nat → Nat) (d : Nat) :
    Housed d (World.init CpuBackend.attach poolBytes) :=
  ⟨.init poolBytes, .refl _, .init poolBytes d, fun _ _ h => by cases h⟩

theorem Housed.step {e : Event CpuBackend} (h : Housed d w) (hs : Unshortened d w e w') :
    Housed d w' :=
  ⟨h.established.step hs.1, h.balanced.step h.established hs.1,
    h.replayable.recorded.step h.established.valid ⟨hs.1, hs.2.1⟩,
    h.replayable.kept.step h.established.valid hs⟩

/-- **A tensor that a step doesn't write** holds the same after it. -/
theorem bytes_step {e : Event CpuBackend} (h : Established w) (hb : Balanced w d)
    (hr : ∀ s r, e.act = .run (.replay s r) → Replayable d w) (hs : w.Step e w') {p q : Nat}
    {t : Tensor CpuBackend} (ht : w.tensors.lookup p = some t) (hd : t.dev = d)
    (hq : placeAfter w e.act p = some q) (hnot : ¬Writes w e.act p) :
    bytesAt w' q = bytesAt w p := by
  have hw := h.valid
  have hchanges := step_only hw hr hs
  rw [bytesAt_of_lookup ht, bytesAt_of_lookup (lookup_placeAfter hs ht hq), hd]
  refine hchanges.read fun a ha htouched => ?_
  rcases htouched with ⟨p', t', hwrites, ht', hd', ha'⟩ | hnone
  · have hne : p ≠ p' := by
      rintro rfl
      exact hnot hwrites
    exact h.laid.disjoint hw hne ht ht' (hd.trans hd'.symm) a ha ha'
  · obtain ⟨r, hr, hwithin⟩ := hb.tensor h ht hd
    exact hnone r hr (hwithin a ha)

/-- A step that writes not what stands at a place, and where that stands after it. -/
def Follows (d : Nat) (x : World CpuBackend × Nat) (e : Event CpuBackend)
    (y : World CpuBackend × Nat) : Prop :=
  Unshortened d x.1 e y.1 ∧ ¬Writes x.1 e.act x.2 ∧ placeAfter x.1 e.act x.2 = some y.2

/-- **A tensor keeps its contents**, wherever it is moved, until a call writes
it or drops it: whatever is allocated, carved, pooled, freed, copied, run,
captured or replayed meanwhile, by any scopes, as long as no `execute` strays
into a capture and no shorter tensor is put where a slot was recorded. -/
theorem contents_stay_with_their_tensor {poolBytes : Nat → Nat} {es fs : List (Event CpuBackend)}
    (h : Runs (Unshortened d) (World.init CpuBackend.attach poolBytes) es w) {p q : Nat}
    {t : Tensor CpuBackend} (ht : w.tensors.lookup p = some t) (hd : t.dev = d)
    (hf : Runs (Follows d) (w, p) fs (w', q)) :
    w'.tensors.lookup q = some t ∧ bytesAt w' q = bytesAt w p := by
  have hhoused : Housed d w := h.preserves (fun _ _ _ h hs => h.step hs) (.init poolBytes d)
  have hall := hf.preserves (I := fun x : World CpuBackend × Nat =>
    Housed d x.1 ∧ x.1.tensors.lookup x.2 = some t ∧ bytesAt x.1 x.2 = bytesAt w p) ?_
    ⟨hhoused, ht, rfl⟩
  · exact hall.2
  · rintro ⟨w₁, p₁⟩ e ⟨w₂, p₂⟩ ⟨hhoused, ht, hbytes⟩ ⟨hs, hnot, hplace⟩
    exact ⟨hhoused.step hs, lookup_placeAfter hs.1 ht hplace,
      (bytes_step hhoused.established hhoused.balanced (fun _ _ _ => hhoused.replayable) hs.1 ht hd
        hplace hnot).trans hbytes⟩

/-! ## A tensor beside one that is replayed -/

/-- Where calls take the tensor at a place, if each is allowed and none writes it. -/
def follow (d : Nat) :
    World CpuBackend × Nat → List (Act CpuBackend) → Option (World CpuBackend × Nat)
  | x, [] => some x
  | (w, p), a :: rest =>
    if a.Allowed w ∧ ¬Strays d w a ∧ ¬Shortens d w a ∧ ¬Writes w a p then
      (placeAfter w a p).bind fun q => follow d ((a.perform w).2, q) rest
    else none

theorem runs_of_follow {x y : World CpuBackend × Nat} {as : List (Act CpuBackend)}
    (h : follow d x as = some y) : ∃ fs, Runs (Follows d) x fs y := by
  induction as generalizing x with
  | nil =>
    cases h
    exact ⟨[], .nil _⟩
  | cons a rest ih =>
    obtain ⟨w, p⟩ := x
    rw [follow, Option.ite_none_right_eq_some, Option.bind_eq_some_iff] at h
    obtain ⟨⟨ha, hstrays, hshortens, hnot⟩, q, hq, h⟩ := h
    obtain ⟨fs, hfs⟩ := ih h
    exact ⟨⟨a, (a.perform w).1⟩ :: fs, .cons ⟨⟨⟨ha, rfl⟩, hstrays, hshortens⟩, hnot, hq⟩ hfs⟩

namespace Sample

open Backends.Sample

/-- A tensor that is recorded, and another with contents. -/
def recordedBeside : List (Act CpuBackend) := [
  .tensor (.alloc 0 env 0 .Int8 4), .tensor (.alloc 0 env 1 .Int8 4),
  .memory (.upload 1 (.Int8 [1, 2, 3, 4])), .node (.build 0 100 fill [] (.linear 1)),
  .scope (.openOn 0 0), .scope (.bind 0 0), .scope (.bindNode 0 100),
  .run (.beginCapture 0), .run (.execute 0 0 [.Write 0]), .run (.endCapture 0 0 (.ok ())),
  .scope (.close 0)]

/-- The other is moved, the recorded one is replayed. -/
def movedAndReplayed : List (Act CpuBackend) := [
  .tensor (.moveTensor 1 5), .scope (.openOn 1 0), .scope (.bind 1 0), .scope (.bindNode 1 100),
  .run (.replay 1 0)]

end Sample

open Capture.Sample

set_option maxRecDepth 8000

/-- It holds the same at its new place. -/
theorem contents_stay_beside_a_replay : ∃ w', follow 0 (start.after recordedBeside, 1)
    movedAndReplayed = some (w', 5) ∧ bytesAt w' 5 = bytesAt (start.after recordedBeside) 1 := by
  have hplays : (start.play (fun w a => ¬Strays 0 w a ∧ ¬Shortens 0 w a) recordedBeside).isSome =
      true := by decide
  obtain ⟨es, hes⟩ := World.runs_after hplays
  have hplace : (follow 0 (start.after recordedBeside, 1) movedAndReplayed).map Prod.snd =
      some 5 := by decide
  obtain ⟨⟨w', q⟩, hfollow, hq⟩ := Option.map_eq_some_iff.mp hplace
  obtain rfl : q = 5 := hq
  obtain ⟨fs, hfs⟩ := runs_of_follow hfollow
  have hdev : ((start.after recordedBeside).tensors.lookup 1).any fun t => t.dev = 0 := by decide
  obtain ⟨t, ht, hd⟩ := (Option.any_eq_true _ _).mp hdev
  exact ⟨w', hfollow, (contents_stay_with_their_tensor hes ht (of_decide_eq_true hd) hfs).2⟩

end Wilupgu.Capture
