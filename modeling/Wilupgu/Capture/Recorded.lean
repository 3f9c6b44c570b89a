import Wilupgu.Memory.Layout
import Wilupgu.Safe.Checked

/-! # What a recording holds

A scope notes the calls it records, and its device notes the calls it records,
each on its own. The two notes agree in every recording as long as no scope
runs a node while another one's capture has the device recording: such a call
goes into the other's capture, is not run, and is noted by no scope. On a
device that a panic left recording it isn't run either, but panics. -/

namespace Wilupgu.Capture

open Backend Backends Call Memory

/-! ## Agreeing -/

/-- The scope's note of a slot names the buffer of the device's. -/
def SlotAgrees (arg : RecordedArg) (slot : CpuSlot) : Prop :=
  arg.address = slot.ptr ∧ arg.isWrite = slot.isWrite

/-- The same node on the same slots. -/
structure CallAgrees (call : RecordedCall) (raw : CpuCall) : Prop where
  node : call.node = raw.node
  slots : List.Forall₂ SlotAgrees call.args raw.slots

/-- As many calls, in the same order, each the same. -/
abbrev Agree (calls : List RecordedCall) (raws : List CpuCall) : Prop :=
  List.Forall₂ CallAgrees calls raws

theorem slotAgrees_ofAccess (a : Access CpuBuffer) :
    SlotAgrees (RecordedArg.ofAccess (B := CpuBackend) a) (CpuSlot.ofAccess a) := by
  cases a <;> exact ⟨rfl, rfl⟩

/-- What one `execute` notes on both sides. -/
theorem callAgrees (address uid : Nat) (bindings : List (Access CpuBuffer)) :
    CallAgrees ⟨address, bindings.map (RecordedArg.ofAccess (B := CpuBackend)), uid⟩
      ⟨address, bindings.map CpuSlot.ofAccess⟩ where
  node := rfl
  slots := by
    rw [List.forall₂_map_left_iff, List.forall₂_map_right_iff, List.forall₂_same]
    exact fun a _ => slotAgrees_ofAccess a

theorem Agree.snoc {calls : List RecordedCall} {raws : List CpuCall} {call : RecordedCall}
    {raw : CpuCall} (h : Agree calls raws) (hc : CallAgrees call raw) :
    Agree (calls ++ [call]) (raws ++ [raw]) := List.rel_append h (.cons hc .nil)

/-! ## The condition -/

/-- The recording state of device `d`. -/
abbrev recordingOf (w : World CpuBackend) (d : Nat) : Mutex (Option (List CpuCall)) :=
  (w.devices d).raw.recording

/-- An `execute` that its scope doesn't record but its device `d` does. -/
def Strays (d : Nat) (w : World CpuBackend) : Act CpuBackend → Prop
  | .run (.execute s n args) => ∃ scope ∈ w.scopes.lookup s, scope.dev = d ∧
      scope.recording = none ∧ (recordingOf w d).poisoned = false ∧
      (recordingOf w d).val.isSome = true ∧
      (w.boundNode scope n >>= fun x => Scope.check w scope x.2 args) = .ok ()
  | _ => False

instance (d : Nat) (w : World CpuBackend) : (a : Act CpuBackend) → Decidable (Strays d w a)
  | .run (.execute _ _ _) => by unfold Strays; infer_instance
  | .run (.beginCapture _) | .run (.endCapture _ _ _) | .run (.unwindCapture _)
  | .run (.replay _ _) | .run (.dropRecording _) => isFalse not_false
  | .tensor _ | .memory _ | .node _ | .scope _ => isFalse not_false

/-- The steps of programs none of whose `execute`s on device `d` strays. -/
abbrev Tidy (d : Nat) : World CpuBackend → Event CpuBackend → World CpuBackend → Prop :=
  Transition.Where World.Step fun w e => ¬Strays d w e.act

/-- An `execute` that passes its checks, of a scope that doesn't record, while
its device `d` does: for another scope's capture, or for good since a panic. -/
def Intrudes (d : Nat) (w : World CpuBackend) : Act CpuBackend → Prop
  | .run (.execute s n args) => ∃ scope ∈ w.scopes.lookup s, scope.dev = d ∧
      scope.recording = none ∧ (recordingOf w d).val.isSome = true ∧
      (w.boundNode scope n >>= fun x => Scope.check w scope x.2 args) = .ok ()
  | _ => False

instance (d : Nat) (w : World CpuBackend) : (a : Act CpuBackend) → Decidable (Intrudes d w a)
  | .run (.execute _ _ _) => by unfold Intrudes; infer_instance
  | .run (.beginCapture _) | .run (.endCapture _ _ _) | .run (.unwindCapture _)
  | .run (.replay _ _) | .run (.dropRecording _) => isFalse not_false
  | .tensor _ | .memory _ | .node _ | .scope _ => isFalse not_false

/-- Straying is intruding where no panic has left the recording behind. -/
theorem Strays.intrudes {d : Nat} {w : World CpuBackend} {a : Act CpuBackend}
    (h : Strays d w a) : Intrudes d w a := by
  unfold Strays at h
  split at h
  · obtain ⟨scope, hs, hd, hr, -, hv, hcheck⟩ := h
    exact ⟨scope, hs, hd, hr, hv, hcheck⟩
  · cases h

/-- The steps of programs none of whose `execute`s on device `d` intrudes. -/
abbrev Undisturbed (d : Nat) : World CpuBackend → Event CpuBackend → World CpuBackend → Prop :=
  Transition.Where World.Step fun w e => ¬Intrudes d w e.act

theorem Undisturbed.tidy {d : Nat} {w w' : World CpuBackend} {e : Event CpuBackend}
    (h : Undisturbed d w e w') : Tidy d w e w' := ⟨h.1, fun hs => h.2 hs.intrudes⟩

/-! ## The invariant -/

/-- Where a device's capture stands: abandoned by a panic under the lock, or
none and no scope of the device records, or one scope's, which is in its
`capture` and has noted the same calls, and no other scope of the device records. -/
def DeviceAgrees (w : World CpuBackend) (d : Nat) : Prop :=
  ((recordingOf w d).poisoned = true ∧ (recordingOf w d).val.isSome = true) ∨
  (recordingOf w d = ⟨none, false⟩ ∧
    ∀ s scope, w.scopes.lookup s = some scope → scope.dev = d → scope.recording = none) ∨
  ∃ raws s scope calls, (recordingOf w d).val = some raws ∧ w.scopes.lookup s = some scope ∧
    scope.dev = d ∧ scope.inCapture = true ∧ scope.recording = some calls ∧ Agree calls raws ∧
    ∀ s' scope', w.scopes.lookup s' = some scope' → scope'.dev = d → s' ≠ s →
      scope'.recording = none

/-- So it is with device `d`, and the two notes of its recordings agree. -/
structure Recorded (w : World CpuBackend) (d : Nat) : Prop where
  device : DeviceAgrees w d
  recordings : ∀ r recording, w.recordings.lookup r = some recording → recording.dev = d →
    Agree recording.calls recording.raw.calls

variable {w w' : World CpuBackend} {d : Nat}

/-- A change after which every scope of `d` is as before, or records nothing
and is new, and those in their `capture` are still there. -/
structure KeepsScopes (d : Nat) (w w' : World CpuBackend) : Prop where
  old : ∀ s scope', w'.scopes.lookup s = some scope' → scope'.dev = d →
    scope'.recording = none ∨ ∃ scope, w.scopes.lookup s = some scope ∧ scope.dev = d ∧
      scope.recording = scope'.recording
  inCapture : ∀ s scope, w.scopes.lookup s = some scope → scope.dev = d →
    scope.inCapture = true → ∃ scope', w'.scopes.lookup s = some scope' ∧ scope'.dev = d ∧
      scope'.inCapture = true ∧ scope'.recording = scope.recording

/-- A change that also leaves which scopes of `d` are in their `capture`. -/
structure SameCaptures (d : Nat) (w w' : World CpuBackend) : Prop where
  old : ∀ s scope', w'.scopes.lookup s = some scope' → scope'.dev = d →
    (scope'.recording = none ∧ scope'.inCapture = false) ∨
      ∃ scope, w.scopes.lookup s = some scope ∧ scope.dev = d ∧
        scope.recording = scope'.recording ∧ scope.inCapture = scope'.inCapture
  inCapture : ∀ s scope, w.scopes.lookup s = some scope → scope.dev = d →
    scope.inCapture = true → ∃ scope', w'.scopes.lookup s = some scope' ∧ scope'.dev = d ∧
      scope'.inCapture = true ∧ scope'.recording = scope.recording

theorem SameCaptures.keepsScopes (h : SameCaptures d w w') : KeepsScopes d w w' where
  old s scope' hs hd := (h.old s scope' hs hd).imp And.left fun ⟨scope, h⟩ =>
    ⟨scope, h.1, h.2.1, h.2.2.1⟩
  inCapture := h.inCapture

theorem sameCaptures_of_eq (h : w'.scopes = w.scopes) (d : Nat) : SameCaptures d w w' where
  old _ scope' hs hd := .inr ⟨scope', h ▸ hs, hd, rfl, rfl⟩
  inCapture _ scope hs hd hc := ⟨scope, h ▸ hs, hd, hc, rfl⟩

theorem keepsScopes_of_eq (h : w'.scopes = w.scopes) (d : Nat) : KeepsScopes d w w' :=
  (sameCaptures_of_eq h d).keepsScopes

/-- A change of a scope of another device. -/
theorem keepsScopes_insert {s : Nat} {scope scope' : Scope} (hs : w.scopes.lookup s = some scope)
    (h : w'.scopes = w.scopes.insert s scope') (hdev : scope'.dev = scope.dev)
    (hd : scope.dev ≠ d) : KeepsScopes d w w' where
  old s₁ scope₁ h₁ hd₁ := by
    rw [h, AList.lookup_insert_eq] at h₁
    split at h₁
    · cases h₁
      exact absurd (hdev.symm.trans hd₁) hd
    · exact .inr ⟨scope₁, h₁, hd₁, rfl⟩
  inCapture s₁ scope₁ h₁ hd₁ hc₁ := by
    refine ⟨scope₁, ?_, hd₁, hc₁, rfl⟩
    rw [h, AList.lookup_insert_eq, if_neg]
    · exact h₁
    · rintro rfl
      obtain rfl : scope = scope₁ := Option.some.inj (hs.symm.trans h₁)
      exact hd hd₁

theorem DeviceAgrees.transfer (h : DeviceAgrees w d) (hrec : recordingOf w' d = recordingOf w d)
    (hs : KeepsScopes d w w') : DeviceAgrees w' d := by
  unfold DeviceAgrees
  rw [hrec]
  rcases h with hp | ⟨hv, hidle⟩ | ⟨raws, s, scope, calls, hv, hl, hd, hc, hr, hagree, hother⟩
  · exact .inl hp
  · refine .inr (.inl ⟨hv, fun s scope' hl' hd' => ?_⟩)
    rcases hs.old s scope' hl' hd' with hn | ⟨scope, hl, hd, hr⟩
    · exact hn
    · exact hr ▸ hidle s scope hl hd
  · obtain ⟨scope', hl', hd', hc', hr'⟩ := hs.inCapture s scope hl hd hc
    refine .inr (.inr ⟨raws, s, scope', calls, hv, hl', hd', hc', hr'.trans hr, hagree, ?_⟩)
    intro s₁ scope₁ hl₁ hd₁ hne
    rcases hs.old s₁ scope₁ hl₁ hd₁ with hn | ⟨scope₂, hl₂, hd₂, hr₂⟩
    · exact hn
    · exact hr₂ ▸ hother s₁ scope₂ hl₂ hd₂ hne

/-- A device that isn't abandoned and one of whose scopes records: that scope
is the one the device records for. -/
theorem DeviceAgrees.of_recording (h : DeviceAgrees w d)
    (hp : (recordingOf w d).poisoned = false) {s : Nat} {scope : Scope} {calls : List RecordedCall}
    (hs : w.scopes.lookup s = some scope) (hd : scope.dev = d)
    (hr : scope.recording = some calls) :
    ∃ raws, (recordingOf w d).val = some raws ∧ scope.inCapture = true ∧ Agree calls raws ∧
      ∀ s' scope', w.scopes.lookup s' = some scope' → scope'.dev = d → s' ≠ s →
        scope'.recording = none := by
  rcases h with ⟨hp', -⟩ | ⟨-, hidle⟩ |
    ⟨raws, s₁, scope₁, calls₁, hv, hs₁, -, hc₁, hr₁, hagree, hother⟩
  · rw [hp] at hp'
    cases hp'
  · rw [hidle s scope hs hd] at hr
    cases hr
  · by_cases he : s = s₁
    · subst he
      obtain rfl : scope = scope₁ := Option.some.inj (hs.symm.trans hs₁)
      obtain rfl : calls = calls₁ := Option.some.inj (hr.symm.trans hr₁)
      exact ⟨raws, hv, hc₁, hagree, hother⟩
    · rw [hother s scope hs hd he] at hr
      cases hr

/-- One that isn't recording: none of its scopes does. -/
theorem DeviceAgrees.of_idle (h : DeviceAgrees w d) (hp : (recordingOf w d).poisoned = false)
    (hv : (recordingOf w d).val = none) {s : Nat} {scope : Scope}
    (hs : w.scopes.lookup s = some scope) (hd : scope.dev = d) : scope.recording = none := by
  rcases h with ⟨hp', -⟩ | ⟨-, hidle⟩ | ⟨raws, _, _, _, hv', -⟩
  · rw [hp] at hp'
    cases hp'
  · exact hidle s scope hs hd
  · rw [hv] at hv'
    cases hv'

/-- A lock is poisoned only over a recording, which then stays. -/
theorem DeviceAgrees.idle (h : DeviceAgrees w d) (hv : (recordingOf w d).val.isSome = false) :
    recordingOf w d = ⟨none, false⟩ := by
  rcases h with ⟨-, hv'⟩ | ⟨hidle, -⟩ | ⟨raws, _, _, _, hv', -⟩
  · cases hv.symm.trans hv'
  · exact hidle
  · rw [hv'] at hv
    cases hv

theorem DeviceAgrees.isSome_of_poisoned (h : DeviceAgrees w d)
    (hp : (recordingOf w d).poisoned = true) : (recordingOf w d).val.isSome = true := by
  by_contra hv
  have hidle := h.idle (Bool.eq_false_of_not_eq_true hv)
  cases hp.symm.trans (congrArg Mutex.poisoned hidle)

/-! ## Every step -/

theorem recordingOf_setDevice (w : World CpuBackend) (d : Nat) (dev : ComputeDevice CpuBackend)
    (d' : Nat) : recordingOf (w.setDevice d dev) d' =
      if d' = d then dev.raw.recording else recordingOf w d' := by
  by_cases h : d' = d
  · subst h
    simp [recordingOf]
  · simp [recordingOf, h]

/-- A step that leaves the recordings and the device's recording state, and
the notes of its scopes. -/
theorem Recorded.transfer (h : Recorded w d) (hrec : recordingOf w' d = recordingOf w d)
    (hr : w'.recordings = w.recordings) (hs : KeepsScopes d w w') : Recorded w' d where
  device := h.device.transfer hrec hs
  recordings r recording hl := h.recordings r recording (hr ▸ hl)

/-- What a call on one device and one of its scopes leaves to show. -/
theorem Recorded.of_device (h : Recorded w d) {s : Nat} {scope scope' : Scope}
    (hs : w.scopes.lookup s = some scope) (hscopes : w'.scopes = w.scopes.insert s scope')
    (hdev : scope'.dev = scope.dev)
    (hrec : ∀ d, d ≠ scope.dev → recordingOf w' d = recordingOf w d)
    (hd : scope.dev = d → DeviceAgrees w' d)
    (hr : ∀ r recording, w'.recordings.lookup r = some recording → recording.dev = d →
      Agree recording.calls recording.raw.calls) : Recorded w' d where
  device := by
    by_cases he : scope.dev = d
    · exact hd he
    · exact h.device.transfer (hrec d fun he' => he he'.symm)
        (keepsScopes_insert hs hscopes hdev he)
  recordings := hr

/-- What the CPU backend makes of an `executeRaw`, as far as recording goes. -/
theorem executeRaw_recording (address : Nat) (node : CpuNode) (bindings : List (Access CpuBuffer))
    (raw : CpuBackend) :
    ((CpuBackend.executeRaw address node bindings raw).2.recording = raw.recording ∧
      ((CpuBackend.executeRaw address node bindings raw).1 = .ok () →
        raw.recording.poisoned = false ∧ raw.recording.val = none ∧
        CpuBackend.executeRaw address node bindings raw =
          CpuBackend.runNative node (bindings.map CpuSlot.ofAccess) raw)) ∨
    ∃ calls, raw.recording = ⟨some calls, false⟩ ∧
      CpuBackend.executeRaw address node bindings raw =
        (.ok (), raw.setRecording
          ⟨some (calls ++ [⟨address, bindings.map CpuSlot.ofAccess⟩]), false⟩) := by
  simp only [CpuBackend.executeRaw]
  split
  · exact .inl ⟨rfl, by simp⟩
  · split
    · exact .inl ⟨rfl, by simp⟩
    · rename_i hp
      have hp' : raw.recording.poisoned = false := by simpa using hp
      split
      · rename_i calls hc
        refine .inr ⟨calls, ?_, rfl⟩
        rw [← hc, ← hp']
      · rename_i hn
        exact .inl ⟨rfl, fun _ => ⟨hp', hn, rfl⟩⟩

theorem execute_recorded (h : Recorded w d) (hw : w.Valid) {s n : Nat} {args : List Arg}
    (ha : (RunAct.execute s n args).Allowed w) (ht : ¬Strays d w (.run (.execute s n args))) :
    Recorded (Scope.execute s n args w).2 d := by
  obtain ⟨scope, hs, hn, -⟩ := ha
  obtain ⟨node, hnode, -⟩ := hw.nodes s scope hs _ (List.getElem_mem hn)
  have hb := boundNode_eq_ok.mpr ⟨List.getElem?_eq_getElem hn, hnode⟩
  rw [execute_run hs hb]
  split
  · rename_i hcheck
    split
    · rename_i bindings _
      unfold Scope.executed
      simp only [Dispatch.executeRaw]
      rcases executeRaw_recording scope.nodes[n] node.raw bindings (w.devices scope.dev).raw with
        ⟨hsame, hran⟩ | ⟨raws, hrec, hran⟩
      · have hrecs : ∀ d, recordingOf (w.setDevice scope.dev { w.devices scope.dev with
            raw := (CpuBackend.executeRaw scope.nodes[n] node.raw bindings
              (w.devices scope.dev).raw).2 }) d = recordingOf w d := by
          intro d
          rw [recordingOf_setDevice]
          split
          · rename_i he
            rw [he, hsame]
          · rfl
        split
        · -- a call that ran, on a scope that records: its device would be recording
          rename_i calls hok hcalls
          refine h.of_device hs (World.setScope_scopes _ _ _) rfl (fun d _ => hrecs d)
            (fun hd => ?_) h.recordings
          subst hd
          obtain ⟨hp, hnone, -⟩ := hran hok
          rw [h.device.of_idle hp hnone hs rfl] at hcalls
          cases hcalls
        · exact h.transfer (hrecs d) rfl (keepsScopes_of_eq (by rfl) d)
      · have hp : (recordingOf w scope.dev).poisoned = false := by rw [recordingOf, hrec]
        have hother : ∀ dev, ∀ d, d ≠ scope.dev →
            recordingOf (w.setDevice scope.dev dev) d = recordingOf w d :=
          fun dev d hd => by rw [recordingOf_setDevice, if_neg hd]
        simp only [hran]
        rcases hcalls : scope.recording with _ | calls
        · refine h.transfer (hother _ d ?_) rfl (keepsScopes_of_eq (by rfl) d)
          rintro rfl
          refine ht ⟨scope, hs, rfl, hcalls, hp, ?_, ?_⟩
          · rw [recordingOf, hrec]
            rfl
          · rw [hb, Outcome.ok_bind, hcheck]
        · refine h.of_device hs (World.setScope_scopes _ _ _) rfl (hother _) (fun hd => ?_)
            h.recordings
          subst hd
          obtain ⟨raws', hraws, hc, hagree, hothers⟩ := h.device.of_recording hp hs rfl hcalls
          rw [recordingOf, hrec] at hraws
          cases hraws
          refine .inr (.inr ⟨_, s, _, _, ?_, AList.lookup_insert _, rfl, hc, rfl,
            hagree.snoc (callAgrees _ node.uid bindings), fun s' scope' hs' hd' hne => ?_⟩)
          · change (recordingOf (w.setDevice scope.dev _) scope.dev).val = _
            rw [recordingOf_setDevice, if_pos rfl]
            rfl
          · exact hothers s' scope' ((AList.lookup_insert_ne hne).symm.trans hs') hd' hne
    · exact h
    · exact h
  · exact h
  · exact h

theorem beginCapture_recorded (h : Recorded w d) {s : Nat}
    (ha : (RunAct.beginCapture s).Allowed w) : Recorded (Scope.beginCapture s w).2 d := by
  obtain ⟨scope, hs⟩ := exists_of_mem ha
  rw [beginCapture_run hs]
  split
  · exact h
  · simp only [Capturable.beginCapture]
    have hother : ∀ raw, ∀ d, d ≠ scope.dev → recordingOf (w.setDevice scope.dev raw) d =
        recordingOf w d := fun raw d hd => by rw [recordingOf_setDevice, if_neg hd]
    have hhere : ∀ dev, recordingOf (w.setDevice scope.dev dev) scope.dev = dev.raw.recording :=
      fun dev => by rw [recordingOf_setDevice, if_pos rfl]
    rcases CpuBackend.beginCapture_cases (w.devices scope.dev).raw with
      ⟨hp, hb⟩ | ⟨-, calls, -, hb⟩ | ⟨hp, hv, hb⟩ <;> simp only [hb]
    · -- the lock is poisoned, and stays so
      refine h.of_device hs (World.setScope_scopes _ _ w) rfl (hother _) (fun hd => ?_)
        h.recordings
      subst hd
      exact .inl ⟨(congrArg Mutex.poisoned (hhere _)).trans hp,
        (congrArg (fun m => m.val.isSome) (hhere _)).trans (h.device.isSome_of_poisoned hp)⟩
    · -- the assertion fails under the lock
      refine h.of_device hs (World.setScope_scopes _ _ w) rfl (hother _) (fun hd => ?_)
        h.recordings
      exact hd ▸ .inl ⟨congrArg Mutex.poisoned (hhere _),
        congrArg (fun m => m.val.isSome) (hhere _)⟩
    · refine h.of_device hs (AList.insert_insert _) rfl (hother _) (fun hd => ?_) h.recordings
      subst hd
      refine .inr (.inr ⟨[], s, _, [], congrArg Mutex.val (hhere _), AList.lookup_insert _, rfl,
        rfl, rfl, .nil, fun s' scope' hs' hd' hne => ?_⟩)
      have hs₁ := (AList.lookup_insert_ne hne).symm.trans hs'
      exact h.device.of_idle hp hv ((AList.lookup_insert_ne hne).symm.trans hs₁) hd'

/-- Ending a capture, however its closure ended. -/
theorem ended_recorded (h : Recorded w d) {s : Nat} {scope : Scope} {calls : List RecordedCall}
    (hs : w.scopes.lookup s = some scope) (hc : scope.recording = some calls)
    (hscopes : w'.scopes =
      w.scopes.insert s { scope with recording := none, inCapture := false })
    (hrec : ∀ d, recordingOf w' d =
      if d = scope.dev then (CpuBackend.endCapture (w.devices scope.dev).raw).2.recording
      else recordingOf w d)
    (hr : ∀ r recording, w'.recordings.lookup r = some recording → recording.dev = d →
      Agree recording.calls recording.raw.calls) : Recorded w' d := by
  refine h.of_device hs hscopes rfl (fun d hd => by rw [hrec, if_neg hd]) (fun hd => ?_) hr
  subst hd
  have hd := hrec scope.dev
  rw [if_pos rfl] at hd
  unfold DeviceAgrees
  rw [hd]
  rcases CpuBackend.endCapture_cases (w.devices scope.dev).raw with
    ⟨hp, he⟩ | ⟨hp, raws, hv, he⟩ | ⟨hp, hv, -⟩
  · rw [he]
    exact .inl ⟨hp, h.device.isSome_of_poisoned hp⟩
  · obtain ⟨-, -, -, -, hother⟩ := h.device.of_recording hp hs rfl hc
    refine .inr (.inl ⟨by rw [he]; rfl, fun s' scope' hs' hd' => ?_⟩)
    rw [hscopes, AList.lookup_insert_eq] at hs'
    split at hs'
    · cases hs'
      rfl
    · exact hother s' scope' hs' hd' ‹_›
  · rw [h.device.of_idle hp hv hs rfl] at hc
    cases hc

theorem endCapture_recorded (h : Recorded w d) (hw : w.Valid) {s r : Nat}
    {result : Except Error Unit} (ha : (RunAct.endCapture s r result).Allowed w) :
    Recorded (Scope.endCapture s r result w).2 d := by
  obtain ⟨⟨scope, hs, hc⟩, -⟩ := ha
  obtain ⟨calls, hcalls⟩ := Option.isSome_iff_exists.mp (hw.inCapture s scope hs hc)
  have hset : ∀ d, recordingOf (w.setDevice scope.dev { w.devices scope.dev with
        raw := (CpuBackend.endCapture (w.devices scope.dev).raw).2 }) d =
      if d = scope.dev then (CpuBackend.endCapture (w.devices scope.dev).raw).2.recording
      else recordingOf w d := fun d => recordingOf_setDevice w _ _ d
  rw [endCapture_run hs hcalls]
  simp only [Capturable.endCapture]
  split
  · -- the recording returned is what both noted
    rename_i capture hcapture
    refine ended_recorded h hs hcalls rfl hset fun r' recording hr hdev => ?_
    simp only [World.setRecordings_recordings, AList.lookup_insert_eq] at hr
    split at hr
    · cases hr
      subst hdev
      rcases CpuBackend.endCapture_cases (w.devices scope.dev).raw with
        ⟨-, he⟩ | ⟨hp, raws, hv, he⟩ | ⟨-, -, he⟩ <;> rw [he] at hcapture <;> cases hcapture
      obtain ⟨raws', hv', -, hagree, -⟩ := h.device.of_recording hp hs rfl hcalls
      obtain rfl : raws = raws' := Option.some.inj (hv.symm.trans hv')
      exact hagree
    · exact h.recordings r' recording hr hdev
  · refine ended_recorded h hs hcalls rfl (fun d => ?_) h.recordings
    rw [recordingOf_setDevice]
    split
    · simp [Capturable.releaseCapture, World.setDevice]
    · exact (hset d).trans (if_neg ‹_›)
  · exact ended_recorded h hs hcalls rfl hset h.recordings
  · exact ended_recorded h hs hcalls rfl hset h.recordings

theorem unwindCapture_recorded (h : Recorded w d) (hw : w.Valid) {s : Nat}
    (ha : (RunAct.unwindCapture s).Allowed w) : Recorded (Scope.unwindCapture s w).2 d := by
  obtain ⟨scope, hs, hc, -⟩ := ha
  obtain ⟨calls, hcalls⟩ := Option.isSome_iff_exists.mp (hw.inCapture s scope hs hc)
  have hset : ∀ d, recordingOf (w.setDevice scope.dev { w.devices scope.dev with
        raw := (CpuBackend.endCapture (w.devices scope.dev).raw).2 }) d =
      if d = scope.dev then (CpuBackend.endCapture (w.devices scope.dev).raw).2.recording
      else recordingOf w d := fun d => recordingOf_setDevice w _ _ d
  rw [unwindCapture_run hs]
  simp only [Capturable.endCapture]
  split
  · refine ended_recorded h hs hcalls rfl (fun d => ?_) h.recordings
    rw [recordingOf_setDevice]
    split
    · simp [Capturable.releaseCapture, World.setDevice]
    · exact (hset d).trans (if_neg ‹_›)
  · exact ended_recorded h hs hcalls rfl hset h.recordings
  · exact ended_recorded h hs hcalls rfl hset h.recordings

theorem replay_recorded (h : Recorded w d) {s r : Nat} (ha : (RunAct.replay s r).Allowed w) :
    Recorded (Scope.replay s r w).2 d := by
  obtain ⟨scope, hs⟩ := exists_of_mem ha.1
  obtain ⟨recording, hr⟩ := exists_of_mem ha.2
  rw [replay_run hs hr]
  split
  · refine h.transfer ?_ rfl (keepsScopes_of_eq (by rfl) d)
    rw [recordingOf_setDevice]
    split
    · subst d
      exact (replay_onlyMemory (Scope.rawNode w) recording.raw _).sameRecording.1
    · rfl
  · exact h
  · exact h

theorem dropRecording_recorded (h : Recorded w d) {r : Nat}
    (ha : (RunAct.dropRecording r).Allowed w) : Recorded (Scope.dropRecording r w).2 d := by
  obtain ⟨recording, hr⟩ := exists_of_mem ha
  rw [dropRecording_run hr]
  refine ⟨h.device.transfer ?_ (keepsScopes_of_eq (by rfl) d), fun r' recording' hr' => ?_⟩
  · rw [recordingOf_setDevice]
    split
    · subst d
      rfl
    · rfl
  · simp only [World.setDevice_recordings, World.setRecordings_recordings,
      AList.lookup_erase_eq] at hr'
    split at hr'
    · cases hr'
    · exact h.recordings r' recording' hr'

/-- Opening, binding in and closing scopes leaves captures and their notes as
they are. -/
theorem ScopeAct.sameCaptures {a : ScopeAct} (ha : a.Allowed w) (d : Nat) :
    SameCaptures d w (a.run w).2 := by
  have set : ∀ {s scope scope'}, w.scopes.lookup s = some scope → scope'.dev = scope.dev →
      scope'.recording = scope.recording → scope'.inCapture = scope.inCapture →
      SameCaptures d w (w.setScope s scope') := by
    intro s scope scope' hs hdev hrec hc
    refine ⟨fun s₁ scope₁ h₁ hd₁ => ?_, fun s₁ scope₁ h₁ hd₁ hc₁ => ?_⟩
    · rw [World.setScope_scopes, AList.lookup_insert_eq] at h₁
      split at h₁
      · subst s₁
        cases h₁
        exact .inr ⟨scope, hs, hdev.symm.trans hd₁, hrec.symm, hc.symm⟩
      · exact .inr ⟨scope₁, h₁, hd₁, rfl, rfl⟩
    · rw [World.setScope_scopes, AList.lookup_insert_eq]
      split
      · subst s₁
        obtain rfl : scope = scope₁ := Option.some.inj (hs.symm.trans h₁)
        exact ⟨scope', rfl, hdev.trans hd₁, hc.trans hc₁, hrec⟩
      · exact ⟨scope₁, h₁, hd₁, hc₁, rfl⟩
  cases a with
  | openOn s d' =>
    refine ⟨fun s₁ scope₁ h₁ hd₁ => ?_, fun s₁ scope₁ h₁ hd₁ hc₁ => ⟨scope₁, ?_, hd₁, hc₁, rfl⟩⟩
    · change (w.scopes.insert s _).lookup s₁ = _ at h₁
      rw [AList.lookup_insert_eq] at h₁
      split at h₁
      · cases h₁
        exact .inl ⟨rfl, rfl⟩
      · exact .inr ⟨scope₁, h₁, hd₁, rfl, rfl⟩
    · refine (AList.lookup_insert_ne ?_).trans h₁
      rintro rfl
      cases ha.symm.trans h₁
  | close s =>
    obtain ⟨scope, hs, hc⟩ := ha
    rw [ScopeAct.run, silent_world, close_run hs]
    refine ⟨fun s₁ scope₁ h₁ hd₁ => ?_, fun s₁ scope₁ h₁ hd₁ hc₁ => ⟨scope₁, ?_, hd₁, hc₁, rfl⟩⟩
    · simp only [World.setDevice_scopes, World.setScopes_scopes, AList.lookup_erase_eq] at h₁
      split at h₁
      · cases h₁
      · exact .inr ⟨scope₁, h₁, hd₁, rfl, rfl⟩
    · refine (AList.lookup_erase_ne ?_).trans h₁
      rintro rfl
      obtain rfl : scope = scope₁ := Option.some.inj (hs.symm.trans h₁)
      rw [hc] at hc₁
      cases hc₁
  | bind s p =>
    obtain ⟨scope, hs⟩ := exists_of_mem ha.1
    obtain ⟨t, ht⟩ := exists_of_mem ha.2.1
    rw [ScopeAct.run, giving!_world, scopeBind_run hs ht]
    split
    · exact set hs rfl rfl rfl
    · exact sameCaptures_of_eq rfl d
  | bindNode s a =>
    obtain ⟨scope, hs⟩ := exists_of_mem ha.1
    obtain ⟨node, hn⟩ := exists_of_mem ha.2.1
    rw [ScopeAct.run, giving!_world, scopeBindNode_run hs hn]
    split
    · exact set hs rfl rfl rfl
    · exact sameCaptures_of_eq rfl d

/-! ## Every run -/

theorem Recorded.init (poolBytes : Nat → Nat) (d : Nat) :
    Recorded (World.init CpuBackend.attach poolBytes) d where
  device := .inr (.inl ⟨rfl, fun _ _ h => by cases h⟩)
  recordings _ _ h := by cases h

/-- **A step that doesn't stray keeps the notes alike.** -/
theorem Recorded.step {e : Event CpuBackend} (h : Recorded w d) (hw : w.Valid)
    (hs : Tidy d w e w') : Recorded w' d := by
  obtain ⟨⟨ha, hr⟩, ht⟩ := hs
  rcases e with ⟨a, out⟩
  obtain rfl : (a.perform w).2 = w' := congrArg Prod.snd hr
  cases a with
  | tensor a =>
    obtain ⟨hf, hd⟩ := TensorAct.keeps frame_sameRecording tensors_sameRecording a w
    exact h.transfer (hd d).1 hf.recordings (keepsScopes_of_eq hf.scopes d)
  | memory a =>
    obtain ⟨hf, hd⟩ := MemoryAct.keeps frame_sameRecording memory_sameRecording a w
    exact h.transfer (hd d).2.1 hf.recordings (keepsScopes_of_eq hf.scopes d)
  | node a =>
    obtain ⟨hf, hd⟩ := NodeAct.keeps frame_sameRecording nodes_sameRecording a w
    exact h.transfer (hd d).2.1 hf.recordings (keepsScopes_of_eq hf.scopes d)
  | scope a =>
    obtain ⟨hf, hd⟩ := ScopeAct.keeps frame_sameRecording memory_sameRecording.synchronize a w
    exact h.transfer (hd d).2.1 hf.recordings (ScopeAct.sameCaptures ha d).keepsScopes
  | run a =>
    change Recorded (a.run w).2 d
    cases a with
    | execute s n args =>
      rw [RunAct.run, silent_world]
      exact execute_recorded h hw ha ht
    | beginCapture s =>
      rw [RunAct.run, silent_world]
      exact beginCapture_recorded h ha
    | endCapture s r result =>
      rw [RunAct.run, silent_world]
      exact endCapture_recorded h hw ha
    | unwindCapture s =>
      rw [RunAct.run, silent_world]
      exact unwindCapture_recorded h hw ha
    | replay s r =>
      rw [RunAct.run, silent_world]
      exact replay_recorded h ha
    | dropRecording r =>
      rw [RunAct.run, silent_world]
      exact dropRecording_recorded h ha

theorem Recorded.run {es : List (Event CpuBackend)} (h : Recorded w d) (hw : w.Valid)
    (hr : Transition.Runs (Tidy d) w es w') : Recorded w' d :=
  (hr.preserves (I := fun w => w.Valid ∧ Recorded w d)
    (fun _ _ _ h hs => ⟨h.1.step hs.1, h.2.step h.1 hs⟩) ⟨hw, h⟩).2

/-! ## Running at once -/

/-- What a device that records nothing does with a call. -/
theorem executeRaw_idle {raw : CpuBackend} (hidle : raw.recording = ⟨none, false⟩)
    {bindings : List (Access CpuBuffer)} (howner : ∀ b ∈ bindings, b.buf.owner = raw.owner)
    (address : Nat) (node : CpuNode) :
    CpuBackend.executeRaw address node bindings raw =
      CpuBackend.runNative node (bindings.map CpuSlot.ofAccess) raw := by
  have hnone : ¬(bindings.any fun a => a.buf.owner ≠ raw.owner) = true := by
    simpa using howner
  simp only [CpuBackend.executeRaw, hidle, if_neg hnone]
  rfl

/-- What is bound in a scope belongs to its device. -/
theorem owner_of_access (hw : w.Valid) (ho : Owners w) {s : Nat} {scope : Scope}
    (hs : w.scopes.lookup s = some scope) {args : List Arg} {bindings : List (Access CpuBuffer)}
    (h : Scope.access w scope args = .ok bindings) :
    ∀ b ∈ bindings, b.buf.owner = (w.devices scope.dev).raw.owner := by
  intro b hb
  obtain ⟨arg, -, t, ht, rfl⟩ := (access_eq_ok.mp h).flip.exists_of_mem_left hb
  obtain ⟨p, hp, hl⟩ := boundTensor_eq_ok.mp ht
  obtain ⟨t', hl', hd⟩ := hw.bufs s scope hs p (List.mem_of_getElem? hp)
  obtain rfl : t = t' := Option.some.inj (hl.symm.trans hl')
  have hbuf : (arg.access t.raw).buf = t.raw := by cases arg <;> rfl
  rw [hbuf, ho.device, ← hd]
  exact ho.tensor t (AList.mem_values.mpr ⟨p, hl⟩)

/-- **An `execute` of a scope that doesn't record, on a device that doesn't
either,** fails its checks and changes nothing, or does what its node's native
code does. -/
theorem execute_of_idle (hw : w.Valid) (ho : Owners w) {s n : Nat} {args : List Arg}
    {scope : Scope} (ha : (RunAct.execute s n args).Allowed w)
    (hs : w.scopes.lookup s = some scope) (hr : scope.recording = none)
    {address : Nat} {node : Node CpuBackend} (hb : w.boundNode scope n = .ok (address, node))
    (hidle : Scope.check w scope node args = .ok () → recordingOf w scope.dev = ⟨none, false⟩) :
    (Scope.check w scope node args ≠ .ok () ∧ (Scope.execute s n args w).2 = w) ∨
      ∃ bindings, Scope.access w scope args = .ok bindings ∧
        Scope.execute s n args w = (World.onRawDevice scope.dev
          (CpuBackend.runNative node.raw (bindings.map CpuSlot.ofAccess))).mapErr
            Error.Backend w := by
  obtain ⟨scope', hs', -, hargs⟩ := ha
  obtain rfl : scope' = scope := Option.some.inj (hs'.symm.trans hs)
  obtain ⟨tensors, ht⟩ := exists_tensors hw hs hargs
  obtain ⟨bindings, hbindings⟩ := exists_access ht
  rw [execute_run hs hb, hbindings]
  rcases hcheck : Scope.check w scope' node args with _ | e | _
  · refine .inr ⟨bindings, rfl, ?_⟩
    simp only [executed_of_none hr, mapErr_run, onRawDevice_run, Dispatch.executeRaw]
    rw [executeRaw_idle (hidle hcheck) (owner_of_access hw ho hs hbindings)]
  · exact .inl ⟨nofun, rfl⟩
  · exact .inl ⟨nofun, rfl⟩

/-- What becomes of a step that is an `execute` of a scope of device `d` that
doesn't record: no device's recording state and no recording changes, and if it
passes its checks, its outcome and the world after it are those of the node's
code run on the buffers there and then. -/
def RanAtOnce (d : Nat) (w : World CpuBackend) (e : Event CpuBackend) (w' : World CpuBackend) :
    Prop :=
  ∀ s n args scope, e.act = .run (.execute s n args) → w.scopes.lookup s = some scope →
    scope.dev = d → scope.recording = none →
      (∀ d', recordingOf w' d' = recordingOf w d') ∧ w'.recordings = w.recordings ∧
      ∃ address node, w.boundNode scope n = .ok (address, node) ∧
        (Scope.check w scope node args = .ok () → ∃ bindings,
          Scope.access w scope args = .ok bindings ∧
          silent ((World.onRawDevice d (CpuBackend.runNative node.raw
            (bindings.map CpuSlot.ofAccess))).mapErr Error.Backend) w = (e.out, w'))

theorem ranAtOnce (hw : w.Valid) (ho : Owners w) (h : Recorded w d) {e : Event CpuBackend}
    (hs : Undisturbed d w e w') : RanAtOnce d w e w' := by
  obtain ⟨⟨ha, hrun⟩, hi⟩ := hs
  rcases e with ⟨_, out⟩
  rintro s n args scope rfl hscope rfl hnone
  obtain ⟨scope', hs', hn, -⟩ := id ha
  obtain rfl : scope' = scope := Option.some.inj (hs'.symm.trans hscope)
  obtain ⟨node, hnode, -⟩ := hw.nodes s scope' hscope _ (List.getElem_mem hn)
  have hb := boundNode_eq_ok.mpr ⟨List.getElem?_eq_getElem hn, hnode⟩
  have hidle : Scope.check w scope' node args = .ok () →
      recordingOf w scope'.dev = ⟨none, false⟩ := by
    intro hcheck
    refine h.device.idle (Bool.eq_false_of_not_eq_true fun hv => hi ?_)
    exact ⟨scope', hscope, rfl, hnone, hv, by rw [hb, Outcome.ok_bind, hcheck]⟩
  change silent (Scope.execute s n args) w = (out, w') at hrun
  rcases execute_of_idle hw ho ha hscope hnone hb hidle with ⟨hfails, hsame⟩ |
    ⟨bindings, hbindings, heq⟩
  · obtain rfl : w = w' := hsame.symm.trans (silent_eq hrun).1
    exact ⟨fun _ => rfl, rfl, _, node, hb, fun hok => absurd hok hfails⟩
  · have hsilent : silent ((World.onRawDevice scope'.dev (CpuBackend.runNative node.raw
        (bindings.map CpuSlot.ofAccess))).mapErr Error.Backend) w = (out, w') := by
      rw [← hrun, silent, silent, bind_run, bind_run, heq]
    have hw' := (silent_eq hsilent).1
    rw [mapErr_run, onRawDevice_run] at hw'
    subst hw'
    refine ⟨fun d' => ?_, rfl, _, node, hb, fun _ => ⟨bindings, hbindings, hsilent⟩⟩
    rw [recordingOf_setDevice]
    split
    · subst d'
      rfl
    · rfl

/-- **The two notes of every recording of a device agree** in every run in which
no `execute` intrudes on a recording of it, and every `execute` outside a
capture runs at once. -/
theorem undisturbed_run_agrees {poolBytes : Nat → Nat} {es : List (Event CpuBackend)}
    (h : Transition.Runs (Undisturbed d) (World.init CpuBackend.attach poolBytes) es w) :
    (∀ r recording, w.recordings.lookup r = some recording → recording.dev = d →
      Agree recording.calls recording.raw.calls) ∧
    ∀ e w', Undisturbed d w e w' → RanAtOnce d w e w' := by
  have hw : w.Valid := (World.Valid.init CpuBackend.attach poolBytes).run h.of_where
  have hrecorded := (Recorded.init poolBytes d).run (.init _ _)
    (h.mono fun _ _ _ => Undisturbed.tidy)
  exact ⟨hrecorded.recordings,
    fun e w' => ranAtOnce hw (laid ⟨es, h.of_where⟩).owners hrecorded⟩

/-! ## Two scopes on one device -/

namespace Sample

open Backends.Sample

/-- CPU devices without a pool. -/
def start : World CpuBackend := .init CpuBackend.attach fun _ => 0

/-- Two tensors and two nodes, one of each bound in each of two scopes. -/
def twoScopes : List (Act CpuBackend) := [
  .tensor (.alloc 0 env 0 .Int8 4), .tensor (.alloc 0 env 1 .Int8 4),
  .node (.build 0 100 fill [] (.linear 1)), .node (.build 0 101 fill [] (.linear 1)),
  .scope (.openOn 0 0), .scope (.openOn 1 0),
  .scope (.bind 0 0), .scope (.bindNode 0 100), .scope (.bind 1 1), .scope (.bindNode 1 101)]

/-- A capture of scope 0, during which `s` runs its node. -/
def captured (s : Nat) : List (Act CpuBackend) :=
  twoScopes ++ [.run (.beginCapture 0), .run (.execute s 0 [.Write 0]),
    .run (.endCapture 0 0 (.ok ()))]

/-- Scope 1 runs its node. -/
def beside : Event CpuBackend := ⟨.run (.execute 1 0 [.Write 0]), .ok .unit⟩

end Sample

open Capture.Sample

set_option maxRecDepth 4000

/-- Scope 1 runs its node while scope 0 captures. Every call returns, and the
recording's two notes have different lengths. -/
theorem stray_execute_disagrees : ∃ es w recording, start.Runs es w ∧
    (∀ e ∈ es, e.out.isOk = true) ∧ w.recordings.lookup 0 = some recording ∧
    ¬Agree recording.calls recording.raw.calls := by
  have hrun : ((start.play (fun _ _ => True) (captured 1)).any fun (es, w) =>
      es.all (fun e => e.out.isOk) && (w.recordings.lookup 0).any fun recording =>
        recording.calls.length ≠ recording.raw.calls.length) = true := by
    decide
  obtain ⟨⟨es, w⟩, hplay, hall⟩ := Option.any_eq_true _ _ |>.mp hrun
  simp only [Bool.and_eq_true, List.all_eq_true, Option.any_eq_true, decide_eq_true_eq] at hall
  obtain ⟨hok, recording, hr, hlen⟩ := hall
  exact ⟨es, w, recording, (World.runs_of_play hplay).of_where, hok, hr,
    fun h => hlen h.length_eq⟩

/-- Scope 0's recording has its own call, and scope 1's call afterwards runs at once. -/
theorem undisturbed_run_agrees_beside : ∃ es w recording scope address node bindings w',
    Transition.Runs (Undisturbed 0) start es w ∧ w.recordings.lookup 0 = some recording ∧
    recording.calls.length = 1 ∧ Agree recording.calls recording.raw.calls ∧
    w.scopes.lookup 1 = some scope ∧ w.boundNode scope 0 = .ok (address, node) ∧
    Scope.access w scope [.Write 0] = .ok bindings ∧ w.Step beside w' ∧
    silent ((World.onRawDevice 0 (CpuBackend.runNative node.raw
      (bindings.map CpuSlot.ofAccess))).mapErr Error.Backend) w = (.ok .unit, w') := by
  have hrun : ((start.play (fun w a => ¬Intrudes 0 w a) (captured 0)).any fun (_, w) =>
      ((w.recordings.lookup 0).any fun recording =>
        recording.calls.length = 1 ∧ recording.dev = 0) &&
      ((w.scopes.lookup 1).any fun scope => scope.dev = 0 ∧ scope.recording = none ∧
        (w.boundNode scope 0 >>= fun x => Scope.check w scope x.2 [.Write 0]) = .ok ()) &&
      decide (beside.act.Allowed w ∧ ¬Intrudes 0 w beside.act ∧
        (beside.act.perform w).1 = beside.out)) = true := by
    decide
  obtain ⟨⟨es, w⟩, hplay, hall⟩ := Option.any_eq_true _ _ |>.mp hrun
  simp only [Bool.and_eq_true, Option.any_eq_true, decide_eq_true_eq] at hall
  obtain ⟨⟨⟨recording, hr, hlen, hdev⟩, scope, hs, hd, hnone, hcheck⟩, ha, hi, hout⟩ := hall
  have hruns := World.runs_of_play hplay
  have hstep : Undisturbed 0 w beside (beside.act.perform w).2 := ⟨⟨ha, Prod.ext hout rfl⟩, hi⟩
  obtain ⟨hagree, hatOnce⟩ := undisturbed_run_agrees hruns
  obtain ⟨-, -, address, node, hb, hran⟩ := hatOnce _ _ hstep 1 0 [.Write 0] scope rfl hs hd hnone
  rw [hb, Outcome.ok_bind] at hcheck
  obtain ⟨bindings, hbindings, hsilent⟩ := hran hcheck
  exact ⟨es, w, recording, scope, address, node, bindings, _, hruns, hr, hlen,
    hagree 0 recording hr hdev, hs, hb, hbindings, hstep.1, hsilent⟩

end Wilupgu.Capture
