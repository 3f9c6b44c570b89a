import Wilupgu.Capture.Nodes
import Wilupgu.Lib.Lists

/-! # Which bytes a replay touches

A recording knows its buffers by address only, and the device's capture has
each slot's address and length of the time of the recording. A replay looks for
a tensor at the address and doesn't compare the lengths. -/

namespace Wilupgu.Capture

open Backend Backends ByteMemory

variable {w w' : World CpuBackend} {d : Nat}

/-! ## The condition -/

/-- No tensor of device `d` that starts at a recorded slot's address is
shorter than the slot. -/
def NoneShorter (w : World CpuBackend) (d : Nat) (raws : List CpuCall) : Prop :=
  ∀ raw ∈ raws, ∀ slot ∈ raw.slots, ∀ t ∈ w.tensors.values, t.dev = d →
    Storage.address t.raw = slot.ptr → slot.len ≤ Storage.sizeBytes t.raw

instance (w : World CpuBackend) (d : Nat) (raws : List CpuCall) :
    Decidable (NoneShorter w d raws) := by
  unfold NoneShorter
  infer_instance

/-- A call that puts a shorter tensor at an address in a living recording of
device `d`, or that ends a capture while there is one at an address it recorded. -/
def Shortens (d : Nat) (w : World CpuBackend) : Act CpuBackend → Prop
  | .tensor a => ∃ recording ∈ w.recordings.values, recording.dev = d ∧
      ¬NoneShorter (a.run w).2 d recording.raw.calls
  | .run (.endCapture s _ (.ok ())) => ∃ scope ∈ w.scopes.lookup s, scope.dev = d ∧
      ∃ raws ∈ (recordingOf w d).val, ¬NoneShorter w d raws
  | _ => False

instance (d : Nat) (w : World CpuBackend) : (a : Act CpuBackend) → Decidable (Shortens d w a)
  | .tensor a => by unfold Shortens; infer_instance
  | .run (.endCapture s _ (.ok ())) => by unfold Shortens; infer_instance
  | .run (.endCapture _ _ (.error _)) | .run (.execute _ _ _) | .run (.beginCapture _)
  | .run (.unwindCapture _) | .run (.replay _ _) | .run (.dropRecording _)
  | .memory _ | .node _ | .scope _ => isFalse not_false

/-- The steps of programs whose `execute`s on device `d` don't stray and that
put no shorter tensor where one of its slots was recorded. -/
abbrev Unshortened (d : Nat) : World CpuBackend → Event CpuBackend → World CpuBackend → Prop :=
  Transition.Where World.Step fun w e => ¬Strays d w e.act ∧ ¬Shortens d w e.act

/-! ## The invariant -/

/-- No tensor is shorter than a slot recorded at its address. -/
def SlotsKept (d : Nat) (w : World CpuBackend) : Prop :=
  ∀ r recording, w.recordings.lookup r = some recording → recording.dev = d →
    NoneShorter w d recording.raw.calls

/-- Only calls on tensors change which tensors there are. -/
theorem tensors_step {e : Event CpuBackend} (h : w.Step e w') :
    w'.tensors = w.tensors ∨ ∃ a, e.act = .tensor a ∧ (a.run w).2 = w' := by
  obtain ⟨-, hr⟩ := h
  rcases e with ⟨a, out⟩
  obtain rfl : (a.perform w).2 = w' := congrArg Prod.snd hr
  cases a with
  | tensor a => exact .inr ⟨a, rfl, rfl⟩
  | memory a => exact .inl (MemoryAct.keeps frame_any memory_any a w).1.tensors
  | node a => exact .inl (NodeAct.keeps frame_any nodes_any a w).1.tensors
  | scope a => exact .inl (ScopeAct.keeps frame_any memory_any.synchronize a w).1.tensors
  | run a => exact .inl (RunAct.keeps frame_any runs_any a w).1.tensors

theorem SlotsKept.step {e : Event CpuBackend} (h : SlotsKept d w) (hw : w.Valid)
    (hs : Unshortened d w e w') : SlotsKept d w' := by
  obtain ⟨hstep, -, ht⟩ := hs
  intro r recording hr hd
  rcases recorded_step hw hstep hr with hr' | ⟨s, scope, ha, hscope, -, -, hdev, hraw⟩
  · rcases tensors_step hstep with hsame | ⟨a, ha, rfl⟩
    · unfold NoneShorter
      rw [hsame]
      exact h r recording hr' hd
    · by_contra hshort
      rw [ha] at ht
      exact ht ⟨recording, AList.mem_values.mpr ⟨r, hr'⟩, hd, hshort⟩
  · -- the recording was just made, of what the device has recorded
    have hscopeDev : scope.dev = d := hdev.symm.trans hd
    rcases tensors_step hstep with hsame | ⟨a, ha', -⟩
    · unfold NoneShorter
      rw [hsame]
      simp only [Capturable.endCapture, hscopeDev] at hraw
      rcases CpuBackend.endCapture_cases (w.devices d).raw with
        ⟨-, he⟩ | ⟨-, raws, hv, he⟩ | ⟨-, -, he⟩ <;> rw [he] at hraw
      · cases hraw
      · rw [← Outcome.ok.inj hraw]
        by_contra hshort
        rw [ha] at ht
        exact ht ⟨scope, hscope, hscopeDev, raws, hv, hshort⟩
      · cases hraw
    · rw [ha] at ha'
      cases ha'

/-- Each recorded slot is one of an argument noted at its address. -/
theorem Agree.exists_arg {calls : List RecordedCall} {raws : List CpuCall} (h : Agree calls raws)
    {raw : CpuCall} (hraw : raw ∈ raws) {slot : CpuSlot} (hslot : slot ∈ raw.slots) :
    ∃ call ∈ calls, ∃ arg ∈ call.args, arg.address = slot.ptr := by
  obtain ⟨call, hcall, hagrees⟩ := h.exists_of_mem_right hraw
  obtain ⟨arg, harg, hslots⟩ := hagrees.slots.exists_of_mem_right hslot
  exact ⟨call, hcall, arg, harg, hslots.1⟩

/-- **A replay stays in the tensors bound in its scope,** in every run that
puts no shorter tensor where a slot was recorded. -/
theorem unshortened_replay_stays_within {poolBytes : Nat → Nat} {es : List (Event CpuBackend)}
    (h : Transition.Runs (Unshortened d) (World.init CpuBackend.attach poolBytes) es w)
    {s r : Nat} {scope : Scope} {recording : Recording CpuBackend}
    (hs : w.scopes.lookup s = some scope) (hd : scope.dev = d)
    (hr : w.recordings.lookup r = some recording)
    (hcheck : Scope.checkRecorded w scope recording = .ok ()) :
    ∀ raw ∈ recording.raw.calls, ∀ slot ∈ raw.slots, ∃ p ∈ scope.bufs, ∃ t,
      w.tensors.lookup p = some t ∧ slot.range.Within (CpuBuffer.range t.raw) := by
  obtain ⟨hw, hrecorded, hkept⟩ : w.Valid ∧ Recorded w d ∧ SlotsKept d w := by
    refine h.preserves (I := fun w => w.Valid ∧ Recorded w d ∧ SlotsKept d w) ?_
      ⟨.init _ _, .init poolBytes d, fun _ _ h => by cases h⟩
    rintro w e w' ⟨hw, hrecorded, hkept⟩ hstep
    exact ⟨hw.step hstep.1, hrecorded.step hw ⟨hstep.1, hstep.2.1⟩, hkept.step hw hstep⟩
  obtain ⟨hdev, -, hcalls⟩ := checkRecorded_eq_ok.mp hcheck
  have hrd : recording.dev = d := hdev.symm.trans hd
  intro raw hraw slot hslot
  obtain ⟨call, hcall, arg, harg, haddress⟩ :=
    (hrecorded.recordings r recording hr hrd).exists_arg hraw hslot
  obtain ⟨node, args, hlocate, -⟩ := hcalls call hcall
  obtain ⟨-, -, hargs⟩ := locate_eq_ok.mp hlocate
  obtain ⟨arg', -, i, ⟨⟨p, t, hp, ht, hat⟩, -⟩, -⟩ := hargs.exists_of_mem_left harg
  have hpm : p ∈ scope.bufs := List.mem_of_getElem? hp
  refine ⟨p, hpm, t, ht, ?_⟩
  have htd : t.dev = d := by
    obtain ⟨t', ht', hd'⟩ := hw.bufs s scope hs p hpm
    obtain rfl : t = t' := Option.some.inj (ht.symm.trans ht')
    exact hd'.trans hd
  have hlen := hkept r recording hr hrd raw hraw slot hslot t (AList.mem_values.mpr ⟨p, ht⟩) htd
    (hat.trans haddress)
  have hstart : CpuBuffer.ptr t.raw = slot.ptr := hat.trans haddress
  refine Range.within_of_le (Nat.le_of_eq hstart) ?_
  change slot.ptr + slot.len ≤ CpuBuffer.ptr t.raw + CpuBuffer.bytes t.raw
  rw [hstart]
  exact Nat.add_le_add_left hlen _

/-! ## A shorter tensor at a freed address -/

namespace Sample

open Backends.Sample

/-- A tensor of 8 bytes, recorded. -/
def recordedEight : List (Act CpuBackend) := [
  .tensor (.alloc 0 env 0 .Int8 8), .node (.build 0 100 fill [] (.linear 1)),
  .scope (.openOn 0 0), .scope (.bind 0 0), .scope (.bindNode 0 100),
  .run (.beginCapture 0), .run (.execute 0 0 [.Write 0]), .run (.endCapture 0 0 (.ok ())),
  .scope (.close 0)]

/-- It is dropped, and its address handed out for 4 bytes. -/
def reallocated : List (Act CpuBackend) :=
  [.tensor (.dropTensor 0), .tensor (.alloc 0 env 0 .Int8 4)]

/-- Scope 1 is opened for a replay. -/
def toReplay : List (Act CpuBackend) :=
  [.scope (.openOn 1 0), .scope (.bind 1 0), .scope (.bindNode 1 100)]

/-- Decided on a played run: scope 1 can replay recording 0, and then something
holds of one of its slots. -/
theorem checked_of_play (ok : World CpuBackend → Act CpuBackend → Prop)
    [∀ w a, Decidable (ok w a)] (as : List (Act CpuBackend))
    (P : World CpuBackend → Scope → CpuSlot → Bool)
    (h : ((start.play ok as).any fun (_, w) => (w.scopes.lookup 1).any fun scope =>
      (w.recordings.lookup 0).any fun recording =>
        decide (Scope.checkRecorded w scope recording = .ok ()) &&
        recording.raw.calls.any fun raw => raw.slots.any (P w scope)) = true) :
    ∃ es w scope recording raw slot,
      Transition.Runs (Transition.Where World.Step fun w e => ok w e.act) start es w ∧
      w.scopes.lookup 1 = some scope ∧ w.recordings.lookup 0 = some recording ∧
      Scope.checkRecorded w scope recording = .ok () ∧ raw ∈ recording.raw.calls ∧
      slot ∈ raw.slots ∧ P w scope slot = true := by
  obtain ⟨⟨es, w⟩, hplay, hall⟩ := Option.any_eq_true _ _ |>.mp h
  obtain ⟨scope, hs, hall⟩ := Option.any_eq_true _ _ |>.mp hall
  obtain ⟨recording, hr, hall⟩ := Option.any_eq_true _ _ |>.mp hall
  rw [Bool.and_eq_true, decide_eq_true_eq] at hall
  obtain ⟨raw, hraw, hall⟩ := List.any_eq_true.mp hall.2
  obtain ⟨slot, hslot, hP⟩ := List.any_eq_true.mp hall
  exact ⟨es, w, scope, recording, raw, slot, World.runs_of_play hplay, hs, hr, ‹_ ∧ _›.1, hraw,
    hslot, hP⟩

end Sample

open Capture.Sample

set_option maxRecDepth 8000

/-- The replay's checks pass for a slot that ends behind every bound tensor's end. -/
theorem shortened_replay_goes_beyond : ∃ es w scope recording raw slot,
    start.Runs es w ∧ w.scopes.lookup 1 = some scope ∧ w.recordings.lookup 0 = some recording ∧
    Scope.checkRecorded w scope recording = .ok () ∧ raw ∈ recording.raw.calls ∧
    slot ∈ raw.slots ∧ ∀ p ∈ scope.bufs, ∀ t, w.tensors.lookup p = some t →
      ¬slot.range.Within (CpuBuffer.range t.raw) := by
  obtain ⟨es, w, scope, recording, raw, slot, hruns, hs, hr, hcheck, hraw, hslot, hP⟩ :=
    checked_of_play (fun _ _ => True) (recordedEight ++ reallocated ++ toReplay)
      (fun w scope slot => decide (0 < slot.len) && scope.bufs.all fun p =>
        (w.tensors.lookup p).all fun t =>
          CpuBuffer.ptr t.raw + CpuBuffer.bytes t.raw < slot.ptr + slot.len) (by decide)
  refine ⟨es, w, scope, recording, raw, slot, hruns.of_where, hs, hr, hcheck, hraw, hslot,
    fun p hp t ht hwithin => ?_⟩
  rw [Bool.and_eq_true, decide_eq_true_eq, List.all_eq_true] at hP
  have hend := hP.2 p hp
  rw [ht, Option.all_some, decide_eq_true_eq] at hend
  -- the slot's last byte
  have hlast := hwithin (slot.ptr + slot.len - 1)
    ⟨by change slot.ptr ≤ _; omega, by change _ < slot.ptr + slot.len; omega⟩
  have : slot.ptr + slot.len - 1 < CpuBuffer.ptr t.raw + CpuBuffer.bytes t.raw := hlast.2
  omega

/-- The recorded tensor is still there. -/
theorem unshortened_replay_stays_within_once : ∃ es w scope recording,
    Transition.Runs (Unshortened 0) start es w ∧ w.scopes.lookup 1 = some scope ∧
    w.recordings.lookup 0 = some recording ∧
    ∀ raw ∈ recording.raw.calls, ∀ slot ∈ raw.slots, ∃ p ∈ scope.bufs, ∃ t,
      w.tensors.lookup p = some t ∧ slot.range.Within (CpuBuffer.range t.raw) := by
  obtain ⟨es, w, scope, recording, -, -, hruns, hs, hr, hcheck, -, -, hd⟩ :=
    checked_of_play (fun w a => ¬Strays 0 w a ∧ ¬Shortens 0 w a) (recordedEight ++ toReplay)
      (fun _ scope _ => scope.dev = 0) (by decide)
  exact ⟨es, w, scope, recording, hruns, hs, hr,
    unshortened_replay_stays_within hruns hs (of_decide_eq_true hd) hr hcheck⟩

end Wilupgu.Capture
