import Wilupgu.Capture.Captured
import Wilupgu.Plan.Captured

/-! # Capturing a run

`Run::capture` runs every call while the device records. Each is checked where
it stands and noted instead of run, so a capture leaves nothing behind but its
recording, and one that fails leaves nothing. -/

namespace Wilupgu.Plan

open Backend Backends Call Memory

namespace Reference

/-- The checks of the calls from the plan's `start`th on. -/
def checksFrom (plan : RunSpec) (applied : Nat → UInt32) (calls : List CallSpec) (start : Nat) :
    Outcome Error Unit :=
  (calls.zipIdx start).forM fun (call, index) =>
    (call.longEnough plan applied).mapErr (.InCall index)

/-- How a capture ends. -/
def capture (plan : RunSpec) (applied : Nat → UInt32) : Outcome Error Unit :=
  checksFrom plan applied plan.calls 0

variable {plan : RunSpec} {applied : Nat → UInt32}

theorem checksFrom_cons (call : CallSpec) (rest : List CallSpec) (start : Nat) :
    checksFrom plan applied (call :: rest) start =
      ((call.longEnough plan applied).mapErr (.InCall start) >>= fun _ =>
        checksFrom plan applied rest (start + 1)) := rfl

theorem capture_returns (plan : RunSpec) (applied : Nat → UInt32) :
    (capture plan applied).returns = true :=
  Outcome.returns_forM fun x _ =>
    (Outcome.returns_mapErr _ _).trans (longEnough_returns x.1 plan applied)

end Reference

variable {plan : RunSpec} {d : Nat} {site : Site CpuBackend} {held : Nat → Tensor CpuBackend}
  {w w' : World CpuBackend} {ρ : Reference} {call : CallSpec} {s : Nat} {scope : Scope}

/-! ## Between its beginning and its end -/

/-- The scope once its capture is over. -/
def rested (scope : Scope) : Scope := { scope with recording := none, inCapture := false }

section During

variable (hs : w.scopes.lookup s = some scope)
  (hidle : Capture.recordingOf w scope.dev = ⟨none, false⟩)

include hs hidle in
theorem beginCapture_during (hnone : scope.recording = none) :
    Scope.beginCapture s w = (.ok (), Capture.during w s scope []) := by
  have hbegin : Capturable.beginCapture (w.devices scope.dev).raw =
      (.ok (), (w.devices scope.dev).raw.setRecording ⟨some [], false⟩) := by
    rcases CpuBackend.beginCapture_cases (w.devices scope.dev).raw with
      ⟨hp, -⟩ | ⟨-, calls, hv, -⟩ | ⟨-, -, hb⟩
    · rw [Capture.recordingOf] at hidle
      rw [hidle] at hp
      cases hp
    · rw [Capture.recordingOf] at hidle
      rw [hidle] at hv
      cases hv
    · exact hb
  rw [beginCapture_run hs, hnone, hbegin]
  simp [Capture.during, Capture.scopeDuring, Capture.rawDuring, World.setDevice, World.setScope]

include hidle in
/-- The end of a capture, whatever its closure returned. -/
theorem endCapture_during (notes : List (RecordedCall × CpuCall)) (k : Nat)
    (result : Except Error Unit) :
    Scope.endCapture s k result (Capture.during w s scope notes) =
      match result with
      | .ok () => (.ok (), (w.setScope s (rested scope)).setRecordings
          (w.recordings.insert k (Capture.recordingOfNotes w scope notes)))
      | .error e => (.err e, w.setScope s (rested scope)) := by
  have hs : (Capture.during w s scope notes).scopes.lookup s =
      some (Capture.scopeDuring scope notes) := AList.lookup_insert _
  have hend : CpuBackend.endCapture (Capture.rawDuring (w.devices scope.dev).raw notes) =
      (.ok ⟨notes.map Prod.snd, (w.devices scope.dev).raw.owner⟩, (w.devices scope.dev).raw) := by
    have hsame : (Capture.rawDuring (w.devices scope.dev).raw notes).setRecording ⟨none, false⟩ =
        (w.devices scope.dev).raw := by
      rw [← hidle]
      rfl
    rw [← hsame]
    rfl
  have hdev : (Capture.scopeDuring scope notes).dev = scope.dev := rfl
  rw [endCapture_run hs rfl]
  simp only [Capturable.endCapture, hdev, Capture.during_raw, hend]
  rcases result with e | _
  · simp [Capture.during, Capture.scopeDuring, rested, World.setDevice, World.setScope,
      Capturable.releaseCapture]
  · simp [Capture.during, Capture.scopeDuring, rested, Capture.recordingOfNotes, World.setDevice,
      World.setScope, World.setRecordings]

end During

/-! ## Calls that are noted -/

/-- Where a handle has a call. -/
theorem Bound.Fits.slotOf {bound : Bound} (hf : bound.Fits plan d w)
    {Copy : RunCall → List MetaValue → Prop} (hholds : bound.Holds Copy (liveRun plan d site) w)
    (hmem : ∀ id, id ∈ bound.calls ↔ id ∈ builtCalls plan site) (hcall : call ∈ plan.calls)
    (hs : w.scopes.lookup bound.scope = some scope) :
    ∃ slot args, bound.calls.lookup call.id = some (slot, args) ∧
      scope.nodes[slot]? = some (site.address call.id) ∧ ArgsFit plan site scope call args := by
  have hbuilt : (builtCalls plan site).lookup call.id =
      some ⟨site.address call.id, call.tensors, call.node.metaSources⟩ :=
    AList.lookup_ofList.mpr ⟨call, hcall, rfl, rfl⟩
  obtain ⟨⟨slot, args⟩, hlook⟩ :=
    exists_of_mem ((hmem call.id).mpr (AList.lookup_isSome.mp (by rw [hbuilt]; rfl)))
  obtain ⟨rc, _, hrc, ⟨scope', hs', hslot⟩, -⟩ := hholds.calls call.id slot args hlook
  obtain rfl := Option.some.inj (hbuilt.symm.trans hrc)
  obtain rfl := Option.some.inj (hs.symm.trans hs')
  exact ⟨slot, args, hlook, hslot, hf.argsFit hholds hcall hlook hs⟩

/-- What the node at a call's place is told apart by. -/
def uidOf (w : World CpuBackend) (site : Site CpuBackend) (call : CallSpec) : Nat :=
  ((w.nodes.lookup (site.address call.id)).map Node.uid).getD 0

/-- What is noted of calls that all pass their checks. -/
def notesOf (w : World CpuBackend) (site : Site CpuBackend) (held : Nat → Tensor CpuBackend)
    (calls : List CallSpec) : List (RecordedCall × CpuCall) :=
  calls.map fun call => noteOf site held (uidOf w site call) call

/-- The calls of a handle, of which the first is the plan's `start`th. -/
def Bound.executeFrom (bound : Bound) (calls : List CallSpec) (start : Nat) :
    Call (World CpuBackend) Error Unit :=
  ((calls.map CallSpec.id).zipIdx start).forM fun (id, index) =>
    (bound.executeCall id).mapErr (.InCall index)

theorem Bound.executeFrom_cons (bound : Bound) (call : CallSpec) (rest : List CallSpec)
    (start : Nat) : bound.executeFrom (call :: rest) start =
      ((bound.executeCall call.id).mapErr (.InCall start) >>= fun _ =>
        bound.executeFrom rest (start + 1)) := rfl

section Noted

variable (h : Stands plan d site held w ρ) (hh : Holding plan d site held) (hdev : scope.dev = d)
  (notes : List (RecordedCall × CpuCall))
include h hh hdev

/-- A device that records takes every buffer of a call, and notes it. -/
theorem Stands.executeRaw_during (hcall : call ∈ plan.calls) (address uid : Nat) (node : CpuNode) :
    CpuBackend.executeRaw address node (call.slots.map (slotBuffer held))
        (Capture.rawDuring (w.devices scope.dev).raw notes) =
      (.ok (), Capture.rawDuring (w.devices scope.dev).raw (notes ++
        [(⟨address, (call.slots.map (slotBuffer held)).map
            (RecordedArg.ofAccess (B := CpuBackend)), uid⟩,
          ⟨address, (call.slots.map (slotBuffer held)).map CpuSlot.ofAccess⟩)])) := by
  -- the only error is another device's buffer, which an idle device wouldn't take either
  rcases Capture.executeRaw_during (w.devices scope.dev).raw notes
    ⟨address, (call.slots.map (slotBuffer held)).map (RecordedArg.ofAccess (B := CpuBackend)), uid⟩
    node (call.slots.map (slotBuffer held)) with hran | ⟨e, hran⟩
  · exact hran
  · subst hdev
    exfalso
    have hidle := h.executeRaw hh hcall address node
    simp only [CpuBackend.executeRaw, Capture.rawDuring, CpuBackend.setRecording] at hran hidle
    split at hran
    · rename_i hother
      rw [if_pos hother] at hidle
      have hout := congrArg Prod.fst hidle
      simp only [CpuBackend.runNative] at hout
      split at hout <;> cases hout
    · cases hran

/-- **A call in a capture** is checked as it would be, and noted if it may run. -/
theorem Stands.executeCall_during (hcall : call ∈ plan.calls) {bound : Bound}
    (hscope : bound.scope = s) {slot : Nat} {args : List Arg}
    (hlook : bound.calls.lookup call.id = some (slot, args))
    (hslot : scope.nodes[slot]? = some (site.address call.id))
    (hargs : ArgsFit plan site scope call args) :
    bound.executeCall call.id (Capture.during w s scope notes) =
      match call.longEnough plan ρ.applied with
      | .ok () => (.ok (), Capture.during w s scope
          (notes ++ [noteOf site held (uidOf w site call) call]))
      | .err e => (.err e, Capture.during w s scope notes)
      | .panic => (.panic, Capture.during w s scope notes) := by
  obtain ⟨node, hnode, hn⟩ := h.nodes call hcall
  have hs : (Capture.during w s scope notes).scopes.lookup s =
      some (Capture.scopeDuring scope notes) := AList.lookup_insert _
  have hbound : (Capture.during w s scope notes).boundNode (Capture.scopeDuring scope notes) slot =
      .ok (site.address call.id, node) := boundNode_eq_ok.mpr ⟨hslot, hnode⟩
  have hcheck : Scope.check (Capture.during w s scope notes) (Capture.scopeDuring scope notes) node
      args = call.longEnough plan ρ.applied := h.check hh hcall hn hargs
  have haccess : Scope.access (Capture.during w s scope notes) (Capture.scopeDuring scope notes)
      args = .ok (call.slots.map (slotBuffer held)) := h.access hargs
  rw [Bound.executeCall, hlook, check_run]
  simp only [Outcome.okOr]
  rw [hscope, execute_run hs hbound, hcheck]
  rcases call.longEnough plan ρ.applied with _ | e | _
  · have hran := h.executeRaw_during hh hdev notes hcall (site.address call.id) node.uid node.raw
    rw [← Capture.during_raw w s scope notes] at hran
    have hexecuted := Capture.executed_of_ok s (Capture.scopeDuring scope notes) rfl hran
    have huid : uidOf w site call = node.uid := by rw [uidOf, hnode]; rfl
    simp only [haccess]
    rw [hexecuted, noteOf, huid, ← Capture.during_snoc]
    rfl
  · rfl
  · rfl

/-- **Calls in a capture**, up to the first that fails its check. -/
theorem Stands.executes_during {bound : Bound} (hscope : bound.scope = s)
    (hslots : ∀ call ∈ plan.calls, ∃ slot args, bound.calls.lookup call.id = some (slot, args) ∧
      scope.nodes[slot]? = some (site.address call.id) ∧ ArgsFit plan site scope call args)
    {calls : List CallSpec} (hsub : ∀ call ∈ calls, call ∈ plan.calls) (start : Nat) :
    ∃ notes', bound.executeFrom calls start (Capture.during w s scope notes) =
        (Reference.checksFrom plan ρ.applied calls start, Capture.during w s scope notes') ∧
      (Reference.checksFrom plan ρ.applied calls start = .ok () →
        notes' = notes ++ notesOf w site held calls) := by
  induction calls generalizing notes start with
  | nil => exact ⟨notes, rfl, fun _ => (List.append_nil notes).symm⟩
  | cons call rest ih =>
    have hcall := hsub call List.mem_cons_self
    obtain ⟨slot, args, hlook, hslot, hargs⟩ := hslots call hcall
    rw [Bound.executeFrom_cons, bind_run, mapErr_run,
      h.executeCall_during hh hdev notes hcall hscope hlook hslot hargs,
      Reference.checksFrom_cons]
    rcases call.longEnough plan ρ.applied with _ | e | _
    · obtain ⟨notes', hrest, hnotes⟩ := ih
        (notes ++ [noteOf site held (uidOf w site call) call])
        (fun c hc => hsub c (List.mem_cons_of_mem call hc)) (start + 1)
      refine ⟨notes', hrest, fun hok => ?_⟩
      rw [hnotes hok, List.append_assoc]
      rfl
    · exact ⟨notes, rfl, nofun⟩
    · exact ⟨notes, rfl, nofun⟩

end Noted

/-! ## All of it -/

/-- A scope whose closure returns is closed then. -/
theorem inScope_run {f : Call (World CpuBackend) Error Unit} {out : Outcome Error Unit}
    (hf : f (w.setScope s (Scope.new d)) = (out, w')) (hout : out.returns = true)
    (hs : w'.scopes.lookup s = some scope) :
    Scope.inScope s d f w = (out, w'.setScopes (w'.scopes.erase s)) := by
  have hclose : Scope.close s w' = (.ok (), w'.setScopes (w'.scopes.erase s)) := by
    rw [close_run hs]
    exact Prod.ext rfl (setDevice_self _ _)
  have hopen : Scope.openOn s d w = (.ok (), w.setScope s (Scope.new d)) := rfl
  rw [Scope.inScope, bind_of_ok hopen, bind_run, orDrop_run, attempt_run, hf]
  rcases out with _ | e | _
  · simp only
    rw [bind_of_ok hclose]
    rfl
  · simp only
    rw [bind_of_ok hclose]
    rfl
  · cases hout

section Capture

variable (h : Stands plan d site held w ρ) (hh : Holding plan d site held)
include h hh

/-- The recording made of all calls is the run's. -/
theorem Stands.records (hdev : scope.dev = d) : Records plan d site held
    (Capture.recordingOfNotes w scope (notesOf w site held plan.calls)) := by
  refine ⟨hdev, uidOf w site, List.map_map, ?_⟩
  subst hdev
  rw [Capture.recordingOfNotes, h.owner, notesOf, List.map_map]
  rfl

theorem Stands.captureScope (hs : w.scopes.lookup s = some scope)
    (hopen : OpenFor d w scope) {bound : Bound} (hscope : bound.scope = s)
    (hslots : ∀ call ∈ plan.calls, ∃ slot args, bound.calls.lookup call.id = some (slot, args) ∧
      scope.nodes[slot]? = some (site.address call.id) ∧ ArgsFit plan site scope call args)
    (horder : bound.order = plan.calls.map CallSpec.id) (k : Nat) :
    (Reference.capture plan ρ.applied = .ok () → Scope.capture s k bound.execute w =
      (.ok (), (w.setScope s (rested scope)).setRecordings (w.recordings.insert k
        (Capture.recordingOfNotes w scope (notesOf w site held plan.calls))))) ∧
    ∀ e, Reference.capture plan ρ.applied = .err e →
      Scope.capture s k bound.execute w = (.err e, w.setScope s (rested scope)) := by
  have hidle : Capture.recordingOf w scope.dev = ⟨none, false⟩ := by
    rw [hopen.dev]
    exact h.recording
  obtain ⟨notes, hnoted, hnotes⟩ := h.executes_during hh hopen.dev [] hscope hslots
    (fun _ hcall => hcall) 0
  have hexecute : bound.execute = bound.executeFrom plan.calls 0 := by
    rw [Bound.execute, horder]
    rfl
  have hchecks : Reference.checksFrom plan ρ.applied plan.calls 0 =
      Reference.capture plan ρ.applied := rfl
  rw [Scope.capture, bind_of_ok (beginCapture_during hs hidle hopen.recording), bind_run,
    orDrop_run, attempt_run, hexecute, hnoted, hchecks]
  refine ⟨fun hok => ?_, fun e he => ?_⟩
  · rw [hok]
    simp only
    rw [endCapture_during hidle, hnotes hok, List.nil_append]
  · rw [he]
    simp only
    rw [endCapture_during hidle]

/-- **Capturing a run** makes each call's check, and then leaves a recording
of the run, or the first error. It changes nothing else. -/
theorem Stands.capture {ts cs : List Nat} (hts : ts.Perm (liveRun plan d site).tensors.keys)
    (hcs : cs.Perm (liveRun plan d site).calls.keys) (hfree : w.scopes.Free s) (k : Nat) :
    ∃ scopes : Places Scope, (∀ s', scopes.lookup s' = w.scopes.lookup s') ∧
      (Reference.capture plan ρ.applied = .ok () → ∃ recording,
        Records plan d site held recording ∧ (liveRun plan d site).capture s k ts cs w =
          (.ok (), (w.setScopes scopes).setRecordings (w.recordings.insert k recording))) ∧
      ∀ e, Reference.capture plan ρ.applied = .err e →
        (liveRun plan d site).capture s k ts cs w = (.err e, w.setScopes scopes) := by
  have hopened := onlyScope_setScope s (Scope.new d) w
  obtain ⟨bound, w₂, hbind, honly, scope, hscope, hopen⟩ :=
    bind_returns (h.onlyScope hopened) (AList.lookup_insert _) (.new d _) hh hts hcs
  have hstands := h.onlyScope ((frame_onlyScope s).trans hopened honly)
  obtain ⟨hsame, hholds, hmem⟩ := bind_holds hbind
  have hfits := bind_fits hbind rfl (h.onlyScope hopened).nodesFit
  obtain ⟨scopes, rfl, hscopes⟩ := (frame_onlyScope s).trans hopened honly
  have hslots : ∀ call ∈ plan.calls, ∃ slot args,
      bound.calls.lookup call.id = some (slot, args) ∧
      scope.nodes[slot]? = some (site.address call.id) ∧ ArgsFit plan site scope call args :=
    fun call hcall => hfits.slotOf hholds
      (fun id => (hmem id).trans (hcs.mem_iff.trans AList.mem_keys.symm)) hcall (hsame ▸ hscope)
  obtain ⟨hok, herr⟩ := hstands.captureScope hh hscope hopen hsame hslots hholds.order k
  have hcapture : ∀ {out w'}, Scope.capture s k bound.execute (w.setScopes scopes) = (out, w') →
      out.returns = true → w'.scopes.lookup s = some (rested scope) →
      (liveRun plan d site).capture s k ts cs w = (out, w'.setScopes (w'.scopes.erase s)) :=
    fun hran => inScope_run ((bind_of_ok hbind).trans hran)
  refine ⟨(scopes.insert s (rested scope)).erase s, fun s' => ?_, fun hpass => ?_, fun e he => ?_⟩
  · by_cases he : s' = s
    · rw [he, AList.lookup_erase, hfree]
    · rw [AList.lookup_erase_ne he, AList.lookup_insert_ne he, hscopes s' he]
  · exact ⟨_, hstands.records hh hopen.dev,
      (hcapture (hok hpass) rfl (AList.lookup_insert _)).trans rfl⟩
  · exact (hcapture (herr e he) rfl (AList.lookup_insert _)).trans rfl

end Capture

end Wilupgu.Plan
