import Wilupgu.Capture.Located
import Wilupgu.Plan.Uses

/-! # A captured run follows its plan

`Run::capture` notes every described call, by the addresses of its node and of
its tensors' buffers. A replay looks these up in whatever order the run was
bound in, makes every check, and then runs the calls: the reference interpreter
does this to the contents. -/

namespace Wilupgu.Plan

open Backend Backends ByteMemory Call Memory

namespace Reference

/-! ## All checks first -/

/-- The checks of every call, made before any of them runs. -/
def checks (plan : RunSpec) (applied : Nat → UInt32) : Outcome Error Unit :=
  plan.calls.forM fun call => call.longEnough plan applied

/-- Calls that are not checked again. -/
def runNatives (calls : List CallSpec) : Call Reference Error Unit :=
  calls.forM fun call => do runNative call (← (.expect call.native : Outcome Error _))

/-- A replay of the described calls. -/
def replay (plan : RunSpec) : Call Reference Error Unit := do
  checks plan (← .get).applied
  runNatives plan.calls

variable {plan : RunSpec} {ρ ρ' : Reference}

theorem runNatives_cons (call : CallSpec) (rest : List CallSpec) :
    runNatives (call :: rest) =
      ((do runNative call (← (.expect call.native : Outcome Error _))) >>= fun _ =>
        runNatives rest) := rfl

theorem runNative_applied (call : CallSpec) (code : Native) (ρ : Reference) :
    (runNative call code ρ).2.applied = ρ.applied := rfl

/-- Calls that run one after the other, each checked before it runs, pass the
checks made before. -/
theorem runCalls_ok {calls : List CallSpec} {start : Nat}
    (h : runCalls plan (calls.zipIdx start) ρ = (.ok (), ρ')) :
    (∀ call ∈ calls, call.longEnough plan ρ.applied = .ok ()) ∧
      runNatives calls ρ = (.ok (), ρ') := by
  induction calls generalizing start ρ with
  | nil =>
    cases h
    exact ⟨nofun, rfl⟩
  | cons call rest ih =>
    rw [List.zipIdx_cons, runCalls_cons] at h
    obtain ⟨_, ρ₁, hcall, hrest⟩ := bind_eq_ok.mp h
    rw [mapErr_eq_ok, runCall, bind_of_ok (get_run ρ), Call.check_eq_ok] at hcall
    obtain ⟨_, hlong, hcall⟩ := hcall
    have happlied : ρ₁.applied = ρ.applied := by
      obtain ⟨code, -, hran⟩ := Call.check_eq_ok.mp hcall
      rw [← runNative_applied call code ρ, hran]
    obtain ⟨hall, hnatives⟩ := ih hrest
    refine ⟨?_, ?_⟩
    · rw [List.forall_mem_cons, ← happlied]
      exact ⟨happlied ▸ hlong, hall⟩
    · rw [runNatives_cons, bind_of_ok hcall, hnatives]

/-- **A replay does what `execute` does**, where that succeeds. -/
theorem replay_of_execute (h : execute plan ρ = (.ok (), ρ')) : replay plan ρ = (.ok (), ρ') := by
  obtain ⟨hall, hnatives⟩ := runCalls_ok h
  have hchecks : checks plan ρ.applied = .ok () := Outcome.forM_eq_ok.mpr hall
  rw [replay, bind_of_ok (get_run ρ), hchecks, check_run]
  exact hnatives

theorem longEnough_returns (call : CallSpec) (plan : RunSpec) (applied : Nat → UInt32) :
    (call.longEnough plan applied).returns = true := by
  rcases call.longEnough_cases plan applied with hok | ⟨_, _, _, herr⟩
  · rw [hok]
    rfl
  · rw [herr]
    rfl

/-- Where some check fails it fails, and nothing has changed. -/
theorem replay_of_check {call : CallSpec} (hcall : call ∈ plan.calls)
    (h : call.longEnough plan ρ.applied ≠ .ok ()) : ∃ e, replay plan ρ = (.err e, ρ) := by
  have hreturns : (checks plan ρ.applied).returns = true :=
    Outcome.returns_forM fun call' _ => longEnough_returns call' plan ρ.applied
  rw [replay, bind_of_ok (get_run ρ), check_run]
  rcases Outcome.returns_iff.mp hreturns with hok | ⟨e, he⟩
  · exact absurd (Outcome.forM_eq_ok.mp hok call hcall) h
  · rw [he]
    exact ⟨e, rfl⟩

end Reference

variable {plan : RunSpec} {d : Nat} {site : Site CpuBackend} {held : Nat → Tensor CpuBackend}
  {w w' : World CpuBackend} {ρ : Reference} {call : CallSpec}

/-! ## What is noted of a run -/

/-- The two notes made of a call, its node being the one of `uid`. -/
def noteOf (site : Site CpuBackend) (held : Nat → Tensor CpuBackend) (uid : Nat)
    (call : CallSpec) : RecordedCall × CpuCall :=
  let bindings := call.slots.map (slotBuffer held)
  (⟨site.address call.id, bindings.map (RecordedArg.ofAccess (B := CpuBackend)), uid⟩,
    ⟨site.address call.id, bindings.map CpuSlot.ofAccess⟩)

/-- **The recording of a run of the plan** has each call's node and its
tensors' buffers, in the plan's order. -/
structure Records (plan : RunSpec) (d : Nat) (site : Site CpuBackend)
    (held : Nat → Tensor CpuBackend) (recording : Recording CpuBackend) : Prop where
  dev : recording.dev = d
  notes : ∃ uid : CallSpec → Nat,
    recording.calls = plan.calls.map (fun call => (noteOf site held (uid call) call).1) ∧
    recording.raw = ⟨plan.calls.map fun call => (noteOf site held (uid call) call).2, d⟩

/-- What is first found in the scope at the address of one of the plan's tensors
is the tensor. -/
def FoundFirst (plan : RunSpec) (site : Site CpuBackend) (held : Nat → Tensor CpuBackend)
    (w : World CpuBackend) (scope : Scope) : Prop :=
  ∀ spec ∈ plan.tensors, ∀ i, Capture.FirstAt w scope (Storage.address (held spec.id).raw) i →
    scope.bufs[i]? = some (site.place spec.id)

/-- All that a call needs is bound in the scope. -/
structure CallBound (plan : RunSpec) (site : Site CpuBackend) (scope : Scope) (call : CallSpec) :
    Prop where
  node : site.address call.id ∈ scope.nodes
  tensors : ∀ s ∈ call.slots, ∃ spec ∈ plan.tensors, spec.id = s.1 ∧ site.place spec.id ∈ scope.bufs

section Replay

variable (h : Stands plan d site held w ρ) (hh : Holding plan d site held) {scope : Scope}
  (hfirst : FoundFirst plan site held w scope)
include h

/-- Something is found there if the tensor is bound. -/
theorem Stands.exists_firstAt {spec : TensorSpec} (hspec : spec ∈ plan.tensors)
    (hbound : site.place spec.id ∈ scope.bufs) :
    ∃ i, Capture.FirstAt w scope (Storage.address (held spec.id).raw) i := by
  refine ⟨_, Capture.findIdx?_address.mp (List.findIdx?_eq_some_of_exists
    ⟨site.place spec.id, hbound, ?_⟩)⟩
  rw [h.tensors spec hspec, Option.any_some]
  exact decide_eq_true rfl

include hfirst

/-- **A noted call is found again**, whatever the order the run was bound in. -/
theorem Stands.locate (hcall : call ∈ plan.calls) (hbound : CallBound plan site scope call)
    (uid : Nat) : ∃ node args, Scope.locate w scope (noteOf site held uid call).1 =
      .ok (node, args) ∧ NodeOf call d ρ.applied node ∧ ArgsFit plan site scope call args := by
  obtain ⟨node, hnode, hn⟩ := h.nodes call hcall
  have hslot : ∀ s ∈ call.slots, ∃ i,
      Capture.FirstAt w scope (Storage.address (held s.1).raw) i ∧
      ∃ spec ∈ plan.tensors, spec.id = s.1 ∧ scope.bufs[i]? = some (site.place spec.id) := by
    intro s hs
    obtain ⟨spec, hspec, hid, hplace⟩ := hbound.tensors s hs
    obtain ⟨i, hi⟩ := h.exists_firstAt hspec hplace
    exact ⟨i, hid ▸ hi, spec, hspec, hid, hfirst spec hspec i hi⟩
  obtain ⟨args, hargs⟩ := List.Forall₂.exists_of_forall
    (R := fun (s : Nat × BindingRole) (arg : Arg) => ∃ i,
      Capture.FirstAt w scope (Storage.address (held s.1).raw) i ∧
      arg = (RecordedArg.ofAccess (B := CpuBackend) (slotBuffer held s)).arg i ∧
      ∃ spec ∈ plan.tensors, spec.id = s.1 ∧ scope.bufs[i]? = some (site.place spec.id))
    fun s hs => by
      obtain ⟨i, hi, hspec⟩ := hslot s hs
      exact ⟨_, i, hi, rfl, hspec⟩
  refine ⟨node, args, Capture.locate_eq_ok.mpr ⟨hbound.node, hnode, ?_⟩, hn, ?_⟩
  · rw [noteOf, List.map_map, List.forall₂_map_left_iff]
    refine hargs.imp fun s arg hs => ?_
    obtain ⟨i, hi, harg, -⟩ := hs
    refine ⟨i, ?_, harg⟩
    rcases s with ⟨id, role⟩
    cases role <;> exact hi
  · refine hargs.imp fun s arg hs => ?_
    obtain ⟨i, -, rfl, spec, hspec, hid, hbuf⟩ := hs
    rcases s with ⟨id, role⟩
    cases role <;> exact ⟨rfl, spec, hspec, hid, hbuf⟩

include hh

/-- **A replay's checks** are those of every described call. -/
theorem Stands.checkRecorded (hopen : OpenFor d w scope)
    (hall : ∀ call ∈ plan.calls, CallBound plan site scope call)
    {recording : Recording CpuBackend} (hrec : Records plan d site held recording) :
    Scope.checkRecorded w scope recording = Reference.checks plan ρ.applied := by
  obtain ⟨uid, hcalls, -⟩ := hrec.notes
  have hdev : Rules.sameDevice scope.dev recording.dev "recording" = .ok () :=
    Rules.sameDevice_eq_ok.mpr (hopen.dev.trans hrec.dev.symm)
  rw [Scope.checkRecorded, hdev, Outcome.ok_bind, hopen.recording, hcalls]
  refine Outcome.forM_congr ?_
  rw [List.forall₂_map_left_iff, List.forall₂_same]
  intro call hcall
  obtain ⟨node, args, hfound, hn, hargs⟩ :=
    h.locate hfirst hcall (hall call hcall) (uid call)
  rw [hfound, Outcome.ok_bind]
  exact h.check hh hcall hn hargs

omit hfirst in
/-- A call that isn't checked again. -/
theorem Stands.ranNative (hcall : call ∈ plan.calls) {node : Node CpuBackend}
    (hn : NodeOf call d ρ.applied node) :
    (CpuBackend.runNative node.raw (call.slots.map fun slot => .ofAccess (slotBuffer held slot))
        (w.devices d).raw).1.mapErr Error.Backend =
        (Reference.runNative call (CpuNode.code node.raw) ρ).1 ∧
      Stands plan d site held (w.setDevice d { w.devices d with
          raw := (CpuBackend.runNative node.raw
            (call.slots.map fun slot => .ofAccess (slotBuffer held slot)) (w.devices d).raw).2 })
        (Reference.runNative call (CpuNode.code node.raw) ρ).2 := by
  have hran := h.executed hh hcall hn (show (Scope.new d).dev = d from rfl) 0 0
  have hraw : Dispatch.executeRaw (B := CpuBackend) 0 node.raw (call.slots.map (slotBuffer held))
      (w.devices d).raw = _ := h.executeRaw hh hcall 0 node.raw
  rwa [executed_of_none rfl, mapErr_run, onRawDevice_run, show (Scope.new d).dev = d from rfl,
    hraw] at hran

omit hfirst in
/-- **Calls replayed** do to the tensors what they do to the contents. -/
theorem Stands.replayCalls {nodes : Nat → Option CpuNode} (hnodes : nodes = Scope.rawNode w)
    {calls : List CallSpec} (hsub : ∀ call ∈ calls, call ∈ plan.calls) (uid : CallSpec → Nat) :
    (CpuBackend.replayCalls nodes (calls.map fun call => (noteOf site held (uid call) call).2)
        (w.devices d).raw).1.mapErr Error.Backend = (Reference.runNatives calls ρ).1 ∧
      Stands plan d site held (w.setDevice d { w.devices d with
          raw := (CpuBackend.replayCalls nodes
            (calls.map fun call => (noteOf site held (uid call) call).2) (w.devices d).raw).2 })
        (Reference.runNatives calls ρ).2 := by
  induction calls generalizing w ρ with
  | nil => exact ⟨rfl, (setDevice_self w d).symm ▸ h⟩
  | cons call rest ih =>
    have hcall := hsub call List.mem_cons_self
    obtain ⟨node, hnode, hn⟩ := h.nodes call hcall
    obtain ⟨hout, hstands⟩ := h.ranNative hh hcall hn
    have hfound : (Outcome.expect (nodes (noteOf site held (uid call) call).2.node) :
        Outcome String CpuNode) = .ok node.raw := by
      rw [hnodes, Scope.rawNode, noteOf, hnode]
      rfl
    have hslots : (noteOf site held (uid call) call).2.slots =
        call.slots.map fun slot => .ofAccess (slotBuffer held slot) := List.map_map
    rw [List.map_cons, CpuBackend.replayCalls, hfound, check_run, hslots, Reference.runNatives_cons,
      hn.code]
    simp only
    rw [bind_run, bind_run]
    simp only [Outcome.expect]
    rw [check_run]
    simp only
    rcases hran : CpuBackend.runNative node.raw
      (call.slots.map fun slot => .ofAccess (slotBuffer held slot)) (w.devices d).raw with
      ⟨_ | e | _, raw⟩ <;> rcases href : Reference.runNative call (CpuNode.code node.raw) ρ with
      ⟨_ | e' | _, ρ'⟩ <;> rw [hran, href] at hout hstands <;> cases hout
    · have hrest := ih hstands hnodes fun c hc => hsub c (List.mem_cons_of_mem call hc)
      simp only [World.setDevice_devices, Function.update_self, setDevice_setDevice] at hrest
      exact hrest
    · exact ⟨rfl, hstands⟩
    · exact ⟨rfl, hstands⟩

/-- **A replay** of what was noted does what the reference interpreter's does. -/
theorem Stands.replay (hopen : OpenFor d w scope)
    (hall : ∀ call ∈ plan.calls, CallBound plan site scope call)
    {recording : Recording CpuBackend} (hrec : Records plan d site held recording) {s k : Nat}
    (hs : w.scopes.lookup s = some scope) (hk : w.recordings.lookup k = some recording) :
    (Scope.replay s k w).1 = (Reference.replay plan ρ).1 ∧
      Stands plan d site held (Scope.replay s k w).2 (Reference.replay plan ρ).2 := by
  obtain ⟨uid, -, hraw⟩ := hrec.notes
  rw [replay_run hs hk, h.checkRecorded hh hfirst hopen hall hrec, Reference.replay,
    bind_of_ok (get_run ρ), check_run]
  rcases Reference.checks plan ρ.applied with _ | e | _
  · have hran : Capturable.replay (B := CpuBackend) (Scope.rawNode w) recording.raw
        (w.devices d).raw = CpuBackend.replayCalls (Scope.rawNode w)
          (plan.calls.map fun call => (noteOf site held (uid call) call).2) (w.devices d).raw := by
      rw [hraw]
      exact if_neg (not_not.mpr h.owner.symm)
    simp only [hopen.dev, hran]
    exact h.replayCalls hh rfl (fun _ hcall => hcall) uid
  · exact ⟨rfl, h⟩
  · exact ⟨rfl, h⟩

end Replay

end Wilupgu.Plan
