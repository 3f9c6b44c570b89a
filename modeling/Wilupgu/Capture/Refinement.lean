import Wilupgu.Capture.Captured
import Wilupgu.Capture.Located
import Wilupgu.Capture.Solo

/-! # A replay is the calls made again

On a device used by one scope at a time, replaying a recording does what
making its calls again would: one path finds nodes and buffers by the addresses
recorded, the other by their slots in the scope. -/

namespace Wilupgu.Capture

open Backend Backends Call Memory

variable {w w' : World CpuBackend} {d s : Nat} {scope scope' : Scope}

/-- Calls of `execute` on scope `s`, one after the other. -/
def executes (s : Nat) (calls : List (Nat × List Arg)) : Call (World CpuBackend) Error Unit :=
  calls.forM fun c => Scope.execute s c.1 c.2

/-- `c'`, in `scope'` of `w'`, is the call that `c` was in `scope` of `w`: the
node is the same one and hasn't moved, and the tensors are the same. -/
structure SameCall (w : World CpuBackend) (scope : Scope) (w' : World CpuBackend) (scope' : Scope)
    (c c' : Nat × List Arg) : Prop where
  node : ∃ address node node', w.boundNode scope c.1 = .ok (address, node) ∧
    w'.boundNode scope' c'.1 = .ok (address, node') ∧ node'.uid = node.uid
  args : List.Forall₂ (fun arg arg' => arg'.isWrite = arg.isWrite ∧
    ∃ t, w.boundTensor scope arg.slot = .ok t ∧ w'.boundTensor scope' arg'.slot = .ok t) c.2 c'.2

/-- Each of the calls passes the checks of `execute`, with its node's meta as it is. -/
def Passes (w : World CpuBackend) (scope : Scope) (calls : List (Nat × List Arg)) : Prop :=
  ∀ c ∈ calls, ∃ address node, w.boundNode scope c.1 = .ok (address, node) ∧
    Scope.check w scope node c.2 = .ok ()

/-- Native code that returns on these slots, whatever they hold. -/
def Returns (node : CpuNode) (slots : List CpuSlot) : Prop :=
  ∀ mem, (node.code.code node.metaWords (slots.map (CpuSlot.binding mem))).panicked = false

/-- The nodes of the calls return wherever the checks let them run. -/
def NativeReturns (w : World CpuBackend) (scope : Scope) (calls : List (Nat × List Arg)) : Prop :=
  ∀ c ∈ calls, ∀ address node bindings, w.boundNode scope c.1 = .ok (address, node) →
    Scope.check w scope node c.2 = .ok () → Scope.access w scope c.2 = .ok bindings →
      Returns node.raw (bindings.map CpuSlot.ofAccess)

/-! ## The same notes -/

theorem access_congr {arg arg' : Arg} (h : arg'.isWrite = arg.isWrite) (buf : CpuBuffer) :
    arg'.access buf = arg.access buf := by
  cases arg <;> cases arg' <;> first | rfl | cases h

/-- Making the call again would note the same. -/
theorem SameCall.notedBy {c c' : Nat × List Arg} (h : SameCall w scope w' scope' c c')
    {note : RecordedCall × CpuCall} (hn : NotedBy w scope c note) : NotedBy w' scope' c' note := by
  obtain ⟨address, node, bindings, hb, hbindings, rfl⟩ := hn
  obtain ⟨⟨address', node', node'', hb', hb'', huid⟩, hargs⟩ := h
  rw [hb] at hb'
  cases hb'
  refine ⟨address, node'', bindings, hb'', access_eq_ok.mpr ?_, by rw [huid]⟩
  refine hargs.of_both (access_eq_ok.mp hbindings) ?_
  rintro arg arg' b ⟨hwrite, t, ht, ht'⟩ ⟨t₁, ht₁, rfl⟩
  obtain rfl : t = t₁ := Outcome.ok.inj (ht.symm.trans ht₁)
  exact ⟨t, ht', access_congr hwrite _⟩

/-! ## Finding the calls again -/

section Locate

variable (hw : w.Valid) (hlaid : Laid w) (hs : w.scopes.lookup s = some scope)
  (hfull : ∀ p ∈ scope.bufs, ∀ t, w.tensors.lookup p = some t → 0 < Storage.sizeBytes t.raw)
include hw hlaid hs hfull

/-- No two tensors bound in the scope are at one address, so what is bound at
`i` is the first there. -/
theorem firstAt {i : Nat} {t : Tensor CpuBackend} (h : w.boundTensor scope i = .ok t) :
    FirstAt w scope (Storage.address t.raw) i := by
  obtain ⟨p, hp, ht⟩ := boundTensor_eq_ok.mp h
  refine ⟨⟨p, t, hp, ht, rfl⟩, fun j q t' hj hq ht' ha => ?_⟩
  have hpm := List.mem_of_getElem? hp
  have hqm := List.mem_of_getElem? hq
  obtain ⟨_, h₁, hd₁⟩ := hw.bufs s scope hs p hpm
  obtain ⟨_, h₂, hd₂⟩ := hw.bufs s scope hs q hqm
  obtain rfl := Option.some.inj (h₁.symm.trans ht)
  obtain rfl := Option.some.inj (h₂.symm.trans ht')
  have hsame := hlaid.place_eq hw ht' ht (hd₂.trans hd₁.symm) (hfull q hqm _ ht')
    (hfull p hpm _ ht) ha
  have := (List.getElem?_inj (List.getElem?_eq_some_iff.mp hq).1 (hw.bufs_nodup s scope hs)).mp
    (hq.trans (hsame ▸ hp.symm))
  omega

/-- A noted call is found again. -/
theorem NotedBy.locate {c : Nat × List Arg} {note : RecordedCall × CpuCall}
    (h : NotedBy w scope c note) {address : Nat} {node : Node CpuBackend}
    (hb : w.boundNode scope c.1 = .ok (address, node)) :
    Scope.locate w scope note.1 = .ok (node, c.2) := by
  obtain ⟨address', node', bindings, hb', hbindings, rfl⟩ := h
  rw [hb] at hb'
  cases hb'
  obtain ⟨hn, hl⟩ := boundNode_eq_ok.mp hb
  refine locate_eq_ok.mpr ⟨List.mem_of_getElem? hn, hl, ?_⟩
  rw [List.forall₂_map_left_iff]
  refine ((access_eq_ok.mp hbindings).imp ?_).flip
  rintro arg b ⟨t, ht, rfl⟩
  refine ⟨arg.slot, ?_, ?_⟩
  · have := firstAt hw hlaid hs hfull ht
    cases arg <;> exact this
  · cases arg <;> rfl

end Locate

/-! ## Making the calls again -/

theorem onRawDevice_pure {ε : Type} (d : Nat) (w : World CpuBackend) :
    World.onRawDevice d (pure () : Call CpuBackend ε Unit) w = (.ok (), w) := by
  rw [onRawDevice_run]
  exact Prod.ext rfl (setDevice_self w d)

/-- **Making the calls again is running the recorded calls**, on a device that
records nothing, if they pass their checks. -/
theorem executes_eq_replayCalls {calls : List (Nat × List Arg)}
    {notes : List (RecordedCall × CpuCall)} (hs : w.scopes.lookup s = some scope)
    (hnone : scope.recording = none) (hidle : recordingOf w scope.dev = ⟨none, false⟩)
    (howner : ∀ i t, w.boundTensor scope i = .ok t →
      CpuBuffer.owner t.raw = (w.devices scope.dev).raw.owner)
    (hnotes : List.Forall₂ (NotedBy w scope) calls notes) (hpass : Passes w scope calls) :
    executes s calls w =
      (World.onRawDevice scope.dev (CpuBackend.replayCalls (Scope.rawNode w)
        (notes.map Prod.snd))).mapErr Error.Backend w := by
  induction notes generalizing w calls with
  | nil =>
    cases hnotes
    rw [mapErr_run, List.map_nil, CpuBackend.replayCalls, onRawDevice_pure]
    rfl
  | cons note notes ih =>
    cases hnotes with
    | @cons c _ calls _ hc hrest =>
    obtain ⟨address, node, bindings, hb, hbindings, rfl⟩ := hc
    obtain ⟨_, _, hb', hcheck⟩ := hpass c (.head _)
    rw [hb] at hb'
    cases hb'
    have hown : ∀ b ∈ bindings, b.buf.owner = (w.devices scope.dev).raw.owner := by
      intro b hm
      obtain ⟨arg, -, t, ht, rfl⟩ := (access_eq_ok.mp hbindings).exists_of_mem_right hm
      have := howner arg.slot t ht
      cases arg <;> exact this
    have hraw : Dispatch.executeRaw (B := CpuBackend) address node.raw bindings
        (w.devices scope.dev).raw = CpuBackend.runNative node.raw (bindings.map CpuSlot.ofAccess)
          (w.devices scope.dev).raw := executeRaw_idle hidle hown address node.raw
    have hrun : Scope.execute s c.1 c.2 w = (World.onRawDevice scope.dev
        (CpuBackend.runNative node.raw (bindings.map CpuSlot.ofAccess))).mapErr
          Error.Backend w := by
      rw [execute_run hs hb, hcheck]
      simp only [hbindings]
      rw [executed_of_none hnone, mapErr_run, mapErr_run, onRawDevice_run, onRawDevice_run, hraw]
    have hnode : (Outcome.expect (Scope.rawNode w address) : Outcome String CpuNode) =
        .ok node.raw := by
      rw [Scope.rawNode, (boundNode_eq_ok.mp hb).2]
      rfl
    change (Scope.execute s c.1 c.2 >>= fun _ => executes s calls) w = _
    rw [Call.bind_run, hrun, mapErr_run, mapErr_run, onRawDevice_run, onRawDevice_run,
      List.map_cons, CpuBackend.replayCalls, hnode, check_run]
    simp only
    rw [Call.bind_run]
    rcases hran : CpuBackend.runNative node.raw (bindings.map CpuSlot.ofAccess)
      (w.devices scope.dev).raw with ⟨_ | e | _, raw⟩
    · obtain ⟨mem, rfl⟩ : ∃ mem, raw = (w.devices scope.dev).raw.setMem mem := by
        have := runNative_onlyMemory node.raw (bindings.map CpuSlot.ofAccess)
          (w.devices scope.dev).raw
        rwa [hran] at this
      -- only memory is another after the first call, so all is as the rest needs it
      have hafter := ih (w := w.setDevice scope.dev { w.devices scope.dev with
          raw := (w.devices scope.dev).raw.setMem mem }) hs ?_ (fun i t ht => ?_) hrest
        fun c hm => hpass c (.tail _ hm)
      · simp only [Outcome.mapErr_ok]
        rw [hafter, mapErr_run, onRawDevice_run, setDevice_setDevice]
        simp only [World.setDevice_devices, Function.update_self]
        rfl
      · rw [recordingOf_setDevice, if_pos rfl]
        exact hidle
      · rw [World.setDevice_devices, Function.update_self]
        exact howner i t ht
    · rfl
    · rfl

theorem runNative_ok {node : CpuNode} {slots : List CpuSlot} (h : Returns node slots)
    (raw : CpuBackend) : ∃ mem, CpuBackend.runNative node slots raw = (.ok (), raw.setMem mem) :=
  ⟨_, Prod.ext (if_neg (by simp [h _])) rfl⟩

theorem replayCalls_ok {nodes : Nat → Option CpuNode} {calls : List CpuCall}
    (h : ∀ call ∈ calls, ∃ node, nodes call.node = some node ∧ Returns node call.slots)
    (raw : CpuBackend) : (CpuBackend.replayCalls nodes calls raw).1 = .ok () := by
  induction calls generalizing raw with
  | nil => rfl
  | cons call rest ih =>
    obtain ⟨node, hnode, hreturns⟩ := h call (.head _)
    obtain ⟨mem, hrun⟩ := runNative_ok hreturns raw
    rw [CpuBackend.replayCalls, hnode, Outcome.expect, check_run]
    simp only
    rw [bind_of_ok hrun]
    exact ih (fun call hm => h call (.tail _ hm)) _

/-- Running recorded calls ends well or in a panic. -/
theorem replayCalls_ne_err (nodes : Nat → Option CpuNode) (calls : List CpuCall) (raw : CpuBackend)
    (e : String) : (CpuBackend.replayCalls nodes calls raw).1 ≠ .err e := by
  induction calls generalizing raw with
  | nil => simp [CpuBackend.replayCalls, pure_run]
  | cons call rest ih =>
    rw [CpuBackend.replayCalls, check_run]
    rcases nodes call.node with _ | node
    · simp [Outcome.expect]
    · simp only [Outcome.expect]
      rw [Call.bind_run]
      simp only [CpuBackend.runNative]
      split
      · exact ih _
      · rename_i h
        split at h <;> cases h
      · simp

/-! ## A replay -/

section Replay

variable {r : Nat} {calls : List (Nat × List Arg)} {notes : List (RecordedCall × CpuCall)}
  {recording : Recording CpuBackend}

/-- A replay that returns an error changes nothing. -/
theorem replay_err (hs : w.scopes.lookup s = some scope)
    (hr : w.recordings.lookup r = some recording) {e : Error}
    (h : (Scope.replay s r w).1 = .err e) : (Scope.replay s r w).2 = w := by
  rw [replay_run hs hr] at h ⊢
  split at h
  · simp only [Capturable.replay, CpuBackend.replay] at h ⊢
    split at h
    · rename_i howner
      rw [if_pos howner]
      exact setDevice_self w scope.dev
    · exfalso
      rcases hrun : (CpuBackend.replayCalls (Scope.rawNode w) recording.raw.calls
        (w.devices scope.dev).raw).1 with _ | e' | _
      · rw [hrun] at h
        cases h
      · exact replayCalls_ne_err _ _ _ e' hrun
      · rw [hrun] at h
        cases h
  · rfl
  · cases h

/-- What can be noted can be checked without a panic. -/
theorem NotedBy.check_returns {c : Nat × List Arg} {note : RecordedCall × CpuCall}
    (h : NotedBy w scope c note) (hw : w.Valid) (hs : w.scopes.lookup s = some scope)
    {node : Node CpuBackend} (hagree : node.Agrees) :
    (Scope.check w scope node c.2).returns = true := by
  obtain ⟨_, _, bindings, -, hbindings, -⟩ := h
  have hbound : ∀ arg ∈ c.2, arg.slot < scope.bufs.length := by
    intro arg hm
    obtain ⟨b, -, t, ht, -⟩ := (access_eq_ok.mp hbindings).exists_of_mem_left hm
    obtain ⟨p, hp, -⟩ := boundTensor_eq_ok.mp ht
    exact (List.getElem?_eq_some_iff.mp hp).1
  obtain ⟨tensors, ht⟩ := exists_tensors hw hs hbound
  exact Wilupgu.check_returns ht hagree.lens_length

/-- A recording's checks, in a scope in which its calls can be made again. -/
theorem checkRecorded_noted (hw : w.Valid) (hlaid : Laid w)
    (hagree : ∀ node ∈ w.nodes.values, node.Agrees)
    (hs : w.scopes.lookup s = some scope) (hnone : scope.recording = none)
    (hfull : ∀ p ∈ scope.bufs, ∀ t, w.tensors.lookup p = some t → 0 < Storage.sizeBytes t.raw)
    (hnotes : List.Forall₂ (NotedBy w scope) calls notes)
    (hcalls : recording.calls = notes.map Prod.fst) (hdev : scope.dev = recording.dev) :
    (Passes w scope calls → Scope.checkRecorded w scope recording = .ok ()) ∧
    (¬Passes w scope calls → ∃ e, Scope.checkRecorded w scope recording = .err e) := by
  -- each call is found again as the one it was noted of
  have hlocate : ∀ note ∈ notes, ∃ c ∈ calls, ∃ address node,
      NotedBy w scope c note ∧ w.boundNode scope c.1 = .ok (address, node) ∧
      Scope.locate w scope note.1 = .ok (node, c.2) := by
    intro note hm
    obtain ⟨c, hc, hnoted⟩ := hnotes.exists_of_mem_right hm
    obtain ⟨address, node, _, hb, -⟩ := id hnoted
    exact ⟨c, hc, address, node, hnoted, hb, hnoted.locate hw hlaid hs hfull hb⟩
  constructor
  · intro hpass
    refine checkRecorded_eq_ok.mpr ⟨hdev, hnone, fun call hm => ?_⟩
    rw [hcalls] at hm
    obtain ⟨note, hnote, rfl⟩ := List.mem_map.mp hm
    obtain ⟨c, hc, address, node, -, hb, hfound⟩ := hlocate note hnote
    obtain ⟨_, _, hb', hcheck⟩ := hpass c hc
    rw [hb] at hb'
    cases hb'
    exact ⟨node, c.2, hfound, hcheck⟩
  · intro hfails
    have hreturns : (Scope.checkRecorded w scope recording).returns = true := by
      rw [Scope.checkRecorded, Rules.sameDevice_eq_ok.mpr hdev, Outcome.ok_bind, hnone, hcalls]
      refine Outcome.returns_forM fun call hm => ?_
      obtain ⟨note, hnote, rfl⟩ := List.mem_map.mp hm
      obtain ⟨c, hc, address, node, hnoted, hb, hfound⟩ := hlocate note hnote
      rw [hfound]
      exact hnoted.check_returns hw hs
        (hagree node (AList.mem_values.mpr ⟨_, (boundNode_eq_ok.mp hb).2⟩))
    rcases Outcome.returns_iff.mp hreturns with hok | hfailed
    · refine absurd (fun c hc => ?_) hfails
      obtain ⟨-, -, hall⟩ := checkRecorded_eq_ok.mp hok
      obtain ⟨note, hm, hnoted⟩ := hnotes.exists_of_mem_left hc
      obtain ⟨address, node, _, hb, -⟩ := id hnoted
      obtain ⟨node', args, hfound, hcheck⟩ := hall note.1 (hcalls ▸ List.mem_map_of_mem hm)
      rw [hnoted.locate hw hlaid hs hfull hb] at hfound
      cases hfound
      exact ⟨address, node, hb, hcheck⟩
    · exact hfailed

/-- **A replay is the calls made again** if each of them passes its checks, and
otherwise an error and nothing else. -/
theorem replay_noted (hw : w.Valid) (hlaid : Laid w)
    (hagree : ∀ node ∈ w.nodes.values, node.Agrees) (halone : Alone w scope.dev)
    (hs : w.scopes.lookup s = some scope) (hnone : scope.recording = none)
    (hfull : ∀ p ∈ scope.bufs, ∀ t, w.tensors.lookup p = some t → 0 < Storage.sizeBytes t.raw)
    (hnotes : List.Forall₂ (NotedBy w scope) calls notes)
    (hr : w.recordings.lookup r = some recording)
    (hraw : recording.raw = ⟨notes.map Prod.snd, scope.dev⟩)
    (hcalls : recording.calls = notes.map Prod.fst) (hdev : scope.dev = recording.dev) :
    (Passes w scope calls → Scope.replay s r w = executes s calls w) ∧
    (¬Passes w scope calls → ∃ e, Scope.replay s r w = (.err e, w)) ∧
    (NativeReturns w scope calls →
      ((Scope.replay s r w).1 = .ok () ↔ Passes w scope calls)) := by
  obtain ⟨hpasses, hfails⟩ :=
    checkRecorded_noted hw hlaid hagree hs hnone hfull hnotes hcalls hdev
  have hrun : Capturable.replay (B := CpuBackend) (Scope.rawNode w) recording.raw
      (w.devices scope.dev).raw = CpuBackend.replayCalls (Scope.rawNode w) (notes.map Prod.snd)
        (w.devices scope.dev).raw := by
    rw [hraw]
    exact if_neg (not_not.mpr (hlaid.owners.device scope.dev).symm)
  have hfailed : ¬Passes w scope calls → ∃ e, Scope.replay s r w = (.err e, w) := by
    intro hnot
    obtain ⟨e, he⟩ := hfails hnot
    exact ⟨e, by rw [replay_run hs hr, he]⟩
  refine ⟨fun hpass => ?_, hfailed, fun hreturns => ⟨fun hok => ?_, fun hpass => ?_⟩⟩
  · have howner : ∀ i t, w.boundTensor scope i = .ok t →
        CpuBuffer.owner t.raw = (w.devices scope.dev).raw.owner := by
      intro i t ht
      obtain ⟨p, hp, hl⟩ := boundTensor_eq_ok.mp ht
      obtain ⟨t', hl', hd⟩ := hw.bufs s scope hs p (List.mem_of_getElem? hp)
      obtain rfl : t = t' := Option.some.inj (hl.symm.trans hl')
      rw [hlaid.owners.tensor t (AList.mem_values.mpr ⟨p, hl⟩), hlaid.owners.device, hd]
    rw [replay_run hs hr, hpasses hpass,
      executes_eq_replayCalls hs hnone (halone.idle hs rfl hnone) howner hnotes hpass,
      mapErr_run, onRawDevice_run]
    simp only [hrun]
  · by_contra hnot
    obtain ⟨e, he⟩ := hfailed hnot
    rw [he] at hok
    cases hok
  · have hcode : ∀ call ∈ notes.map Prod.snd, ∃ node,
        Scope.rawNode w call.node = some node ∧ Returns node call.slots := by
      intro call hm
      obtain ⟨note, hnote, rfl⟩ := List.mem_map.mp hm
      obtain ⟨c, hc, address, node, bindings, hb, hbindings, rfl⟩ :=
        hnotes.exists_of_mem_right hnote
      obtain ⟨_, _, hb', hcheck⟩ := hpass c hc
      rw [hb] at hb'
      cases hb'
      exact ⟨node.raw, by rw [Scope.rawNode, (boundNode_eq_ok.mp hb).2]; rfl,
        hreturns c hc address node bindings hb hcheck hbindings⟩
    rw [replay_run hs hr, hpasses hpass]
    simp only [hrun, replayCalls_ok hcode]
    rfl

end Replay

/-! ## Every capture -/

/-- A capture opens no scope. -/
theorem Captures.solo {r : Nat} {es : List (Event CpuBackend)} (h : Captures w s r es w')
    (d : Nat) : ∃ es', Transition.Runs (Solo d) w es' w' := by
  obtain ⟨w₁, w₂, hbegin, hruns, hend⟩ := h
  have hsolo : Transition.Runs (Solo d) w₁ es w₂ := hruns.mono fun _ e _ he => ⟨he.1, by
    obtain ⟨_, n, args, hact⟩ := he
    rw [hact]
    exact id⟩
  exact ⟨_, .cons ⟨hbegin, id⟩ (hsolo.append (.single ⟨hend, id⟩))⟩

instance (w : World CpuBackend) (scope : Scope) (calls : List (Nat × List Arg)) :
    Decidable (Passes w scope calls) :=
  decidable_of_iff (∀ c ∈ calls,
      (w.boundNode scope c.1 >>= fun x => Scope.check w scope x.2 c.2) = .ok ()) <| by
    refine forall₂_congr fun c _ => ?_
    rw [Outcome.bind_eq_ok, Prod.exists]

namespace Sample

open Backends.Sample

/-- Two tensors and a node, of which the first tensor and the node are bound in scope 0. -/
def bindOne : List (Act CpuBackend) := [
  .tensor (.alloc 0 env 0 .Int8 4), .tensor (.alloc 0 env 1 .Int8 4),
  .node (.build 0 100 fill [] (.linear 1)),
  .scope (.openOn 0 0), .scope (.bind 0 0), .scope (.bindNode 0 100)]

/-- New meta for the node, and a scope that binds the tensors in another order. -/
def bindOtherwise : List (Act CpuBackend) := [
  .scope (.close 0), .node (.updateMeta 100 []),
  .scope (.openOn 1 0), .scope (.bind 1 1), .scope (.bind 1 0), .scope (.bindNode 1 100)]

def bound : World CpuBackend := start.after bindOne

/-- After a capture of a run of the node. -/
def oneCaptured : World CpuBackend := bound.after
  [.run (.beginCapture 0), .run (.execute 0 0 [.Write 0]), .run (.endCapture 0 0 (.ok ()))]

def boundOtherwise : World CpuBackend := oneCaptured.after bindOtherwise

end Sample

open Capture.Sample

set_option maxRecDepth 4000

theorem Sample.captures : Captures bound 0 0
    [⟨.run (.execute 0 0 [.Write 0]), .ok .unit⟩] oneCaptured := by
  refine ⟨bound.after [.run (.beginCapture 0)],
    bound.after [.run (.beginCapture 0), .run (.execute 0 0 [.Write 0])],
    ⟨by decide, Prod.ext (by decide) rfl⟩,
    .single ⟨⟨by decide, Prod.ext (by decide) rfl⟩, 0, _, rfl⟩,
    ⟨by decide, Prod.ext (by decide) rfl⟩⟩

end Wilupgu.Capture
