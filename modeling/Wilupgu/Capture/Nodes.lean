import Wilupgu.Capture.Located
import Wilupgu.Capture.Notes
import Wilupgu.Capture.Recorded

/-! # Which node a replay runs

A recording knows its nodes by address only. A node that has moved away isn't
found, but another one put at its address is, and runs in its place. And only
the calls that the scope noted are looked for: one that strayed into the
device's capture runs whatever stands at its address. -/

namespace Wilupgu.Capture

open Backend Backends

variable {B : Type} [Storage B] [Dispatch B] [Capturable B] [Areable B] {w w' : World B}

/-! ## Which node is which -/

/-- Every node has a `uid` of its own, and none has the next one. -/
structure OwnUids (w : World B) : Prop where
  nodup : (w.nodes.values.map Node.uid).Nodup
  next : ∀ node ∈ w.nodes.values, node.uid < w.nextUid

theorem OwnUids.of_perm (h : OwnUids w)
    (hp : (w.nodes.values.map Node.uid).Perm (w'.nodes.values.map Node.uid))
    (hn : w'.nextUid = w.nextUid) : OwnUids w' where
  nodup := hp.nodup_iff.mp h.nodup
  next node hm := by
    obtain ⟨node', hm', he⟩ := List.mem_map.mp (hp.mem_iff.mpr (List.mem_map_of_mem hm))
    rw [← he, hn]
    exact h.next node' hm'

/-- Updating a node's meta. -/
theorem OwnUids.updateMeta (h : OwnUids w) {a : Nat} {node : Node B}
    (ha : w.nodes.lookup a = some node) (metaVals : List MetaValue) :
    OwnUids (World.updateMeta a metaVals w).2 := by
  rw [updateMeta_run ha]
  refine h.of_perm ?_ rfl
  rw [World.setNodes_nodes, AList.values_insert, List.map_cons, (nodeUpdateMeta_same _ _).2]
  exact (AList.values_erase ha).map Node.uid

theorem NodeAct.ownUids [Topology B] {a : NodeAct} (ha : a.Allowed w) (hw : w.Valid)
    (h : OwnUids w) : OwnUids (a.run w).2 := by
  cases a with
  | build d b shader vals wg =>
    rw [NodeAct.run, silent_world, buildNode_run]
    split
    · rename_i node dev hnode
      obtain ⟨_, _, -, -, -, rfl⟩ := deviceNode_ok hnode
      refine ⟨?_, fun node hm => ?_⟩
      · rw [World.setNodes_nodes, AList.values_insert_of_free ha, List.map_cons, List.nodup_cons]
        refine ⟨fun hm => ?_, h.nodup⟩
        obtain ⟨node', hm', he⟩ := List.mem_map.mp hm
        exact absurd he (Nat.ne_of_lt (h.next node' hm'))
      · rw [World.setNodes_nodes, AList.values_insert_of_free ha] at hm
        rcases List.mem_cons.mp hm with rfl | hm
        · exact Nat.lt_succ_self _
        · exact Nat.lt_succ_of_lt (h.next node hm)
    · exact h.of_perm (.refl _) rfl
    · exact h.of_perm (.refl _) rfl
  | dropNode b =>
    obtain ⟨node, hn⟩ := exists_of_mem ha.1
    rw [NodeAct.run, silent_world, dropNode_run hn]
    have hp := AList.values_erase hn
    refine ⟨?_, fun node' hm => h.next node' (hp.mem_iff.mpr (.tail _ hm))⟩
    exact (List.nodup_cons.mp ((hp.map Node.uid).nodup_iff.mp h.nodup)).2
  | moveNode b c =>
    obtain ⟨node, hn⟩ := exists_of_mem ha.1.1
    exact h.of_perm ((AList.values_move hn (.inr ha.2)).map Node.uid) rfl
  | replaceNode b c =>
    obtain ⟨node, hn⟩ := exists_of_mem ha.2.1.1
    obtain ⟨node', hn'⟩ := exists_of_mem ha.2.2.1
    rw [NodeAct.run, silent_world, replaceNode_run hn hn']
    split
    · exact h.of_perm ((AList.values_swap hn hn').map Node.uid) rfl
    · exact h
    · exact h
  | updateMeta b vals =>
    obtain ⟨node, hn⟩ := exists_of_mem ha.1
    rw [NodeAct.run, silent_world]
    exact h.updateMeta hn vals
  | scopeUpdateMeta s i vals =>
    obtain ⟨scope, hs, hi⟩ := ha
    obtain ⟨node, hn, -⟩ := hw.nodes s scope hs _ (List.getElem_mem hi)
    rw [NodeAct.run, silent_world,
      scopeUpdateMeta_run hs (boundNode_eq_ok.mpr ⟨List.getElem?_eq_getElem hi, hn⟩)]
    exact h.updateMeta hn vals

/-- **No two nodes are ever taken for one:** a `uid` tells which node it is. -/
theorem ownUids [Topology B] {raws : Nat → B} {poolBytes : Nat → Nat}
    (h : World.Reachable raws poolBytes w) : OwnUids w := by
  refine (Transition.Reachable.invariant (I := fun w : World B => w.Valid ∧ OwnUids w) h
    ⟨.init raws poolBytes, .nil, nofun⟩ ?_).2
  rintro w e w' ⟨hw, hu⟩ hstep
  refine ⟨hw.step hstep, ?_⟩
  obtain ⟨ha, hr⟩ := hstep
  rcases e with ⟨a, out⟩
  obtain rfl : (a.perform w).2 = w' := congrArg Prod.snd hr
  have kept : (a.perform w).2.nodes = w.nodes → (a.perform w).2.nextUid = w.nextUid →
      OwnUids (a.perform w).2 := fun hn hx => hu.of_perm (hn ▸ .refl _) hx
  cases a with
  | tensor a =>
    have hf := (TensorAct.keeps frame_any tensors_any a w).1
    exact kept hf.nodes hf.nextUid
  | memory a =>
    have hf := (MemoryAct.keeps frame_any memory_any a w).1
    exact kept hf.nodes hf.nextUid
  | node a => exact NodeAct.ownUids ha hw hu
  | scope a =>
    have hf := (ScopeAct.keeps frame_any memory_any.synchronize a w).1
    exact kept hf.nodes hf.nextUid
  | run a =>
    have hf := (RunAct.keeps frame_any runs_any a w).1
    exact kept hf.nodes hf.nextUid

/-! ## The condition -/

/-- The node that a call on nodes puts at an address, by its `uid`. -/
def puts (w : World B) : NodeAct → Nat → Option Nat
  | .build _ a _ _ _, address => if address = a then some w.nextUid else none
  | .moveNode a b, address => if address = b then (w.nodes.lookup a).map Node.uid else none
  | .replaceNode a b, address =>
    if address = b then (w.nodes.lookup a).map Node.uid
    else if address = a then (w.nodes.lookup b).map Node.uid
    else none
  | _, _ => none

/-- A call that puts a node where a living recording has recorded another. -/
def Displaces [Topology B] (w : World B) : Act B → Prop
  | .node a => (a.run w).1.isOk = true ∧
      ∃ recording ∈ w.recordings.values, ∃ call ∈ recording.calls,
        ∃ uid ∈ puts w a call.node, uid ≠ call.uid
  | _ => False

instance [Topology B] (w : World B) : (a : Act B) → Decidable (Displaces w a)
  | .node a => by unfold Displaces; infer_instance
  | .tensor _ | .memory _ | .scope _ | .run _ => isFalse not_false

/-- The steps of programs that put no node in a recorded one's place. -/
abbrev Undisplaced [Topology B] : World B → Event B → World B → Prop :=
  Transition.Where World.Step fun w e => ¬Displaces w e.act

/-- After a call on nodes, what stands at an address stood there before, or
was put there. -/
theorem NodeAct.lookup_after [Topology B] {a : NodeAct} (ha : a.Allowed w) (hw : w.Valid) {b : Nat}
    {node' : Node B} (h : (a.run w).2.nodes.lookup b = some node') :
    (∃ node, w.nodes.lookup b = some node ∧ node.uid = node'.uid) ∨
      ((a.run w).1.isOk = true ∧ puts w a b = some node'.uid) := by
  have kept : w.nodes.lookup b = some node' →
      (∃ node, w.nodes.lookup b = some node ∧ node.uid = node'.uid) ∨
        ((a.run w).1.isOk = true ∧ puts w a b = some node'.uid) := fun h => .inl ⟨node', h, rfl⟩
  have updated : ∀ {c node} (vals : List MetaValue), w.nodes.lookup c = some node →
      (World.updateMeta c vals w).2.nodes.lookup b = some node' →
      ∃ node, w.nodes.lookup b = some node ∧ node.uid = node'.uid := by
    intro c node vals hc h
    rw [updateMeta_run hc, World.setNodes_nodes, AList.lookup_insert_eq] at h
    split at h
    · subst c
      cases h
      exact ⟨node, hc, (nodeUpdateMeta_same vals (w.devices node.dev, node)).2.symm⟩
    · exact ⟨node', h, rfl⟩
  cases a with
  | build d c shader vals wg =>
    rw [NodeAct.run, silent_world, buildNode_run] at h
    split at h
    · rename_i node dev hnode
      rw [World.setNodes_nodes, AList.lookup_insert_eq] at h
      split at h
      · subst b
        cases h
        obtain ⟨_, _, -, -, -, rfl⟩ := deviceNode_ok hnode
        refine .inr ⟨?_, if_pos rfl⟩
        rw [NodeAct.run, silent, Call.bind_of_ok (a := ())
          (by rw [buildNode_run, hnode])]
        rfl
      · exact kept h
    · exact kept h
    · exact kept h
  | dropNode c =>
    obtain ⟨node, hn⟩ := exists_of_mem ha.1
    rw [NodeAct.run, silent_world, dropNode_run hn] at h
    simp only [World.setDevice_nodes, World.setNodes_nodes, AList.lookup_erase_eq] at h
    split at h
    · cases h
    · exact kept h
  | moveNode c c' =>
    obtain ⟨node, hn⟩ := exists_of_mem ha.1.1
    change (w.nodes.move c c').lookup b = some node' at h
    rw [AList.lookup_move hn] at h
    split at h
    · subst b
      cases h
      exact .inr ⟨rfl, by rw [puts, if_pos rfl, hn]; rfl⟩
    · split at h
      · cases h
      · exact kept h
  | replaceNode c c' =>
    obtain ⟨node, hn⟩ := exists_of_mem ha.2.1.1
    obtain ⟨node₂, hn₂⟩ := exists_of_mem ha.2.2.1
    rw [NodeAct.run, silent_world, replaceNode_run hn hn₂] at h
    split at h
    · rename_i hfits
      have hok : ((NodeAct.replaceNode c c').run w).1.isOk = true := by
        rw [NodeAct.run, silent, Call.bind_of_ok (a := ())
          (by rw [replaceNode_run hn hn₂, hfits])]
        rfl
      rw [World.setNodes_nodes, AList.lookup_swap hn hn₂] at h
      split at h
      · subst b
        cases h
        exact .inr ⟨hok, by rw [puts, if_pos rfl, hn]; rfl⟩
      · rename_i hc'
        split at h
        · subst b
          cases h
          exact .inr ⟨hok, by rw [puts, if_neg hc', if_pos rfl, hn₂]; rfl⟩
        · exact kept h
    · exact kept h
    · exact kept h
  | updateMeta c vals =>
    obtain ⟨node, hn⟩ := exists_of_mem ha.1
    rw [NodeAct.run, silent_world] at h
    exact .inl (updated vals hn h)
  | scopeUpdateMeta s i vals =>
    obtain ⟨scope, hs, hi⟩ := ha
    obtain ⟨node, hn, -⟩ := hw.nodes s scope hs _ (List.getElem_mem hi)
    rw [NodeAct.run, silent_world,
      scopeUpdateMeta_run hs (boundNode_eq_ok.mpr ⟨List.getElem?_eq_getElem hi, hn⟩)] at h
    exact .inl (updated vals hn h)

/-! ## The invariant -/

/-- No other node stands where one was recorded, and where a scope notes its
calls, the nodes are bound and there. -/
structure NodesKept (w : World B) : Prop where
  recordings : ∀ r recording, w.recordings.lookup r = some recording →
    ∀ call ∈ recording.calls, ∀ node, w.nodes.lookup call.node = some node → node.uid = call.uid
  scopes : ∀ s scope calls, w.scopes.lookup s = some scope → scope.recording = some calls →
    ∀ call ∈ calls, call.node ∈ scope.nodes ∧
      ∃ node, w.nodes.lookup call.node = some node ∧ node.uid = call.uid

theorem NodesKept.init (raws : Nat → B) (poolBytes : Nat → Nat) :
    NodesKept (World.init raws poolBytes) where
  recordings _ _ h := by cases h
  scopes _ _ _ h := by cases h

/-- After a step, what stands at an address stood there before, or the step
put it there; what is bound stays. -/
theorem nodes_step [Topology B] {e : Event B} (hw : w.Valid) (h : w.Step e w') {b : Nat} :
    (∀ node', w'.nodes.lookup b = some node' →
      (∃ node, w.nodes.lookup b = some node ∧ node.uid = node'.uid) ∨
        ∃ a, e.act = .node a ∧ (a.run w).1.isOk = true ∧ puts w a b = some node'.uid) ∧
    ∀ node, w.NodeBound b → w.nodes.lookup b = some node →
      ∃ node', w'.nodes.lookup b = some node' ∧ node'.uid = node.uid := by
  obtain ⟨ha, hr⟩ := h
  rcases e with ⟨a, out⟩
  obtain rfl : (a.perform w).2 = w' := congrArg Prod.snd hr
  have kept : (a.perform w).2.nodes = w.nodes →
      (∀ node', (a.perform w).2.nodes.lookup b = some node' →
        (∃ node, w.nodes.lookup b = some node ∧ node.uid = node'.uid) ∨
          ∃ a', a = .node a' ∧ (a'.run w).1.isOk = true ∧ puts w a' b = some node'.uid) ∧
      ∀ node, w.NodeBound b → w.nodes.lookup b = some node →
        ∃ node', (a.perform w).2.nodes.lookup b = some node' ∧ node'.uid = node.uid := by
    intro hn
    rw [hn]
    exact ⟨fun node' h => .inl ⟨node', h, rfl⟩, fun node _ h => ⟨node, h, rfl⟩⟩
  cases a with
  | tensor a => exact kept (TensorAct.keeps frame_any tensors_any a w).1.nodes
  | memory a => exact kept (MemoryAct.keeps frame_any memory_any a w).1.nodes
  | scope a => exact kept (ScopeAct.keeps frame_any memory_any.synchronize a w).1.nodes
  | run a => exact kept (RunAct.keeps frame_any runs_any a w).1.nodes
  | node a =>
    refine ⟨fun node' h => ?_, fun node hb h => ?_⟩
    · exact (NodeAct.lookup_after ha hw h).imp_right fun hp => ⟨a, rfl, hp⟩
    · obtain ⟨node', h', -, hu⟩ := NodeAct.lookup_bound ha hw hb h
      exact ⟨node', h', hu⟩

/-- **A step that displaces nothing keeps the nodes of the notes.** -/
theorem NodesKept.step [Topology B] {e : Event B} (h : NodesKept w) (hw : w.Valid)
    (hs : Undisplaced w e w') : NodesKept w' where
  recordings r recording hr call hm node hn := by
    obtain ⟨hstep, ht⟩ := hs
    rcases recorded_step hw hstep hr with hr' | ⟨s, scope, ha, hscope, -, hcalls, -⟩
    · rcases (nodes_step hw hstep).1 node hn with ⟨node', hn', hu⟩ | ⟨a, ha, hok, hput⟩
      · exact hu ▸ h.recordings r recording hr' call hm node' hn'
      · by_contra hne
        rw [ha] at ht
        exact ht ⟨hok, recording, AList.mem_values.mpr ⟨r, hr'⟩, call, hm, node.uid, hput, hne⟩
    · -- the recording was just made, of a scope whose nodes are there
      obtain ⟨-, node', hn', hu⟩ := h.scopes s scope _ hscope hcalls call hm
      rcases (nodes_step hw hstep).1 node hn with ⟨node'', hn'', hu'⟩ | ⟨a, ha', -⟩
      · obtain rfl : node' = node'' := Option.some.inj (hn'.symm.trans hn'')
        exact hu'.symm.trans hu
      · rw [ha] at ha'
        cases ha'
  scopes s scope' calls' hs' hc' call hm := by
    obtain ⟨hstep, -⟩ := hs
    obtain ⟨scope, hscope, hext, hnoted⟩ := noted_step hw hstep hs' hc'
    have hbound : call.node ∈ scope.nodes ∧
        ∃ node, w.nodes.lookup call.node = some node ∧ node.uid = call.uid := by
      rcases hnoted with rfl | hcalls | ⟨calls, n, args, new, hcalls, rfl, -, hnew⟩
      · cases hm
      · exact h.scopes s scope calls' hscope hcalls call hm
      · rcases List.mem_append.mp hm with hm | hm
        · exact h.scopes s scope calls hscope hcalls call hm
        · obtain rfl := List.mem_singleton.mp hm
          obtain ⟨node, _, hb, -, -, -, hu⟩ := hnew
          obtain ⟨hn, hl⟩ := boundNode_eq_ok.mp hb
          exact ⟨List.mem_of_getElem? hn, node, hl, hu.symm⟩
    obtain ⟨hmem, node, hn, hu⟩ := hbound
    obtain ⟨node', hn', hu'⟩ := (nodes_step hw hstep).2 node
      ⟨scope, AList.mem_values.mpr ⟨s, hscope⟩, hmem⟩ hn
    exact ⟨hext.nodes.subset hmem, node', hn', hu'.trans hu⟩

theorem NodesKept.run [Topology B] {es : List (Event B)} (h : NodesKept w) (hw : w.Valid)
    (hr : Transition.Runs Undisplaced w es w') : NodesKept w' :=
  (hr.preserves (I := fun w => w.Valid ∧ NodesKept w)
    (fun _ _ _ h hs => ⟨h.1.step hs.1, h.2.step h.1 hs⟩) ⟨hw, h⟩).2

/-! ## A replay -/

/-- The node of a recorded call is the one that was recorded, still at its
address and bound in the scope. -/
def StillBound (w : World B) (scope : Scope) (call : RecordedCall) : Prop :=
  call.node ∈ scope.nodes ∧ ∃ node, w.nodes.lookup call.node = some node ∧ node.uid = call.uid

/-- What a replay looks for it finds, in every run that puts no node in a
recorded one's place. -/
theorem replay_finds_recorded [Topology B] {raws : Nat → B} {poolBytes : Nat → Nat}
    {es : List (Event B)} (h : Transition.Runs Undisplaced (World.init raws poolBytes) es w)
    {s r : Nat} (hr : w.Step ⟨.run (.replay s r), .ok .unit⟩ w') :
    ∃ scope recording, w.scopes.lookup s = some scope ∧ w.recordings.lookup r = some recording ∧
      scope.dev = recording.dev ∧ ∀ call ∈ recording.calls, StillBound w scope call := by
  have hw : w.Valid := (World.Valid.init raws poolBytes).run h.of_where
  have hkept := (NodesKept.init raws poolBytes).run (.init raws poolBytes) h
  obtain ⟨⟨hs, hrec⟩, hrun⟩ := hr
  obtain ⟨scope, hscope⟩ := exists_of_mem hs
  obtain ⟨recording, hrecording⟩ := exists_of_mem hrec
  have hok := checked_of_replay hscope hrecording ((silent_eq hrun).2.mp rfl)
  obtain ⟨hdev, -, hcalls⟩ := checkRecorded_eq_ok.mp hok
  refine ⟨scope, recording, hscope, hrecording, hdev, fun call hm => ?_⟩
  obtain ⟨node, args, hlocate, -⟩ := hcalls call hm
  obtain ⟨hbound, hn, -⟩ := locate_eq_ok.mp hlocate
  exact ⟨hbound, node, hn, hkept.recordings r recording hrecording call hm node hn⟩

/-- The steps of programs that put no node in a recorded one's place, and none
of whose `execute`s on device `d` strays. -/
abbrev Intact (d : Nat) : World CpuBackend → Event CpuBackend → World CpuBackend → Prop :=
  Transition.Where World.Step fun w e => ¬Strays d w e.act ∧ ¬Displaces w e.act

/-- **A replay runs the nodes that were recorded,** still where they were and
bound in its scope: those it looks for, on any backend, in every run that puts
no node in a recorded one's place, and on the CPU all that the backend runs, if
no `execute` strayed either. -/
theorem undisplaced_replay_runs_recorded {poolBytes : Nat → Nat} {s r : Nat} :
    (∀ {B : Type} [Storage B] [Dispatch B] [Capturable B] [Areable B] [Topology B]
      {raws : Nat → B} {es : List (Event B)} {w w' : World B},
      Transition.Runs Undisplaced (World.init raws poolBytes) es w →
      w.Step ⟨.run (.replay s r), .ok .unit⟩ w' →
      ∃ scope recording, w.scopes.lookup s = some scope ∧ w.recordings.lookup r = some recording ∧
        ∀ call ∈ recording.calls, StillBound w scope call) ∧
    ∀ {es : List (Event CpuBackend)} {w w' : World CpuBackend} {scope : Scope},
      Transition.Runs (Intact scope.dev) (World.init CpuBackend.attach poolBytes) es w →
      w.scopes.lookup s = some scope → w.Step ⟨.run (.replay s r), .ok .unit⟩ w' →
      ∃ recording, w.recordings.lookup r = some recording ∧
        List.Forall₂ (fun call raw => StillBound w scope call ∧ CallAgrees call raw)
          recording.calls recording.raw.calls := by
  refine ⟨fun h hr => ?_, fun {_ _ _ scope} h hs hr => ?_⟩
  · obtain ⟨scope, recording, hs, hrecording, -, hcalls⟩ := replay_finds_recorded h hr
    exact ⟨scope, recording, hs, hrecording, hcalls⟩
  · obtain ⟨scope', recording, hs', hrecording, hdev, hcalls⟩ :=
      replay_finds_recorded (h.mono fun _ _ _ hstep => ⟨hstep.1, hstep.2.2⟩) hr
    obtain rfl : scope' = scope := Option.some.inj (hs'.symm.trans hs)
    have htidy : Transition.Runs (Tidy scope'.dev) _ _ _ :=
      h.mono fun _ _ _ hstep => ⟨hstep.1, hstep.2.1⟩
    have hagree := ((Recorded.init poolBytes scope'.dev).run (.init _ _) htidy).recordings
      _ recording hrecording hdev.symm
    exact ⟨recording, hrecording, (List.forall₂_and_left _ _).mpr ⟨hcalls, hagree⟩⟩

/-! ## Two nodes on one device -/

namespace Sample

open Backends.Sample

/-- Two nodes, the first of which is recorded, and scope 0 closed. -/
def recordedOne : List (Act CpuBackend) := [
  .tensor (.alloc 0 env 0 .Int8 4),
  .node (.build 0 100 fill [] (.linear 1)), .node (.build 0 101 fill [] (.linear 1)),
  .scope (.openOn 0 0), .scope (.bind 0 0), .scope (.bindNode 0 100),
  .run (.beginCapture 0), .run (.execute 0 0 [.Write 0]), .run (.endCapture 0 0 (.ok ())),
  .scope (.close 0)]

/-- Scope 1 binds the tensor and what stands at the first node's address. -/
def boundAgain : List (Act CpuBackend) :=
  [.scope (.openOn 1 0), .scope (.bind 1 0), .scope (.bindNode 1 100)]

/-- The replay in scope 1. -/
def replayed : Event CpuBackend := ⟨.run (.replay 1 0), .ok .unit⟩

end Sample

open Capture.Sample

/-- Decided on a played run: the replay returns, and then something holds of
the recording's first call and the node at its address. -/
theorem Sample.replayed_of_play (ok : World CpuBackend → Act CpuBackend → Prop)
    [∀ w a, Decidable (ok w a)] (as : List (Act CpuBackend))
    (P : RecordedCall → Node CpuBackend → Bool)
    (h : ((start.play ok as).any fun (_, w) =>
      decide (replayed.act.Allowed w ∧ (replayed.act.perform w).1 = replayed.out) &&
      ((w.scopes.lookup 1).any fun scope => scope.dev = 0) &&
      (w.recordings.lookup 0).any fun recording => recording.calls.any fun call =>
        (w.nodes.lookup call.node).any (P call)) = true) :
    ∃ es w w' scope recording call node,
      Transition.Runs (Transition.Where World.Step fun w e => ok w e.act) start es w ∧
      w.Step replayed w' ∧ w.scopes.lookup 1 = some scope ∧ scope.dev = 0 ∧
      w.recordings.lookup 0 = some recording ∧ call ∈ recording.calls ∧
      w.nodes.lookup call.node = some node ∧ P call node = true := by
  obtain ⟨⟨es, w⟩, hplay, hall⟩ := Option.any_eq_true _ _ |>.mp h
  simp only [Bool.and_eq_true, Option.any_eq_true, List.any_eq_true, decide_eq_true_eq] at hall
  obtain ⟨⟨⟨hallowed, hout⟩, scope, hs, hd⟩, recording, hr, call, hm, node, hn, hP⟩ := hall
  exact ⟨es, w, _, scope, recording, call, node, World.runs_of_play hplay,
    ⟨hallowed, Prod.ext hout rfl⟩, hs, hd, hr, hm, hn, hP⟩

set_option maxRecDepth 8000

/-- The second node is put at the first one's address, and the replay runs it. -/
theorem displaced_replay_runs_another : ∃ es w w' recording call node,
    start.Runs es w ∧ w.Step replayed w' ∧ w.recordings.lookup 0 = some recording ∧
    call ∈ recording.calls ∧ w.nodes.lookup call.node = some node ∧ node.uid ≠ call.uid := by
  obtain ⟨es, w, w', -, recording, call, node, hruns, hstep, -, -, hr, hm, hn, hu⟩ :=
    replayed_of_play (fun _ _ => True)
      (recordedOne ++ [.node (.replaceNode 100 101)] ++ boundAgain)
      (fun call node => decide (node.uid ≠ call.uid)) (by decide)
  exact ⟨es, w, w', recording, call, node, hruns.of_where, hstep, hr, hm, hn, of_decide_eq_true hu⟩

/-- Nothing is put there, and the replay runs the recorded node. -/
theorem undisplaced_replay_runs_recorded_once : ∃ es w w' scope recording,
    Transition.Runs (Intact 0) start es w ∧ w.Step replayed w' ∧
    w.scopes.lookup 1 = some scope ∧ w.recordings.lookup 0 = some recording ∧
    (∃ call, call ∈ recording.calls ∧ StillBound w scope call) ∧
    List.Forall₂ (fun call raw => StillBound w scope call ∧ CallAgrees call raw)
      recording.calls recording.raw.calls := by
  obtain ⟨es, w, w', scope, recording, call, -, hruns, hstep, hs, hd, hr, hm, -⟩ :=
    replayed_of_play (fun w a => ¬Strays 0 w a ∧ ¬Displaces w a) (recordedOne ++ boundAgain)
      (fun _ _ => true) (by decide)
  obtain ⟨finds, runs⟩ := undisplaced_replay_runs_recorded
  obtain ⟨scope', recording', hs', hr', hfound⟩ :=
    finds (hruns.mono fun _ _ _ h => ⟨h.1, h.2.2⟩) hstep
  obtain ⟨recording'', hr'', hall⟩ := runs (hd.symm ▸ hruns) hs hstep
  obtain rfl : scope' = scope := Option.some.inj (hs'.symm.trans hs)
  obtain rfl : recording' = recording := Option.some.inj (hr'.symm.trans hr)
  obtain rfl : recording'' = recording' := Option.some.inj (hr''.symm.trans hr)
  exact ⟨es, w, w', scope', recording'', hruns, hstep, hs, hr, ⟨call, hm, hfound call hm⟩, hall⟩

end Wilupgu.Capture
