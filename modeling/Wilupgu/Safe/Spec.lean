import Wilupgu.Safe.Step

/-! # What each call computes

One equation for each call on the world, for a world in which the places it
names are there. The proofs about runs cite these and unfold no call. -/

namespace Wilupgu

open Backend Call

variable {B : Type} [Storage B] [Dispatch B] [Capturable B] [Areable B] {ε α : Type}
  {w w' : World B} {out : Outcome Error Reply}

theorem onDevice_run (d : Nat) (c : Call (ComputeDevice B) ε α) (w : World B) :
    World.onDevice d c w = ((c (w.devices d)).1, w.setDevice d (c (w.devices d)).2) := rfl

omit [Dispatch B] [Capturable B] [Areable B] in
theorem onRaw_run (c : Call B ε α) (dev : ComputeDevice B) :
    onRaw c dev = ((c dev.raw).1, { dev with raw := (c dev.raw).2 }) := rfl

theorem onRawDevice_run (d : Nat) (c : Call B ε α) (w : World B) :
    World.onRawDevice d c w = ((c (w.devices d).raw).1,
      w.setDevice d { w.devices d with raw := (c (w.devices d).raw).2 }) := rfl

omit [Dispatch B] [Capturable B] [Areable B] in
theorem onRaw_eq_ok {c : Call B ε α} {dev dev' : ComputeDevice B} {a : α} :
    onRaw c dev = (.ok a, dev') ↔ c dev.raw = (.ok a, dev'.raw) ∧ dev'.pool = dev.pool := by
  rw [onRaw_run]
  rcases dev' with ⟨pool, raw⟩
  rcases c dev.raw with ⟨out, raw'⟩
  simp only [Prod.mk.injEq, ComputeDevice.mk.injEq]
  tauto

theorem setDevice_self (w : World B) (d : Nat) : w.setDevice d (w.devices d) = w := by
  simp [World.setDevice]

theorem setDevice_setDevice (w : World B) (d : Nat) (dev dev' : ComputeDevice B) :
    (w.setDevice d dev).setDevice d dev' = w.setDevice d dev' := by
  simp [World.setDevice]

/-- How a silent call ended, and where. -/
theorem silent_eq {c : Call (World B) Error Unit} (h : silent c w = (out, w')) :
    (c w).2 = w' ∧ (out = .ok .unit ↔ (c w).1 = .ok ()) := by
  unfold silent at h
  rw [bind_run] at h
  rcases hc : c w with ⟨_ | e | _, t⟩ <;> rw [hc] at h <;> cases h <;> simp

theorem giving_eq {c : Call (World B) Error HostData} (h : giving c w = (out, w')) :
    (c w).2 = w' ∧ ∀ data, out = .ok (.data data) ↔ (c w).1 = .ok data := by
  unfold giving at h
  rw [bind_run] at h
  rcases hc : c w with ⟨data | e | _, t⟩ <;> rw [hc] at h <;> cases h <;> simp

theorem giving!_eq {c : Call (World B) Error Nat} (h : giving! c w = (out, w')) :
    (c w).2 = w' ∧ ∀ i, out = .ok (.slot i) ↔ (c w).1 = .ok i := by
  unfold giving! at h
  rw [bind_run] at h
  rcases hc : c w with ⟨i | e | _, t⟩ <;> rw [hc] at h <;> cases h <;> simp

theorem silent_world (c : Call (World B) Error Unit) (w : World B) :
    (silent c w).2 = (c w).2 := (silent_eq rfl).1.symm

theorem giving_world (c : Call (World B) Error HostData) (w : World B) :
    (giving c w).2 = (c w).2 := (giving_eq rfl).1.symm

theorem giving!_world (c : Call (World B) Error Nat) (w : World B) :
    (giving! c w).2 = (c w).2 := (giving!_eq rfl).1.symm

/-! ## References that are there -/

theorem tensor_of_lookup {p : Nat} {t : Tensor B} (h : w.tensors.lookup p = some t) :
    w.tensor p = .ok t := by rw [World.tensor, h]; rfl

theorem node_of_lookup {a : Nat} {node : Node B} (h : w.nodes.lookup a = some node) :
    w.node a = .ok node := by rw [World.node, h]; rfl

theorem area_of_lookup {a : Nat} {area : DeviceArea B} (h : w.areas.lookup a = some area) :
    w.area a = .ok area := by rw [World.area, h]; rfl

theorem scope_of_lookup {s : Nat} {scope : Scope} (h : w.scopes.lookup s = some scope) :
    w.scope s = .ok scope := by rw [World.scope, h]; rfl

theorem recording_of_lookup {r : Nat} {recording : Recording B}
    (h : w.recordings.lookup r = some recording) : w.recording r = .ok recording := by
  rw [World.recording, h]; rfl

theorem boundTensor_eq_ok {scope : Scope} {i : Nat} {t : Tensor B} :
    w.boundTensor scope i = .ok t ↔
      ∃ p, scope.bufs[i]? = some p ∧ w.tensors.lookup p = some t := by
  simp only [World.boundTensor, Outcome.bind_eq_ok, Outcome.expect_eq_ok, World.tensor]

theorem boundNode_eq_ok {scope : Scope} {i a : Nat} {node : Node B} :
    w.boundNode scope i = .ok (a, node) ↔
      scope.nodes[i]? = some a ∧ w.nodes.lookup a = some node := by
  simp only [World.boundNode, Outcome.bind_eq_ok, Outcome.expect_eq_ok, World.node,
    Outcome.pure_def, Outcome.ok.injEq, Prod.mk.injEq]
  constructor
  · rintro ⟨a', h, node', h', rfl, rfl⟩
    exact ⟨h, h'⟩
  · rintro ⟨h, h'⟩
    exact ⟨a, h, node, h', rfl, rfl⟩

theorem exists_of_mem {β : Type} {s : Places β} {k : Nat} (h : k ∈ s) :
    ∃ b, s.lookup k = some b := Option.isSome_iff_exists.mp (AList.lookup_isSome.mpr h)

/-! ## Tensors and areas -/

section Tensors

variable [Topology B]

omit [Dispatch B] [Capturable B] [Areable B] in
/-- The tensor `alloc` makes, and where its buffer comes from. -/
theorem deviceAlloc_ok {id : Nat} {env : Storage.Env B} {kind : DataKind} {len : Nat}
    {dev dev' : ComputeDevice B} {t : Tensor B}
    (h : ComputeDevice.alloc id env kind len dev = (.ok t, dev')) :
    ∃ buf, t = ⟨.Alloc buf, kind, wholeWords kind len, id⟩ ∧
      ComputeDevice.allocBuffer env kind (wholeWords kind len) dev = (.ok buf, dev') := by
  rw [ComputeDevice.alloc, bind_of_ok (get_run dev), check_eq_ok] at h
  obtain ⟨_, -, h⟩ := h
  obtain ⟨buf, dev₁, hb, ht⟩ := bind_eq_ok.mp h
  cases ht
  exact ⟨buf, rfl, hb⟩

omit [Dispatch B] [Capturable B] in
/-- The tensor `DeviceArea::alloc` makes, and how its buffer is cut out. -/
theorem areaAlloc_ok {key : Nat} {area area' : DeviceArea B} {kind : DataKind} {len : Nat}
    {dev dev' : ComputeDevice B} {t : Tensor B}
    (h : area.alloc key kind len dev = (.ok (t, area'), dev')) :
    ∃ buf raw', t = ⟨.Carved key buf, kind, wholeWords kind len, area.dev⟩ ∧
      area' = ⟨raw', area.dev⟩ ∧ dev'.pool = dev.pool ∧
      Areable.carve area.raw (bufferBytes kind (wholeWords kind len)) dev.raw =
        (.ok (buf, raw'), dev'.raw) := by
  rw [DeviceArea.alloc, bind_of_ok (get_run dev), check_eq_ok] at h
  obtain ⟨_, -, h⟩ := h
  obtain ⟨⟨buf, raw'⟩, dev₁, hb, ht⟩ := bind_eq_ok.mp h
  cases ht
  rw [mapErr_eq_ok, onRaw_eq_ok] at hb
  exact ⟨buf, raw', rfl, rfl, hb.2, hb.1⟩

omit [Dispatch B] [Capturable B] in
/-- What `DeviceArea::alloc` makes of a `carve`, on a device that takes the kind. -/
theorem areaAlloc_run {kind : DataKind} {dev : ComputeDevice B}
    (hs : Rules.supportedKind dev.raw kind = .ok ()) (key : Nat) (area : DeviceArea B) (len : Nat) :
    area.alloc key kind len dev =
      match Areable.carve area.raw (bufferBytes kind (wholeWords kind len)) dev.raw with
      | (.ok (buf, raw), raw') =>
        (.ok (⟨.Carved key buf, kind, wholeWords kind len, area.dev⟩, { area with raw }),
          { dev with raw := raw' })
      | (.err e, raw') => (.err (.Backend e), { dev with raw := raw' })
      | (.panic, raw') => (.panic, { dev with raw := raw' }) := by
  rw [DeviceArea.alloc, bind_of_ok (get_run dev), hs, check_run]
  simp only
  rw [Call.bind_run, mapErr_run, onRaw_run]
  rcases Areable.carve area.raw (bufferBytes kind (wholeWords kind len)) dev.raw with
    ⟨⟨_, _⟩ | _ | _, raw'⟩ <;> rfl

theorem alloc_run (d : Nat) (env : Storage.Env B) (p : Nat) (kind : DataKind) (len : Nat)
    (w : World B) : World.alloc d env p kind len w =
      match ComputeDevice.alloc d env kind len (w.devices d) with
      | (.ok t, dev) => (.ok (), (w.setDevice d dev).setTensors (w.tensors.insert p t))
      | (.err e, dev) => (.err e, w.setDevice d dev)
      | (.panic, dev) => (.panic, w.setDevice d dev) := by
  rw [World.alloc, bind_run, onDevice_run]
  rcases ComputeDevice.alloc d env kind len (w.devices d) with ⟨_ | _ | _, dev⟩ <;> rfl

theorem carve_run {a : Nat} {area : DeviceArea B} (h : w.areas.lookup a = some area) (p : Nat)
    (kind : DataKind) (len : Nat) : World.carve a p kind len w =
      match area.alloc a kind len (w.devices area.dev) with
      | (.ok (t, area'), dev) =>
        (.ok (), ((w.setDevice area.dev dev).setTensors (w.tensors.insert p t)).setAreas
          (w.areas.insert a area'))
      | (.err e, dev) => (.err e, w.setDevice area.dev dev)
      | (.panic, dev) => (.panic, w.setDevice area.dev dev) := by
  rw [World.carve, bind_of_ok (get_run w), area_of_lookup h, check_run]
  simp only
  rw [bind_run, onDevice_run]
  rcases area.alloc a kind len (w.devices area.dev) with ⟨⟨_, _⟩ | _ | _, dev⟩ <;> rfl

omit [Topology B] in
theorem reserve_run (d : Nat) (env : Storage.Env B) (a bytes : Nat) (w : World B) :
    World.reserve d env a bytes w =
      (.ok (),
        (w.setDevice d { w.devices d with raw := (Areable.reserve env bytes (w.devices d).raw).2 }
          ).setAreas (w.areas.insert a ⟨(Areable.reserve env bytes (w.devices d).raw).1, d⟩)) := rfl

omit [Topology B] in
theorem dropArea_run {a : Nat} {area : DeviceArea B} (h : w.areas.lookup a = some area) :
    World.dropArea a w =
      (.ok (), (w.setAreas (w.areas.erase a)).setDevice area.dev
        { w.devices area.dev with
          raw := Areable.release area.raw (w.devices area.dev).raw }) := by
  rw [World.dropArea, bind_of_ok (get_run w), area_of_lookup h, check_run]
  rfl

omit [Topology B] in
theorem dropTensor_run {p : Nat} {t : Tensor B} (h : w.tensors.lookup p = some t) :
    World.dropTensor p w =
      (.ok (), (w.setTensors (w.tensors.erase p)).setDevice t.dev (t.drop (w.devices t.dev)).2) := by
  rw [World.dropTensor, bind_of_ok (get_run w), tensor_of_lookup h, check_run]
  rfl

omit [Dispatch B] [Capturable B] [Areable B] [Topology B] in
/-- Dropping a tensor: the pool keeps its buffer, or the buffer is dropped; a
carved one's is dropped. -/
theorem tensorDrop_cases (t : Tensor B) (dev : ComputeDevice B) :
    (∃ buf pool, t.mem = .Alloc buf ∧ pool.blocks = ((t.kind, t.len), buf) :: dev.pool.blocks ∧
      (t.drop dev).2 = { dev with pool }) ∨
    (∃ buf, t.mem = .Alloc buf ∧
      (t.drop dev).2 = { dev with raw := Storage.dropBuffer buf dev.raw }) ∨
    ∃ a buf, t.mem = .Carved a buf ∧
      (t.drop dev).2 = { dev with raw := Storage.dropBuffer buf dev.raw } := by
  rw [Tensor.drop, modify_run]
  rcases hm : t.mem with buf | ⟨a, buf⟩
  · rcases BufferPool.recycle_cases Storage.sizeBytes t.kind t.len buf dev.pool with
      hr | ⟨pool, hr, hpool⟩
    · exact .inr (.inl ⟨buf, rfl, by simp only [hr]⟩)
    · exact .inl ⟨buf, pool, rfl, hpool, by simp only [hr]⟩
  · exact .inr (.inr ⟨a, buf, rfl, rfl⟩)

omit [Topology B] in
theorem replaceTensor_run {p q : Nat} {t t' : Tensor B} (h : w.tensors.lookup p = some t)
    (h' : w.tensors.lookup q = some t') : World.replaceTensor p q w =
      match t.fits t' with
      | .ok () => (.ok (), w.setTensors (w.tensors.swap p q))
      | .err e => (.err e, w)
      | .panic => (.panic, w) := by
  rw [World.replaceTensor, bind_of_ok (get_run w), tensor_of_lookup h, check_run]
  simp only
  rw [tensor_of_lookup h', check_run]
  simp only
  rw [check_run]
  rcases t.fits t' with _ | _ | _ <;> rfl

end Tensors

theorem onTensor_run {p : Nat} {t : Tensor B} (h : w.tensors.lookup p = some t)
    (c : Tensor B → Call (ComputeDevice B) Error α) :
    World.onTensor p c w = World.onDevice t.dev (c t) w := by
  rw [World.onTensor, bind_of_ok (get_run w), tensor_of_lookup h, check_run]

/-! ## Nodes -/

omit [Capturable B] [Areable B] in
/-- The node `ComputeDevice.node` builds, and what it was built from. -/
theorem deviceNode_ok [Topology B] {id uid : Nat} {shader : Shader} {metaVals : List MetaValue}
    {wg : Workgroups} {dev dev' : ComputeDevice B} {node : Node B}
    (h : ComputeDevice.node id uid shader metaVals wg dev = (.ok node, dev')) :
    ∃ words raw, metaWords shader.signature metaVals = .ok words ∧
      Dispatch.buildNode shader words wg dev.raw = (.ok raw, dev'.raw) ∧ dev'.pool = dev.pool ∧
      node = ⟨raw, minLens shader.signature words wg, metaVals, id, uid⟩ := by
  simp only [ComputeDevice.node] at h
  rw [check_eq_ok] at h
  obtain ⟨_, -, h⟩ := h
  rw [check_eq_ok] at h
  obtain ⟨_, -, h⟩ := h
  rw [check_eq_ok] at h
  obtain ⟨_, -, h⟩ := h
  rw [bind_of_ok (get_run dev), check_eq_ok] at h
  obtain ⟨_, -, h⟩ := h
  rw [check_eq_ok] at h
  obtain ⟨words, hwords, h⟩ := h
  obtain ⟨raw, dev₁, hb, hn⟩ := bind_eq_ok.mp h
  cases hn
  rw [mapErr_eq_ok, onRaw_eq_ok] at hb
  exact ⟨words, raw, hwords, hb.1, hb.2, rfl⟩

theorem buildNode_run [Topology B] (d a : Nat) (shader : Shader) (metaVals : List MetaValue)
    (wg : Workgroups) (w : World B) : World.buildNode d a shader metaVals wg w =
      match ComputeDevice.node d w.nextUid shader metaVals wg (w.devices d) with
      | (.ok node, dev) =>
        (.ok (), { (w.setDevice d dev).setNodes (w.nodes.insert a node) with
          nextUid := w.nextUid + 1 })
      | (.err e, dev) => (.err e, w.setDevice d dev)
      | (.panic, dev) => (.panic, w.setDevice d dev) := by
  rw [World.buildNode, bind_of_ok (get_run w), bind_run, onDevice_run]
  rcases ComputeDevice.node d w.nextUid shader metaVals wg (w.devices d) with ⟨_ | _ | _, dev⟩ <;>
    rfl

theorem dropNode_run {a : Nat} {node : Node B} (h : w.nodes.lookup a = some node) :
    World.dropNode a w =
      (.ok (), (w.setNodes (w.nodes.erase a)).setDevice node.dev
        (node.drop (w.devices node.dev)).2) := by
  rw [World.dropNode, bind_of_ok (get_run w), node_of_lookup h, check_run]
  rfl

theorem replaceNode_run {a b : Nat} {node node' : Node B} (h : w.nodes.lookup a = some node)
    (h' : w.nodes.lookup b = some node') : World.replaceNode a b w =
      match node.fits node' with
      | .ok () => (.ok (), w.setNodes (w.nodes.swap a b))
      | .err e => (.err e, w)
      | .panic => (.panic, w) := by
  rw [World.replaceNode, bind_of_ok (get_run w), node_of_lookup h, check_run]
  simp only
  rw [node_of_lookup h', check_run]
  simp only
  rw [check_run]
  rcases node.fits node' with _ | _ | _ <;> rfl

theorem updateMeta_run {a : Nat} {node : Node B} (h : w.nodes.lookup a = some node)
    (metaVals : List MetaValue) : World.updateMeta a metaVals w =
      ((Node.updateMeta metaVals (w.devices node.dev, node)).1,
        (w.setDevice node.dev (Node.updateMeta metaVals (w.devices node.dev, node)).2.1).setNodes
          (w.nodes.insert a (Node.updateMeta metaVals (w.devices node.dev, node)).2.2)) := by
  rw [World.updateMeta, bind_of_ok (get_run w), node_of_lookup h, check_run]
  rfl

/-! ## Scopes -/

section Scopes

variable {s : Nat} {scope : Scope} (h : w.scopes.lookup s = some scope)
include h

theorem close_run : Scope.close s w =
    (.ok (), (w.setScopes (w.scopes.erase s)).setDevice scope.dev
      { w.devices scope.dev with raw := Dispatch.synchronize (w.devices scope.dev).raw }) := by
  rw [Scope.close, bind_of_ok (get_run w), scope_of_lookup h, check_run]
  rfl

theorem scopeBind_run {p : Nat} {t : Tensor B} (ht : w.tensors.lookup p = some t) :
    Scope.bind s p w =
      if scope.dev = t.dev then
        (.ok scope.bufs.length, w.setScope s { scope with bufs := scope.bufs ++ [p] })
      else (.err (.OtherDevice "tensor"), w) := by
  rw [Scope.bind, bind_of_ok (get_run w), scope_of_lookup h, check_run]
  simp only
  rw [tensor_of_lookup ht, check_run]
  simp only
  rw [check_run, Rules.sameDevice]
  by_cases hd : scope.dev = t.dev
  · rw [if_pos hd, if_pos hd]
    rfl
  · rw [if_neg hd, if_neg hd]

theorem scopeBindNode_run {a : Nat} {node : Node B} (hn : w.nodes.lookup a = some node) :
    Scope.bindNode s a w =
      if scope.dev = node.dev then
        (.ok scope.nodes.length, w.setScope s { scope with nodes := scope.nodes ++ [a] })
      else (.err (.OtherDevice "node"), w) := by
  rw [Scope.bindNode, bind_of_ok (get_run w), scope_of_lookup h, check_run]
  simp only
  rw [node_of_lookup hn, check_run]
  simp only
  rw [check_run, Rules.sameDevice]
  by_cases hd : scope.dev = node.dev
  · rw [if_pos hd, if_pos hd]
    rfl
  · rw [if_neg hd, if_neg hd]

theorem scopeUpdateMeta_run {i a : Nat} {node : Node B}
    (hn : w.boundNode scope i = .ok (a, node)) (metaVals : List MetaValue) :
    Scope.updateMeta s i metaVals w = World.updateMeta a metaVals w := by
  rw [Scope.updateMeta, bind_of_ok (get_run w), scope_of_lookup h, check_run]
  simp only
  rw [hn, check_run]

/-! ### Contents of bound tensors -/

omit h in
/-- What names a bound tensor is a call on its device. -/
theorem boundTensor_of_lookup {p i : Nat} {t : Tensor B} (hp : scope.bufs[i]? = some p)
    (ht : w.tensors.lookup p = some t) : w.boundTensor scope i = .ok t :=
  boundTensor_eq_ok.mpr ⟨p, hp, ht⟩

theorem scopeUpload_run {slot : Nat} {t : Tensor B} (ht : w.boundTensor scope slot = .ok t)
    (data : HostData) : Scope.upload s slot data w = World.onDevice t.dev (t.upload data) w := by
  rw [Scope.upload, bind_of_ok (get_run w), scope_of_lookup h, check_run]
  simp only
  rw [ht, check_run]

theorem scopeDownload_run {slot : Nat} {t : Tensor B} (ht : w.boundTensor scope slot = .ok t) :
    Scope.download s slot w = World.onDevice t.dev t.download w := by
  rw [Scope.download, bind_of_ok (get_run w), scope_of_lookup h, check_run]
  simp only
  rw [ht, check_run]

theorem scopeCopy_run {i j : Nat} (hne : i ≠ j) {src dst : Tensor B}
    (hsrc : w.boundTensor scope i = .ok src) (hdst : w.boundTensor scope j = .ok dst)
    (srcOffset dstOffset len : Nat) : Scope.copy s i srcOffset j dstOffset len w =
      World.onDevice scope.dev (src.copyChecked srcOffset dst dstOffset len) w := by
  rw [Scope.copy, if_neg hne, bind_of_ok (get_run w), scope_of_lookup h, check_run]
  simp only
  rw [hsrc, check_run]
  simp only
  rw [hdst, check_run]

/-! ### Running and recording -/

/-- What `execute` does once its checks have passed: the backend's call, and
the scope's own note of it while it captures. -/
def Scope.executed (w : World B) (s : Nat) (scope : Scope) (address : Nat) (node : Node B)
    (bindings : List (Access (Storage.Buffer B))) : Outcome Error Unit × World B :=
  let ran := Dispatch.executeRaw address node.raw bindings (w.devices scope.dev).raw
  let w' := w.setDevice scope.dev { w.devices scope.dev with raw := ran.2 }
  match ran.1, scope.recording with
  | .ok (), some calls =>
    let call : RecordedCall := ⟨address, bindings.map RecordedArg.ofAccess, node.uid⟩
    (.ok (), w'.setScope s { scope with recording := some (calls ++ [call]) })
  | out, _ => (out.mapErr Error.Backend, w')

omit h in
/-- A scope that doesn't capture notes nothing. -/
theorem executed_of_none (hr : scope.recording = none) (address : Nat) (node : Node B)
    (bindings : List (Access (Storage.Buffer B))) :
    Scope.executed w s scope address node bindings =
      (World.onRawDevice scope.dev (Dispatch.executeRaw address node.raw bindings)).mapErr
        Error.Backend w := by
  simp only [Scope.executed, hr, mapErr_run, onRawDevice_run]
  rcases Dispatch.executeRaw address node.raw bindings (w.devices scope.dev).raw with
    ⟨_ | _ | _, raw⟩ <;> rfl

theorem execute_run {n : Nat} {args : List Arg} {address : Nat} {node : Node B}
    (hn : w.boundNode scope n = .ok (address, node)) : Scope.execute s n args w =
      match Scope.check w scope node args with
      | .ok () =>
        match Scope.access w scope args with
        | .ok bindings => Scope.executed w s scope address node bindings
        | .err e => (.err e, w)
        | .panic => (.panic, w)
      | .err e => (.err e, w)
      | .panic => (.panic, w) := by
  rw [Scope.execute, bind_of_ok (get_run w), scope_of_lookup h, check_run]
  simp only
  rw [hn, check_run]
  simp only
  rw [check_run]
  rcases Scope.check w scope node args with _ | e | _
  · simp only
    rw [check_run]
    rcases Scope.access w scope args with bindings | e | _
    · simp only [Scope.executed]
      rw [Call.bind_run, mapErr_run, onRawDevice_run]
      rcases Dispatch.executeRaw address node.raw bindings (w.devices scope.dev).raw with
        ⟨_ | e | _, raw⟩
      · rcases hr : scope.recording with _ | calls <;> rfl
      · rfl
      · rfl
    · rfl
    · rfl
  · rfl
  · rfl

theorem beginCapture_run : Scope.beginCapture s w =
    if scope.recording.isSome then (.err .AlreadyCapturing, w)
    else
      let begun := Capturable.beginCapture (w.devices scope.dev).raw
      let w' := (w.setScope s { scope with recording := some [] }).setDevice scope.dev
        { w.devices scope.dev with raw := begun.2 }
      match begun.1 with
      | .ok () => (.ok (), w'.setScope s { scope with recording := some [], inCapture := true })
      | _ => (.panic, w') := by
  rw [Scope.beginCapture, bind_of_ok (get_run w), scope_of_lookup h, check_run]
  simp only
  split
  · rfl
  · rw [bind_of_ok (modify_run _ w), Call.bind_run, mapErr_run, onRawDevice_run]
    simp only [World.setScope_devices]
    rcases Capturable.beginCapture (w.devices scope.dev).raw with ⟨_ | e | _, raw⟩
    · rfl
    · exact e.elim
    · rfl

theorem endCapture_run {calls : List RecordedCall} (hc : scope.recording = some calls) (r : Nat)
    (result : Except Error Unit) : Scope.endCapture s r result w =
      let ended := Capturable.endCapture (w.devices scope.dev).raw
      let w' := (w.setScope s { scope with recording := none, inCapture := false }).setDevice
        scope.dev { w.devices scope.dev with raw := ended.2 }
      match ended.1, result with
      | .ok raw, .ok () =>
        (.ok (), w'.setRecordings (w.recordings.insert r ⟨raw, calls, scope.dev⟩))
      | .ok raw, .error e =>
        (.err e, w'.setDevice scope.dev
          { w'.devices scope.dev with
            raw := Capturable.releaseCapture raw (w'.devices scope.dev).raw })
      | .err e, _ => (.err (.Backend e), w')
      | .panic, _ => (.panic, w') := by
  rw [Scope.endCapture, bind_of_ok (get_run w), scope_of_lookup h, check_run]
  simp only
  rw [bind_of_ok (modify_run _ w), hc, check_run]
  simp only [Outcome.expect]
  rw [Call.bind_run, mapErr_run, onRawDevice_run]
  simp only [World.setScope_devices]
  rcases Capturable.endCapture (w.devices scope.dev).raw with ⟨raw | e | _, dev⟩
  · cases result <;> rfl
  · rfl
  · rfl

theorem unwindCapture_run : Scope.unwindCapture s w =
    let ended := Capturable.endCapture (w.devices scope.dev).raw
    let w' := (w.setScope s { scope with recording := none, inCapture := false }).setDevice
      scope.dev { w.devices scope.dev with raw := ended.2 }
    match ended.1 with
    | .ok raw =>
      (.ok (), w'.setDevice scope.dev
        { w'.devices scope.dev with
          raw := Capturable.releaseCapture raw (w'.devices scope.dev).raw })
    | .err _ => (.ok (), w')
    | .panic => (.panic, w') := by
  rw [Scope.unwindCapture, bind_of_ok (get_run w), scope_of_lookup h, check_run]
  simp only
  rw [bind_of_ok (modify_run _ w), Call.bind_run, attempt_run, onRawDevice_run]
  simp only [World.setScope_devices]
  rcases Capturable.endCapture (w.devices scope.dev).raw with ⟨raw | e | _, dev⟩ <;> rfl

theorem replay_run {r : Nat} {recording : Recording B}
    (hr : w.recordings.lookup r = some recording) : Scope.replay s r w =
      match Scope.checkRecorded w scope recording with
      | .ok () =>
        let ran := Capturable.replay (Scope.rawNode w) recording.raw (w.devices scope.dev).raw
        (ran.1.mapErr Error.Backend,
          w.setDevice scope.dev { w.devices scope.dev with raw := ran.2 })
      | .err e => (.err e, w)
      | .panic => (.panic, w) := by
  rw [Scope.replay, bind_of_ok (get_run w), scope_of_lookup h, check_run]
  simp only
  rw [recording_of_lookup hr, check_run]
  simp only
  rw [check_run]
  rcases Scope.checkRecorded w scope recording with _ | e | _ <;> rfl

end Scopes

theorem dropRecording_run {r : Nat} {recording : Recording B}
    (h : w.recordings.lookup r = some recording) : Scope.dropRecording r w =
      (.ok (), (w.setRecordings (w.recordings.erase r)).setDevice recording.dev
        { w.devices recording.dev with
          raw := Capturable.releaseCapture recording.raw (w.devices recording.dev).raw }) := by
  rw [Scope.dropRecording, bind_of_ok (get_run w), recording_of_lookup h, check_run]
  rfl

end Wilupgu
