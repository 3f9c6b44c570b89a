import Wilupgu.Safe.Step

/-! # What each family of calls leaves alone

Every family of calls changes some parts of the world and leaves the others
as they are. What it does to a device is followed by any relation on raw
devices that the contract's own calls keep. -/

namespace Wilupgu

open Backend Call

variable {B : Type} [Storage B] [Dispatch B] [Capturable B] [Areable B]

/-! ## Relations that the contract's calls keep -/

/-- Reading and writing contents. -/
structure KeptByMemory (R : B → B → Prop) : Prop where
  upload : ∀ buf offset data, Keeps R (Storage.uploadRaw (B := B) buf offset data)
  download : ∀ buf offset bytes, Keeps R (Storage.downloadRaw (B := B) buf offset bytes)
  copy : ∀ src srcOffset dst dstOffset bytes,
    Keeps R (Storage.copyRaw (B := B) src srcOffset dst dstOffset bytes)
  clear : ∀ buf, Keeps R (Storage.clearRaw (B := B) buf)
  synchronize : ∀ raw, R raw (Dispatch.synchronize raw)

/-- Allocating and freeing. -/
structure KeptByTensors (R : B → B → Prop) : Prop where
  alloc : ∀ env bytes, Keeps R (Storage.allocRaw (B := B) env bytes)
  dropBuffer : ∀ buf raw, R raw (Storage.dropBuffer buf raw)
  reserve : ∀ env bytes raw, R raw (Areable.reserve env bytes raw).2
  release : ∀ area raw, R raw (Areable.release area raw)
  carve : ∀ area bytes, Keeps R (Areable.carve (B := B) area bytes)

/-- Building, updating and dropping nodes. -/
structure KeptByNodes (R : B → B → Prop) : Prop where
  build : ∀ shader words wg, Keeps R (Dispatch.buildNode (B := B) shader words wg)
  update : ∀ node words, Keeps R (Dispatch.updateMeta (B := B) node words)
  drop : ∀ node raw, R raw (Dispatch.dropNode node raw)

/-- Running, recording and replaying. -/
structure KeptByRuns (R : B → B → Prop) : Prop where
  execute : ∀ address node bindings, Keeps R (Dispatch.executeRaw (B := B) address node bindings)
  beginCapture : Keeps R (Capturable.beginCapture (B := B))
  endCapture : Keeps R (Capturable.endCapture (B := B))
  replay : ∀ nodes capture, Keeps R (Capturable.replay (B := B) nodes capture)
  release : ∀ capture raw, R raw (Capturable.releaseCapture capture raw)

/-- Following nothing. -/
theorem frame_any {σ : Type} : Frame fun _ _ : σ => True := ⟨fun _ => trivial, fun _ _ => trivial⟩

omit [Capturable B] [Areable B] in
theorem memory_any : KeptByMemory fun _ _ : B => True :=
  ⟨fun _ _ _ _ => trivial, fun _ _ _ _ => trivial, fun _ _ _ _ _ _ => trivial,
    fun _ _ => trivial, fun _ => trivial⟩

omit [Dispatch B] [Capturable B] in
theorem tensors_any : KeptByTensors fun _ _ : B => True :=
  ⟨fun _ _ _ => trivial, fun _ _ => trivial, fun _ _ _ => trivial, fun _ _ => trivial,
    fun _ _ _ => trivial⟩

omit [Capturable B] [Areable B] in
theorem nodes_any : KeptByNodes fun _ _ : B => True :=
  ⟨fun _ _ _ _ => trivial, fun _ _ _ => trivial, fun _ _ => trivial⟩

omit [Areable B] in
theorem runs_any : KeptByRuns fun _ _ : B => True :=
  ⟨fun _ _ _ _ => trivial, fun _ => trivial, fun _ => trivial, fun _ _ _ => trivial,
    fun _ _ => trivial⟩

omit [Capturable B] [Areable B] in
theorem KeptByMemory.mono {R S : B → B → Prop} (h : KeptByMemory R)
    (hsub : ∀ raw raw', R raw raw' → S raw raw') : KeptByMemory S :=
  ⟨fun _ _ _ => (h.upload _ _ _).mono hsub, fun _ _ _ => (h.download _ _ _).mono hsub,
    fun _ _ _ _ _ => (h.copy _ _ _ _ _).mono hsub, fun _ => (h.clear _).mono hsub,
    fun raw => hsub _ _ (h.synchronize raw)⟩

omit [Capturable B] [Areable B] in
theorem KeptByNodes.mono {R S : B → B → Prop} (h : KeptByNodes R)
    (hsub : ∀ raw raw', R raw raw' → S raw raw') : KeptByNodes S :=
  ⟨fun _ _ _ => (h.build _ _ _).mono hsub, fun _ _ => (h.update _ _).mono hsub,
    fun _ raw => hsub _ _ (h.drop _ raw)⟩

/-! ## Devices -/

/-- The pool as it was, the raw device followed by `R`. -/
def Beside (R : B → B → Prop) (dev dev' : ComputeDevice B) : Prop :=
  dev'.pool = dev.pool ∧ R dev.raw dev'.raw

/-- The raw device followed by `R`. -/
def Along (R : B → B → Prop) (dev dev' : ComputeDevice B) : Prop := R dev.raw dev'.raw

section Devices

variable {R : B → B → Prop} {ε α : Type}

omit [Dispatch B] [Capturable B] [Areable B]

theorem frame_beside (hR : Frame R) : Frame (Beside R) :=
  (frame_eq ComputeDevice.pool).and (hR.comap ComputeDevice.raw)

theorem frame_along (hR : Frame R) : Frame (Along R) := hR.comap ComputeDevice.raw

theorem keeps_onRaw {c : Call B ε α} (h : Keeps R c) : Keeps (Beside R) (onRaw c) :=
  keeps_zoom (fun _ _ hs => ⟨rfl, hs⟩) h

theorem along_of_beside {c : Call (ComputeDevice B) ε α} (h : Keeps (Beside R) c) :
    Keeps (Along R) c := h.mono fun _ _ => And.right

end Devices

section Memory

variable {R : B → B → Prop} (hR : Frame R) (hm : KeptByMemory R)
include hR hm

omit [Capturable B] [Areable B]

theorem uploadAt_keeps (t : Tensor B) (offset : Nat) (data : HostData) :
    Keeps (Beside R) (t.uploadAt offset data) :=
  (frame_beside hR).lift_bind fun _ => (frame_beside hR).lift_bind fun _ =>
    keeps_mapErr (keeps_onRaw (hm.upload _ _ _))

theorem upload_keeps (t : Tensor B) (data : HostData) : Keeps (Beside R) (t.upload data) :=
  (frame_beside hR).lift_bind fun _ => uploadAt_keeps hR hm t 0 data

theorem downloadRange_keeps (t : Tensor B) (offset len : Nat) :
    Keeps (Beside R) (t.downloadRange offset len) :=
  (frame_beside hR).lift_bind fun _ =>
    (frame_beside hR).bind (keeps_mapErr (keeps_onRaw (hm.download _ _ _))) fun _ =>
      (frame_beside hR).pure _

theorem download_keeps (t : Tensor B) : Keeps (Beside R) t.download := by
  refine (frame_beside hR).bind (keeps_attempt (downloadRange_keeps hR hm t 0 t.len)) fun r => ?_
  cases r with
  | ok data => exact (frame_beside hR).pure data
  | error e => exact (frame_beside hR).lift .panic

theorem copyChecked_keeps (src : Tensor B) (srcOffset : Nat) (dst : Tensor B)
    (dstOffset len : Nat) : Keeps (Beside R) (src.copyChecked srcOffset dst dstOffset len) :=
  (frame_beside hR).lift_bind fun _ => keeps_mapErr (keeps_onRaw (hm.copy _ _ _ _ _))

omit hR hm in
theorem synchronize_keeps (h : ∀ raw : B, R raw (Dispatch.synchronize raw)) :
    Keeps (Beside R) (Tensor.synchronize (B := B)) := keeps_modify fun dev => ⟨rfl, h dev.raw⟩

theorem copyInto_keeps (src : Tensor B) (srcOffset : Nat) (dst : Tensor B) (dstOffset len : Nat) :
    Keeps (Beside R) (src.copyInto srcOffset dst dstOffset len) :=
  (frame_beside hR).lift_bind fun _ =>
    (frame_beside hR).bind (copyChecked_keeps hR hm _ _ _ _ _) fun _ =>
      synchronize_keeps hm.synchronize

theorem zero_keeps (t : Tensor B) : Keeps (Beside R) t.zero :=
  (frame_beside hR).bind (keeps_mapErr (keeps_onRaw (hm.clear _))) fun _ =>
    synchronize_keeps hm.synchronize

end Memory

section Tensors

variable {R : B → B → Prop} (hR : Frame R) (ht : KeptByTensors R)
include hR ht

omit [Dispatch B] [Capturable B]

theorem dropPooled_keeps : Keeps (Along R) (ComputeDevice.dropPooled (B := B)) := by
  have hdrop : ∀ (bufs : List (Storage.Buffer B)) (raw : B),
      R raw (bufs.foldl (fun raw buf => Storage.dropBuffer buf raw) raw) := by
    intro bufs
    induction bufs with
    | nil => exact hR.refl
    | cons buf rest ih => exact fun raw => hR.trans (ht.dropBuffer buf raw) (ih _)
  exact keeps_modify fun dev => hdrop _ dev.raw

theorem allocBuffer_keeps (env : Storage.Env B) (kind : DataKind) (len : Nat) :
    Keeps (Along R) (ComputeDevice.allocBuffer env kind len) := by
  have hF := frame_along hR
  have hraw : ∀ bytes, Keeps (Along R) (onRaw (Storage.allocRaw (B := B) env bytes)) :=
    fun bytes => along_of_beside (keeps_onRaw (ht.alloc env bytes))
  have htake : Keeps (Along R) (ComputeDevice.takePooled (B := B) kind len) :=
    fun dev => hR.refl dev.raw
  refine hF.bind htake fun pooled => ?_
  cases pooled with
  | some buf => exact hF.pure buf
  | none =>
    refine hF.bind (keeps_attempt (hraw _)) fun first => ?_
    cases first with
    | ok buf => exact hF.pure buf
    | error e => exact hF.bind (dropPooled_keeps hR ht) fun _ => keeps_mapErr (hraw _)

theorem deviceAlloc_keeps [Topology B] (id : Nat) (env : Storage.Env B) (kind : DataKind)
    (len : Nat) : Keeps (Along R) (ComputeDevice.alloc id env kind len) :=
  have hF := frame_along hR
  hF.get_bind fun _ => hF.lift_bind fun _ =>
    hF.bind (allocBuffer_keeps hR ht env kind _) fun _ => hF.pure _

theorem areaAlloc_keeps [Topology B] (key : Nat) (area : DeviceArea B) (kind : DataKind)
    (len : Nat) : Keeps (Along R) (area.alloc key kind len) :=
  have hF := frame_along hR
  hF.get_bind fun _ => hF.lift_bind fun _ =>
    hF.bind (keeps_mapErr (along_of_beside (keeps_onRaw (ht.carve _ _)))) fun _ => hF.pure _

theorem dropTensor_keeps (t : Tensor B) : Keeps (Along R) t.drop := by
  refine keeps_modify fun dev => ?_
  split
  · split
    · exact hR.refl dev.raw
    · exact ht.dropBuffer _ _
  · exact ht.dropBuffer _ _

end Tensors

section Nodes

variable {R : B → B → Prop} (hR : Frame R) (hn : KeptByNodes R)
include hR hn

omit [Capturable B] [Areable B]

theorem deviceNode_keeps [Topology B] (id uid : Nat) (shader : Shader)
    (metaVals : List MetaValue) (wg : Workgroups) :
    Keeps (Beside R) (ComputeDevice.node (B := B) id uid shader metaVals wg) :=
  have hF := frame_beside hR
  hF.lift_bind fun _ => hF.lift_bind fun _ => hF.lift_bind fun _ => hF.get_bind fun _ =>
    hF.lift_bind fun _ => hF.lift_bind fun _ =>
      hF.bind (keeps_mapErr (keeps_onRaw (hn.build _ _ _))) fun _ => hF.pure _

theorem nodeUpdateMeta_keeps (metaVals : List MetaValue) :
    Keeps (fun s t => Beside R s.1 t.1) (Node.updateMeta (B := B) metaVals) := by
  have hB := frame_beside hR
  have hF := hB.comap (τ := ComputeDevice B) (Prod.fst (β := Node B))
  refine hF.get_bind fun _ => hF.lift_bind fun _ =>
    hF.bind (keeps_modify fun s => hB.refl s.1) fun _ => hF.get_bind fun _ => hF.bind ?_ fun _ =>
      keeps_modify fun s => hB.refl s.1
  refine keeps_zoom ?_ (keeps_mapErr (keeps_onRaw (hn.update _ _)))
  exact fun _ _ h => h

end Nodes

/-! ## Worlds -/

/-- Every device followed by `Q`. -/
def World.Devices (Q : ComputeDevice B → ComputeDevice B → Prop) (w w' : World B) : Prop :=
  ∀ d, Q (w.devices d) (w'.devices d)

/-- What calls on contents leave alone: all but the devices. -/
structure World.MemoryFrame (w w' : World B) : Prop where
  tensors : w'.tensors = w.tensors
  nodes : w'.nodes = w.nodes
  areas : w'.areas = w.areas
  scopes : w'.scopes = w.scopes
  recordings : w'.recordings = w.recordings
  nextUid : w'.nextUid = w.nextUid

/-- What calls on tensors and areas leave alone. -/
structure World.TensorFrame (w w' : World B) : Prop where
  nodes : w'.nodes = w.nodes
  scopes : w'.scopes = w.scopes
  recordings : w'.recordings = w.recordings
  nextUid : w'.nextUid = w.nextUid

/-- What calls on nodes leave alone. -/
structure World.NodeFrame (w w' : World B) : Prop where
  tensors : w'.tensors = w.tensors
  areas : w'.areas = w.areas
  scopes : w'.scopes = w.scopes
  recordings : w'.recordings = w.recordings

/-- What opening, binding in and closing scopes leaves alone. -/
structure World.ScopeFrame (w w' : World B) : Prop where
  tensors : w'.tensors = w.tensors
  nodes : w'.nodes = w.nodes
  areas : w'.areas = w.areas
  recordings : w'.recordings = w.recordings
  nextUid : w'.nextUid = w.nextUid

/-- What running, recording and replaying leaves alone. -/
structure World.RunFrame (w w' : World B) : Prop where
  tensors : w'.tensors = w.tensors
  nodes : w'.nodes = w.nodes
  areas : w'.areas = w.areas
  nextUid : w'.nextUid = w.nextUid

section Worlds

variable {ε α : Type}

theorem frame_devices {Q : ComputeDevice B → ComputeDevice B → Prop} (hQ : Frame Q) :
    Frame (World.Devices (B := B) Q) :=
  ⟨fun w d => hQ.refl (w.devices d), fun h h' d => hQ.trans (h d) (h' d)⟩

theorem frame_memoryFrame : Frame (World.MemoryFrame (B := B)) :=
  ⟨fun _ => ⟨rfl, rfl, rfl, rfl, rfl, rfl⟩, fun h h' =>
    ⟨h'.1.trans h.1, h'.2.trans h.2, h'.3.trans h.3, h'.4.trans h.4, h'.5.trans h.5,
      h'.6.trans h.6⟩⟩

theorem frame_tensorFrame : Frame (World.TensorFrame (B := B)) :=
  ⟨fun _ => ⟨rfl, rfl, rfl, rfl⟩, fun h h' =>
    ⟨h'.1.trans h.1, h'.2.trans h.2, h'.3.trans h.3, h'.4.trans h.4⟩⟩

theorem frame_nodeFrame : Frame (World.NodeFrame (B := B)) :=
  ⟨fun _ => ⟨rfl, rfl, rfl, rfl⟩, fun h h' =>
    ⟨h'.1.trans h.1, h'.2.trans h.2, h'.3.trans h.3, h'.4.trans h.4⟩⟩

theorem frame_scopeFrame : Frame (World.ScopeFrame (B := B)) :=
  ⟨fun _ => ⟨rfl, rfl, rfl, rfl, rfl⟩, fun h h' =>
    ⟨h'.1.trans h.1, h'.2.trans h.2, h'.3.trans h.3, h'.4.trans h.4, h'.5.trans h.5⟩⟩

theorem frame_runFrame : Frame (World.RunFrame (B := B)) :=
  ⟨fun _ => ⟨rfl, rfl, rfl, rfl⟩, fun h h' =>
    ⟨h'.1.trans h.1, h'.2.trans h.2, h'.3.trans h.3, h'.4.trans h.4⟩⟩

variable {Q : ComputeDevice B → ComputeDevice B → Prop} (hQ : Frame Q)
include hQ

theorem devices_setDevice {w : World B} {d : Nat} {dev : ComputeDevice B}
    (h : Q (w.devices d) dev) : w.Devices Q (w.setDevice d dev) := by
  intro d'
  by_cases hd : d' = d
  · subst hd
    simpa [World.setDevice] using h
  · simpa [World.setDevice, hd] using hQ.refl _

omit hQ in
/-- What follows a device's change follows a call on the device. -/
theorem keeps_onDevice {R : World B → World B → Prop}
    (hR : ∀ w d dev, Q (w.devices d) dev → R w (w.setDevice d dev))
    {d : Nat} {c : Call (ComputeDevice B) ε α} (h : Keeps Q c) :
    Keeps R (World.onDevice d c) := keeps_zoom (fun w dev => hR w d dev) h

end Worlds

section Families

variable {R : B → B → Prop} {ε : Type} (hR : Frame R)
include hR

omit hR in
theorem keeps_silent {S : World B → World B → Prop} (hS : Frame S) {c : Call (World B) Error Unit}
    (h : Keeps S c) : Keeps S (silent c) := hS.bind h fun _ => hS.pure _

omit hR in
theorem keeps_giving {S : World B → World B → Prop} (hS : Frame S)
    {c : Call (World B) Error HostData} (h : Keeps S c) : Keeps S (giving c) :=
  hS.bind h fun _ => hS.pure _

omit hR in
theorem keeps_giving! {S : World B → World B → Prop} (hS : Frame S)
    {c : Call (World B) Error Nat} (h : Keeps S c) : Keeps S (giving! c) :=
  hS.bind h fun _ => hS.pure _

/-! ### Contents -/

/-- All a call on contents can do to a world. -/
def World.ByMemory (R : B → B → Prop) (w w' : World B) : Prop :=
  w.MemoryFrame w' ∧ w.Devices (Beside R) w'

theorem frame_byMemory : Frame (World.ByMemory R) :=
  frame_memoryFrame.and (frame_devices (frame_beside hR))

theorem onDevice_byMemory {α : Type} {d : Nat} {c : Call (ComputeDevice B) ε α}
    (h : Keeps (Beside R) c) : Keeps (World.ByMemory R) (World.onDevice d c) :=
  keeps_onDevice (fun _ _ _ hd =>
    ⟨⟨rfl, rfl, rfl, rfl, rfl, rfl⟩, devices_setDevice (frame_beside hR) hd⟩) h

theorem onTensor_byMemory {α : Type} {p : Nat} {c : Tensor B → Call (ComputeDevice B) Error α}
    (h : ∀ t, Keeps (Beside R) (c t)) : Keeps (World.ByMemory R) (World.onTensor p c) :=
  (frame_byMemory hR).get_bind fun _ => (frame_byMemory hR).lift_bind fun t =>
    onDevice_byMemory hR (h t)

theorem MemoryAct.keeps (hm : KeptByMemory R) (a : MemoryAct) :
    Keeps (World.ByMemory R) (a.run (B := B)) := by
  have hF := frame_byMemory hR
  cases a with
  | upload p data =>
    exact keeps_silent hF (onTensor_byMemory hR fun t => upload_keeps hR hm t data)
  | uploadAt p offset data =>
    exact keeps_silent hF (onTensor_byMemory hR fun t => uploadAt_keeps hR hm t offset data)
  | download p => exact keeps_giving hF (onTensor_byMemory hR (download_keeps hR hm))
  | downloadRange p offset len =>
    exact keeps_giving hF (onTensor_byMemory hR fun t => downloadRange_keeps hR hm t offset len)
  | copyInto p srcOffset q dstOffset len =>
    exact keeps_silent hF (hF.get_bind fun _ => hF.lift_bind fun dst =>
      onTensor_byMemory hR fun src => copyInto_keeps hR hm src srcOffset dst dstOffset len)
  | zero p => exact keeps_silent hF (onTensor_byMemory hR (zero_keeps hR hm))
  | scopeUpload s slot data =>
    exact keeps_silent hF (hF.get_bind fun _ => hF.lift_bind fun _ => hF.lift_bind fun t =>
      onDevice_byMemory hR (upload_keeps hR hm t data))
  | scopeDownload s slot =>
    exact keeps_giving hF (hF.get_bind fun _ => hF.lift_bind fun _ => hF.lift_bind fun t =>
      onDevice_byMemory hR (download_keeps hR hm t))
  | scopeCopy s src srcOffset dst dstOffset len =>
    refine keeps_silent hF ?_
    unfold Scope.copy
    split
    · exact hF.lift _
    · exact hF.get_bind fun _ => hF.lift_bind fun _ => hF.lift_bind fun src =>
        hF.lift_bind fun dst => onDevice_byMemory hR (copyChecked_keeps hR hm src _ dst _ _)

/-! ### Tensors and areas -/

/-- All a call on tensors and areas does to the rest of a world. -/
def World.ByTensors (R : B → B → Prop) (w w' : World B) : Prop :=
  w.TensorFrame w' ∧ w.Devices (Along R) w'

theorem frame_byTensors : Frame (World.ByTensors R) :=
  frame_tensorFrame.and (frame_devices (frame_along hR))

theorem onDevice_byTensors {α : Type} {d : Nat} {c : Call (ComputeDevice B) ε α}
    (h : Keeps (Along R) c) : Keeps (World.ByTensors R) (World.onDevice d c) :=
  keeps_onDevice (fun _ _ _ hd =>
    ⟨⟨rfl, rfl, rfl, rfl⟩, devices_setDevice (frame_along hR) hd⟩) h

theorem setTensors_byTensors (w : World B) (tensors : Places (Tensor B)) :
    w.ByTensors R (w.setTensors tensors) := ⟨⟨rfl, rfl, rfl, rfl⟩, fun _ => hR.refl _⟩

theorem setAreas_byTensors (w : World B) (areas : Places (DeviceArea B)) :
    w.ByTensors R (w.setAreas areas) := ⟨⟨rfl, rfl, rfl, rfl⟩, fun _ => hR.refl _⟩

theorem TensorAct.keeps [Topology B] (ht : KeptByTensors R) (a : TensorAct B) :
    Keeps (World.ByTensors R) a.run := by
  have hF := frame_byTensors hR
  have hset := setTensors_byTensors hR
  have hareas := setAreas_byTensors hR
  cases a with
  | alloc d env p kind len =>
    exact keeps_silent hF (hF.bind (onDevice_byTensors hR (deviceAlloc_keeps hR ht d env kind len))
      fun _ => keeps_modify fun w => hset w _)
  | reserve d env a bytes =>
    exact keeps_silent hF (hF.bind (onDevice_byTensors hR fun dev => ht.reserve env bytes dev.raw)
      fun _ => keeps_modify fun w => hareas w _)
  | carve a p kind len =>
    exact keeps_silent hF (hF.get_bind fun _ => hF.lift_bind fun area =>
      hF.bind (onDevice_byTensors hR (areaAlloc_keeps hR ht a area kind len))
        fun _ => keeps_modify fun w => hF.trans (hset w _) (hareas _ _))
  | dropArea a =>
    exact keeps_silent hF (hF.get_bind fun _ => hF.lift_bind fun area =>
      hF.bind (keeps_modify fun w => hareas w _) fun _ =>
        onDevice_byTensors hR (keeps_modify fun dev => ht.release area.raw dev.raw))
  | dropTensor p =>
    exact keeps_silent hF (hF.get_bind fun _ => hF.lift_bind fun t =>
      hF.bind (keeps_modify fun w => hset w _) fun _ =>
        onDevice_byTensors hR (dropTensor_keeps hR ht t))
  | moveTensor p q => exact keeps_silent hF (keeps_modify fun w => hset w _)
  | replaceTensor p q =>
    exact keeps_silent hF (hF.get_bind fun _ => hF.lift_bind fun _ => hF.lift_bind fun _ =>
      hF.lift_bind fun _ => keeps_modify fun w => hset w _)

/-! ### Nodes -/

/-- All a call on nodes does to the rest of a world. -/
def World.ByNodes (R : B → B → Prop) (w w' : World B) : Prop :=
  w.NodeFrame w' ∧ w.Devices (Beside R) w'

theorem frame_byNodes : Frame (World.ByNodes R) :=
  frame_nodeFrame.and (frame_devices (frame_beside hR))

theorem onDevice_byNodes {α : Type} {d : Nat} {c : Call (ComputeDevice B) ε α}
    (h : Keeps (Beside R) c) : Keeps (World.ByNodes R) (World.onDevice d c) :=
  keeps_onDevice (fun _ _ _ hd =>
    ⟨⟨rfl, rfl, rfl, rfl⟩, devices_setDevice (frame_beside hR) hd⟩) h

theorem updateMeta_byNodes (hn : KeptByNodes R) (a : Nat) (metaVals : List MetaValue) :
    Keeps (World.ByNodes R) (World.updateMeta (B := B) a metaVals) :=
  have hF := frame_byNodes hR
  hF.get_bind fun _ => hF.lift_bind fun _ =>
    keeps_zoom (fun _ _ hd => ⟨⟨rfl, rfl, rfl, rfl⟩, devices_setDevice (frame_beside hR) hd⟩)
      (nodeUpdateMeta_keeps hR hn metaVals)

theorem NodeAct.keeps [Topology B] (hn : KeptByNodes R) (a : NodeAct) :
    Keeps (World.ByNodes R) (a.run (B := B)) := by
  have hF := frame_byNodes hR
  have hset : ∀ (w : World B) nodes, w.ByNodes R (w.setNodes nodes) :=
    fun w _ => ⟨⟨rfl, rfl, rfl, rfl⟩, fun _ => (frame_beside hR).refl _⟩
  cases a with
  | build d a shader metaVals workgroups =>
    exact keeps_silent hF (hF.get_bind fun w =>
      hF.bind (onDevice_byNodes hR (deviceNode_keeps hR hn d w.nextUid shader metaVals workgroups))
        fun _ => keeps_modify fun _ =>
          ⟨⟨rfl, rfl, rfl, rfl⟩, fun _ => (frame_beside hR).refl _⟩)
  | dropNode a =>
    exact keeps_silent hF (hF.get_bind fun _ => hF.lift_bind fun node =>
      hF.bind (keeps_modify fun w => hset w _) fun _ =>
        onDevice_byNodes hR (keeps_modify fun dev => ⟨rfl, hn.drop node.raw dev.raw⟩))
  | moveNode a b => exact keeps_silent hF (keeps_modify fun w => hset w _)
  | replaceNode a b =>
    exact keeps_silent hF (hF.get_bind fun _ => hF.lift_bind fun _ => hF.lift_bind fun _ =>
      hF.lift_bind fun _ => keeps_modify fun w => hset w _)
  | updateMeta a metaVals => exact keeps_silent hF (updateMeta_byNodes hR hn a metaVals)
  | scopeUpdateMeta s slot metaVals =>
    exact keeps_silent hF (hF.get_bind fun _ => hF.lift_bind fun _ => hF.lift_bind fun x =>
      updateMeta_byNodes hR hn x.1 metaVals)

/-! ### Scopes -/

/-- All that opening, binding in and closing scopes does to the rest of a world. -/
def World.ByScopes (R : B → B → Prop) (w w' : World B) : Prop :=
  w.ScopeFrame w' ∧ w.Devices (Beside R) w'

theorem frame_byScopes : Frame (World.ByScopes R) :=
  frame_scopeFrame.and (frame_devices (frame_beside hR))

theorem ScopeAct.keeps (hsync : ∀ raw : B, R raw (Dispatch.synchronize raw)) (a : ScopeAct) :
    Keeps (World.ByScopes R) (a.run (B := B)) := by
  have hF := frame_byScopes hR
  have hset : ∀ (w : World B) scopes, w.ByScopes R (w.setScopes scopes) :=
    fun w _ => ⟨⟨rfl, rfl, rfl, rfl, rfl⟩, fun _ => (frame_beside hR).refl _⟩
  cases a with
  | openOn s d => exact keeps_silent hF (keeps_modify fun w => hset w _)
  | close s =>
    exact keeps_silent hF (hF.get_bind fun _ => hF.lift_bind fun scope =>
      hF.bind (keeps_modify fun w => hset w _) fun _ =>
        keeps_onDevice (fun _ _ _ hd =>
          ⟨⟨rfl, rfl, rfl, rfl, rfl⟩, devices_setDevice (frame_beside hR) hd⟩)
          (synchronize_keeps hsync))
  | bind s p =>
    exact keeps_giving! hF (hF.get_bind fun _ => hF.lift_bind fun _ => hF.lift_bind fun _ =>
      hF.lift_bind fun _ => hF.bind (keeps_modify fun w => hset w _) fun _ => hF.pure _)
  | bindNode s a =>
    exact keeps_giving! hF (hF.get_bind fun _ => hF.lift_bind fun _ => hF.lift_bind fun _ =>
      hF.lift_bind fun _ => hF.bind (keeps_modify fun w => hset w _) fun _ => hF.pure _)

/-! ### Runs -/

/-- All that running, recording and replaying does to the rest of a world. -/
def World.ByRuns (R : B → B → Prop) (w w' : World B) : Prop :=
  w.RunFrame w' ∧ w.Devices (Beside R) w'

theorem frame_byRuns : Frame (World.ByRuns R) :=
  frame_runFrame.and (frame_devices (frame_beside hR))

theorem onRawDevice_byRuns {α : Type} {d : Nat} {c : Call B ε α} (h : Keeps R c) :
    Keeps (World.ByRuns R) (World.onRawDevice d c) :=
  keeps_onDevice (fun _ _ _ hd =>
    ⟨⟨rfl, rfl, rfl, rfl⟩, devices_setDevice (frame_beside hR) hd⟩) (keeps_onRaw h)

theorem RunAct.keeps (hr : KeptByRuns R) (a : RunAct) :
    Keeps (World.ByRuns R) (a.run (B := B)) := by
  have hF := frame_byRuns hR
  have hscope : ∀ (w : World B) s scope, w.ByRuns R (w.setScope s scope) :=
    fun w _ _ => ⟨⟨rfl, rfl, rfl, rfl⟩, fun _ => (frame_beside hR).refl _⟩
  have hrecording : ∀ (w : World B) recordings, w.ByRuns R (w.setRecordings recordings) :=
    fun w _ => ⟨⟨rfl, rfl, rfl, rfl⟩, fun _ => (frame_beside hR).refl _⟩
  have hrelease : ∀ d (raw : Capturable.Capture B), Keeps (World.ByRuns R)
      (World.onRawDevice d (.modify (Capturable.releaseCapture raw)) : Call _ Error _) :=
    fun d raw => onRawDevice_byRuns hR (keeps_modify (hr.release raw))
  cases a with
  | execute s node args =>
    refine keeps_silent hF (hF.get_bind fun _ => hF.lift_bind fun scope => hF.lift_bind fun _ =>
      hF.lift_bind fun _ => hF.lift_bind fun _ =>
        hF.bind (keeps_mapErr (onRawDevice_byRuns hR (hr.execute _ _ _))) fun _ => ?_)
    split
    · exact keeps_modify fun w => hscope w _ _
    · exact hF.pure _
  | beginCapture s =>
    refine keeps_silent hF (hF.get_bind fun _ => hF.lift_bind fun scope => ?_)
    split
    · exact hF.lift _
    · exact hF.bind (keeps_modify fun w => hscope w _ _) fun _ =>
        hF.bind (keeps_mapErr (onRawDevice_byRuns hR hr.beginCapture)) fun _ =>
          keeps_modify fun w => hscope w _ _
  | endCapture s r result =>
    refine keeps_silent hF (hF.get_bind fun _ => hF.lift_bind fun scope =>
      hF.bind (keeps_modify fun w => hscope w _ _) fun _ => hF.lift_bind fun _ =>
        hF.bind (keeps_mapErr (onRawDevice_byRuns hR hr.endCapture)) fun raw => ?_)
    cases result with
    | ok _ => exact keeps_modify fun w => hrecording w _
    | error e => exact hF.bind (hrelease _ raw) fun _ => hF.lift _
  | unwindCapture s =>
    refine keeps_silent hF (hF.get_bind fun _ => hF.lift_bind fun scope =>
      hF.bind (keeps_modify fun w => hscope w _ _) fun _ =>
        hF.bind (keeps_attempt (onRawDevice_byRuns hR hr.endCapture)) fun ended => ?_)
    cases ended with
    | ok raw => exact hrelease _ raw
    | error _ => exact hF.pure _
  | replay s r =>
    exact keeps_silent hF (hF.get_bind fun _ => hF.lift_bind fun _ => hF.lift_bind fun _ =>
      hF.lift_bind fun _ => keeps_mapErr (onRawDevice_byRuns hR (hr.replay _ _)))
  | dropRecording r =>
    exact keeps_silent hF (hF.get_bind fun _ => hF.lift_bind fun recording =>
      hF.bind (keeps_modify fun w => hrecording w _) fun _ => hrelease _ recording.raw)

end Families

end Wilupgu
