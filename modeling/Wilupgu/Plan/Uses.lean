import Wilupgu.Memory.Contents
import Wilupgu.Plan.Binding
import Wilupgu.Plan.Use

/-! # A run in use follows its plan

Uploads change the contents that a run's described calls start from. So the
reference interpreter has them too, and a run that is used as it is still does
in every step what the interpreter does. -/

namespace Wilupgu.Plan

open Backend Backends ByteMemory Call Memory Splice

namespace Reference

/-! ## Uploads to contents -/

/-- Bytes written to a tensor from `offset` on. Past its end there is a panic. -/
def overwrite (id offset : Nat) (data : List UInt8) : Call Reference Error Unit where
  run ρ :=
    if offset + data.length ≤ (ρ.contents id).length then
      (.ok (), { ρ with
        contents := Function.update ρ.contents id (splice (ρ.contents id) offset data) })
    else (.panic, ρ)

def spec (plan : RunSpec) (id : Nat) : Outcome Error TensorSpec :=
  .okOr (.NotInPlan "tensor") (plan.tensors.find? fun spec => spec.id = id)

def upload (plan : RunSpec) (id : Nat) (data : HostData) : Call Reference Error Unit := do
  let spec ← spec plan id
  Rules.sameLen (plan.tensorLen id) data.len
  Rules.sameKind spec.kind data.kind
  let range ← byteRange spec.kind (plan.tensorLen id) 0 data.len true
  overwrite id range.start (Tensor.resize data.asBytes range.bytes)

def zero (plan : RunSpec) (id : Nat) : Call Reference Error Unit := do
  let _ ← spec plan id
  overwrite id 0 (List.replicate ((← .get).contents id).length 0)

/-- What each use of a run is here. -/
def use (plan : RunSpec) : Use → Call Reference Error Unit
  | .openScope _ | .bind _ | .bindTensor _ _ | .bindNode _ _ | .closeScope _ => pure ()
  | .setDynamic d value => .modify fun ρ => ρ.setDynamic d value
  | .applyDynamics => applyDynamics plan
  | .upload id data | .uploadBound id data => upload plan id data
  | .zero id => zero plan id
  | .execute => execute plan
  | .executeCall id => executeCall plan id

/-- One use of a run as it is. -/
def Used (plan : RunSpec) (ρ : Reference) (e : UseEvent) (ρ' : Reference) : Prop :=
  use plan e.use ρ = (e.out, ρ')

end Reference

variable {plan : RunSpec} {d : Nat} {site : Site CpuBackend} {held : Nat → Tensor CpuBackend}
  {w w' : World CpuBackend} {ρ : Reference}

theorem Reference.spec_eq {spec : TensorSpec} (h : spec ∈ plan.tensors) :
    Reference.spec plan spec.id = .ok spec := by
  rw [Reference.spec, (List.find?_key_eq_some plan.nodup_tensors).mpr ⟨h, rfl⟩]
  rfl

theorem Reference.overwrite_run {id offset : Nat} {data : List UInt8}
    (h : offset + data.length ≤ (ρ.contents id).length) : Reference.overwrite id offset data ρ =
      (.ok (), { ρ with
        contents := Function.update ρ.contents id (splice (ρ.contents id) offset data) }) :=
  if_pos h

/-- What the `Dynamic`s are, uploads leave alone. -/
theorem Reference.overwrite_dynamics (id offset : Nat) (data : List UInt8) :
    Keeps (fun ρ ρ' : Reference => ρ'.dynamics = ρ.dynamics)
      (Reference.overwrite id offset data) := by
  intro ρ
  simp only [Reference.overwrite]
  split <;> rfl

theorem Reference.upload_dynamics (plan : RunSpec) (id : Nat) (data : HostData) (ρ : Reference) :
    (Reference.upload plan id data ρ).2.dynamics = ρ.dynamics := by
  have hF := frame_eq Reference.dynamics
  exact hF.lift_bind (fun _ => hF.lift_bind fun _ => hF.lift_bind fun _ => hF.lift_bind fun _ =>
    Reference.overwrite_dynamics _ _ _) ρ

theorem Reference.zero_dynamics (plan : RunSpec) (id : Nat) (ρ : Reference) :
    (Reference.zero plan id ρ).2.dynamics = ρ.dynamics := by
  have hF := frame_eq Reference.dynamics
  exact hF.lift_bind (fun _ => hF.get_bind fun _ => Reference.overwrite_dynamics _ _ _) ρ

/-! ## Uploads to tensors -/

/-- After a check that looks at no state. -/
theorem onDevice_check {α β : Type} (d : Nat) (x : Outcome Error α)
    (f : α → Call (ComputeDevice CpuBackend) Error β) (w : World CpuBackend) :
    World.onDevice d ((liftM x : Call (ComputeDevice CpuBackend) Error α) >>= f) w =
      match x with
      | .ok a => World.onDevice d (f a) w
      | .err e => (.err e, w)
      | .panic => (.panic, w) := by
  rw [onDevice_run, check_run]
  cases x with
  | ok a => rfl
  | err e => exact Prod.ext rfl (setDevice_self w d)
  | panic => exact Prod.ext rfl (setDevice_self w d)

section Upload

variable (h : Stands plan d site held w ρ) (hh : Holding plan d site held)
include h hh

/-- **A write to a tensor** of a run changes its contents and no other's. -/
theorem Stands.write {spec : TensorSpec} (hspec : spec ∈ plan.tensors) {offset : Nat}
    {data : List UInt8} (hfit : offset + data.length ≤ (ρ.contents spec.id).length) :
    Stands plan d site held
      (w.setDevice d (writeTo (held spec.id).raw offset data (w.devices d)))
      { ρ with contents :=
        Function.update ρ.contents spec.id (splice (ρ.contents spec.id) offset data) } := by
  refine ⟨h.tensors, h.nodes, ?_, ?_, fun other hother => ?_⟩
  · rw [Capture.recordingOf, World.setDevice_devices, Function.update_self]
    exact h.recording
  · rw [World.setDevice_devices, Function.update_self]
    exact h.owner
  · have hlength : (ρ.contents spec.id).length = CpuBuffer.bytes (held spec.id).raw := by
      rw [← h.contents spec hspec]
      exact length_read _ _ _
    rw [hlength] at hfit
    have hmem : memOf (w.setDevice d (writeTo (held spec.id).raw offset data (w.devices d))) d =
        ByteMemory.write (memOf w d) (CpuBuffer.ptr (held spec.id).raw + offset) data := by
      rw [memOf, World.setDevice_devices, Function.update_self]
      rfl
    rw [hmem]
    dsimp only
    by_cases he : other.id = spec.id
    · rw [he, Function.update_self, ← h.contents spec hspec, bytesIn, bytesIn,
        read_write_within (by omega), List.take_of_length_le (by omega)]
    · rw [Function.update_of_ne he, ← h.contents other hother, bytesIn, bytesIn,
        read_write_disjoint]
      refine (hh.apart spec hspec other hother (Ne.symm he)).mono
        (Range.within_of_le (Nat.le_add_right _ _) ?_) (Range.Within.refl _)
      show CpuBuffer.ptr (held spec.id).raw + offset + data.length ≤
        CpuBuffer.ptr (held spec.id).raw + CpuBuffer.bytes (held spec.id).raw
      omega

/-- The same as a call on the device. -/
theorem Stands.overwrite {spec : TensorSpec} (hspec : spec ∈ plan.tensors) (offset : Nat)
    (data : List UInt8) :
    (World.onDevice d (onRaw! (Storage.uploadRaw (held spec.id).raw offset data)) w).1 =
        (Reference.overwrite spec.id offset data ρ).1 ∧
      Stands plan d site held
        (World.onDevice d (onRaw! (Storage.uploadRaw (held spec.id).raw offset data)) w).2
        (Reference.overwrite spec.id offset data ρ).2 := by
  have hlength : (ρ.contents spec.id).length = CpuBuffer.bytes (held spec.id).raw := by
    rw [← h.contents spec hspec]
    exact length_read _ _ _
  simp only [Reference.overwrite]
  rw [onDevice_run]
  split
  · rename_i hfit
    rw [uploadRaw_run (hlength ▸ hfit)]
    exact ⟨rfl, h.write hh hspec hfit⟩
  · rename_i hfit
    have hraw : Storage.uploadRaw (B := CpuBackend) (held spec.id).raw offset data
        (w.devices d).raw = (.panic, (w.devices d).raw) := if_neg (hlength ▸ hfit)
    rw [onRaw!, mapErr_run, onRaw_run, hraw]
    exact ⟨rfl, (setDevice_self w d).symm ▸ h⟩

/-- **An upload** does the same to the tensor and to the contents. -/
theorem Stands.uploadTensor {spec : TensorSpec} (hspec : spec ∈ plan.tensors) (data : HostData) :
    (World.onDevice d ((held spec.id).upload data) w).1 =
        (Reference.upload plan spec.id data ρ).1 ∧
      Stands plan d site held (World.onDevice d ((held spec.id).upload data) w).2
        (Reference.upload plan spec.id data ρ).2 := by
  have hbuilt := hh.built spec hspec
  rw [Tensor.upload, Tensor.uploadAt, Reference.upload, Reference.spec_eq hspec,
    plan.tensorLen_eq hspec hbuilt, onDevice_check, check_run]
  simp only
  rw [← hbuilt.kind, check_run]
  rcases Rules.sameLen (held spec.id).len data.len with _ | e | _
  · simp only
    rw [onDevice_check, check_run]
    rcases Rules.sameKind (held spec.id).kind data.kind with _ | e | _
    · simp only
      rw [onDevice_check, check_run]
      rcases byteRange (held spec.id).kind (held spec.id).len 0 data.len true with range | e | _
      · exact h.overwrite hh hspec range.start _
      · exact ⟨rfl, h⟩
      · exact ⟨rfl, h⟩
    · exact ⟨rfl, h⟩
    · exact ⟨rfl, h⟩
  · exact ⟨rfl, h⟩
  · exact ⟨rfl, h⟩

/-- So does clearing. -/
theorem Stands.zeroTensor {spec : TensorSpec} (hspec : spec ∈ plan.tensors) :
    (World.onDevice d (held spec.id).zero w).1 = (Reference.zero plan spec.id ρ).1 ∧
      Stands plan d site held (World.onDevice d (held spec.id).zero w).2
        (Reference.zero plan spec.id ρ).2 := by
  have hlength : (ρ.contents spec.id).length = CpuBuffer.bytes (held spec.id).raw := by
    rw [← h.contents spec hspec]
    exact length_read _ _ _
  have howner : (CpuBuffer.owner (held spec.id).raw) = (w.devices d).raw.owner :=
    (hh.owner spec hspec).trans h.owner.symm
  have hclear : Storage.clearRaw (B := CpuBackend) (held spec.id).raw (w.devices d).raw =
      (.ok (), (w.devices d).raw.setMem (ByteMemory.write (memOf w d)
        (CpuBuffer.ptr (held spec.id).raw)
        (List.replicate (CpuBuffer.bytes (held spec.id).raw) 0))) := if_neg (not_not.mpr howner)
  have hzero : (held spec.id).zero (w.devices d) = (.ok (), writeTo (held spec.id).raw 0
      (List.replicate (CpuBuffer.bytes (held spec.id).raw) 0) (w.devices d)) := by
    rw [Tensor.zero, bind_run, mapErr_run, onRaw_run, hclear]
    rfl
  have hfit : 0 + (List.replicate (ρ.contents spec.id).length (0 : UInt8)).length ≤
      (ρ.contents spec.id).length := by
    rw [List.length_replicate, Nat.zero_add]
  have hwrite := h.write hh hspec hfit
  rw [onDevice_run, hzero, Reference.zero, Reference.spec_eq hspec, check_run]
  simp only
  rw [bind_of_ok (get_run ρ), Reference.overwrite_run hfit, ← hlength]
  exact ⟨rfl, hwrite⟩

end Upload

/-! ## Uploads to a run -/

theorem tensorMut_cases (plan : RunSpec) (d : Nat) (site : Site CpuBackend) (id : Nat) :
    (∃ spec ∈ plan.tensors, spec.id = id ∧
      (liveRun plan d site).tensorMut id = .ok (site.place id)) ∨
    ((liveRun plan d site).tensorMut id = .err (.NotInPlan "tensor") ∧
      Reference.spec plan id = .err (.NotInPlan "tensor")) := by
  rcases hfound : plan.tensors.find? fun spec => spec.id = id with _ | spec
  · refine .inr ⟨?_, by rw [Reference.spec, hfound]; rfl⟩
    have hnone : (builtTensors plan site).lookup id = none := by
      refine Option.eq_none_iff_forall_ne_some.mpr fun t ht => ?_
      obtain ⟨spec, hspec, hid, -⟩ := (AList.lookup_ofList (h := plan.tensorIds)).mp ht
      have hnot := List.find?_eq_none.mp hfound spec hspec
      simp [hid] at hnot
    have hmissing : (liveRun plan d site).anyTensor id = .err (.NotInPlan "tensor") := by
      rw [Run.anyTensor, show (liveRun plan d site).tensors.lookup id = none from hnone]
      rfl
    rw [Run.tensorMut, hmissing]
    rfl
  · obtain ⟨hspec, rfl⟩ := (List.find?_key_eq_some plan.nodup_tensors).mp hfound
    refine .inl ⟨spec, hspec, rfl, ?_⟩
    rw [Run.tensorMut, anyTensor_live hspec]
    rfl

/-- A call on a tensor of the run does what the reference interpreter does, if
it does on each of the plan's tensors. -/
theorem Stands.onTensorMut (h : Stands plan d site held w ρ) (hh : Holding plan d site held)
    {c : Tensor CpuBackend → Call (ComputeDevice CpuBackend) Error Unit}
    {g : Nat → Call Reference Error Unit}
    (hspec : ∀ spec ∈ plan.tensors, (World.onDevice d (c (held spec.id)) w).1 = (g spec.id ρ).1 ∧
      Stands plan d site held (World.onDevice d (c (held spec.id)) w).2 (g spec.id ρ).2)
    (hnone : ∀ id, Reference.spec plan id = .err (.NotInPlan "tensor") →
      g id ρ = (.err (.NotInPlan "tensor"), ρ)) (id : Nat)
    {f : Call (World CpuBackend) Error Unit}
    (hf : f = do World.onTensor (← ((liveRun plan d site).tensorMut id : Outcome Error _)) c) :
    (f w).1 = (g id ρ).1 ∧ Stands plan d site held (f w).2 (g id ρ).2 := by
  subst hf
  rcases tensorMut_cases plan d site id with ⟨spec, hmem, rfl, hlive⟩ | ⟨hlive, hmissing⟩
  · rw [hlive, check_run]
    simp only
    rw [onTensor_run (h.tensors spec hmem), (hh.built spec hmem).dev]
    exact hspec spec hmem
  · rw [hlive, check_run, hnone id hmissing]
    exact ⟨rfl, h⟩

section Run

variable (h : Stands plan d site held w ρ) (hh : Holding plan d site held)
include h hh

theorem Stands.upload (id : Nat) (data : HostData) :
    ((liveRun plan d site).upload id data w).1 = (Reference.upload plan id data ρ).1 ∧
      Stands plan d site held ((liveRun plan d site).upload id data w).2
        (Reference.upload plan id data ρ).2 := by
  refine h.onTensorMut hh (c := fun t => t.upload data)
    (g := fun id => Reference.upload plan id data)
    (fun spec hspec => h.uploadTensor hh hspec data) (fun id hid => ?_) id rfl
  rw [Reference.upload, hid, check_run]

theorem Stands.zero (id : Nat) :
    ((liveRun plan d site).zero id w).1 = (Reference.zero plan id ρ).1 ∧
      Stands plan d site held ((liveRun plan d site).zero id w).2
        (Reference.zero plan id ρ).2 := by
  refine h.onTensorMut hh (c := Tensor.zero) (g := fun id => Reference.zero plan id)
    (fun spec hspec => h.zeroTensor hh hspec) (fun id hid => ?_) id rfl
  rw [Reference.zero, hid, check_run]

/-- **An edit that leaves the run as it is** passes the checks made after it. -/
theorem Stands.checkEdited {ts cs : List Nat} (hts : ∀ id ∈ ts, id ∈ builtTensors plan site)
    (hcs : ∀ id ∈ cs, id ∈ builtCalls plan site) :
    (liveRun plan d site).checkEdited w ts cs = .ok () := by
  rw [Run.checkEdited, Outcome.check_bind_eq_ok]
  refine ⟨Outcome.forM_eq_ok.mpr fun id hid => ?_, Outcome.forM_eq_ok.mpr fun id hid => ?_⟩
  · obtain ⟨t, ht⟩ := exists_of_mem (hts id hid)
    obtain ⟨spec, hspec, rfl, rfl⟩ := (AList.lookup_ofList (h := plan.tensorIds)).mp ht
    rw [anyTensor_live hspec, Outcome.ok_bind]
    simp only
    rw [tensor_of_lookup (h.tensors spec hspec), Outcome.ok_bind, Rules.sameDevice_eq_ok]
    exact (hh.built spec hspec).dev.symm
  · obtain ⟨rc, hrc⟩ := exists_of_mem (hcs id hid)
    obtain ⟨call, hcall, rfl, rfl⟩ := AList.lookup_ofList.mp hrc
    obtain ⟨node, hnode, hn⟩ := h.nodes call hcall
    have hsame : Rules.sameDevice (liveRun plan d site).device node.dev "node" = .ok () :=
      Rules.sameDevice_eq_ok.mpr hn.dev.symm
    rw [call_live hcall, Outcome.ok_bind, node_of_lookup hnode, Outcome.ok_bind, hsame,
      Outcome.ok_bind]
    simp only
    have hkinds : (call.tensors.mapM fun id => do
        (← (liveRun plan d site).anyTensor id).kind w) =
          .ok (call.signature.layout.map BindingRole.kind) := by
      rw [Outcome.mapM_eq_ok, List.forall₂_map_right_iff]
      refine (plan.fits hcall).1.imp fun id role hspec => ?_
      obtain ⟨spec, hspec, rfl, hkind⟩ := hspec
      rw [anyTensor_live hspec, Outcome.ok_bind, AnyTensor.kind,
        tensor_of_lookup (h.tensors spec hspec), Outcome.ok_bind, ← hkind,
        ← (hh.built spec hspec).kind]
      rfl
    rw [hkinds, Outcome.ok_bind, hn.signature, Rules.slotKinds_eq_ok.mpr rfl, Outcome.ok_bind]
    exact call.node.checked

end Run

/-- An edit whose checks pass is what was done in it. -/
theorem edit_eq {run : Run} {ts cs : List Nat} {f : Call (World CpuBackend) Error Unit}
    (h : run.checkEdited (f w).2 ts cs = .ok ()) : run.edit ts cs f w = f w := by
  rw [Run.edit, bind_run, attempt_run]
  rcases hf : f w with ⟨_ | e | _, w'⟩ <;> rw [hf] at h
  · simp only
    rw [bind_of_ok (get_run w'), h, check_run]
    rfl
  · simp only
    rw [bind_of_ok (get_run w'), h, check_run]
    rfl

/-! ## Uploads to a handle -/

theorem Stands.uploadBound (h : Stands plan d site held w ρ) (hh : Holding plan d site held)
    {bound : Bound} {Copy : RunCall → List MetaValue → Prop}
    (hholds : bound.Holds Copy (liveRun plan d site) w)
    (hall : ∀ spec ∈ plan.tensors, spec.id ∈ bound.tensors) (id : Nat) (data : HostData) :
    (bound.upload id data w).1 = (Reference.upload plan id data ρ).1 ∧
      Stands plan d site held (bound.upload id data w).2 (Reference.upload plan id data ρ).2 := by
  rw [Bound.upload, Bound.tensor]
  rcases hslot : bound.tensors.lookup id with _ | slot
  · have hmissing : Reference.spec plan id = .err (.NotInPlan "tensor") := by
      rcases hfound : plan.tensors.find? fun spec => spec.id = id with _ | spec
      · rw [Reference.spec, hfound]
        rfl
      · obtain ⟨hspec, rfl⟩ := (List.find?_key_eq_some plan.nodup_tensors).mp hfound
        exact absurd (hall spec hspec) (AList.lookup_eq_none.mp hslot)
    rw [Reference.upload, hmissing, check_run, check_run]
    exact ⟨rfl, h⟩
  · obtain ⟨p, hp, scope, hscope, hbuf⟩ := hholds.tensors id slot hslot
    obtain ⟨spec, hspec, rfl, rfl⟩ := builtTensors_lookup.mp hp
    have ht : w.boundTensor scope slot = .ok (held spec.id) :=
      boundTensor_eq_ok.mpr ⟨_, hbuf, h.tensors spec hspec⟩
    rw [check_run]
    simp only [Outcome.okOr]
    rw [scopeUpload_run hscope ht, (hh.built spec hspec).dev]
    exact h.uploadTensor hh hspec data

/-! ## Uses of the session's run -/

theorem onDevice_memoryFrame {α : Type} (d : Nat) (c : Call (ComputeDevice CpuBackend) Error α) :
    Keeps World.MemoryFrame (World.onDevice d c) := by
  intro w
  rw [onDevice_run]
  exact ⟨rfl, rfl, rfl, rfl, rfl, rfl⟩

section Frames

variable {α : Type} (p : Nat) (c : Tensor CpuBackend → Call (ComputeDevice CpuBackend) Error α)

theorem onTensor_memoryFrame : Keeps World.MemoryFrame (World.onTensor p c) :=
  frame_memoryFrame.get_bind fun _ => frame_memoryFrame.lift_bind fun t =>
    onDevice_memoryFrame t.dev (c t)

end Frames

theorem upload_memoryFrame (run : Run) (id : Nat) (data : HostData) :
    Keeps World.MemoryFrame (run.upload (B := CpuBackend) id data) :=
  frame_memoryFrame.lift_bind fun p => onTensor_memoryFrame p _

theorem zero_memoryFrame (run : Run) (id : Nat) :
    Keeps World.MemoryFrame (run.zero (B := CpuBackend) id) :=
  frame_memoryFrame.lift_bind fun p => onTensor_memoryFrame p _

theorem uploadBound_memoryFrame (bound : Bound) (id : Nat) (data : HostData) :
    Keeps World.MemoryFrame (bound.upload (B := CpuBackend) id data) :=
  frame_memoryFrame.lift_bind fun _ => frame_memoryFrame.get_bind fun _ =>
    frame_memoryFrame.lift_bind fun _ => frame_memoryFrame.lift_bind fun t =>
      onDevice_memoryFrame t.dev (t.upload data)

/-- If scope `s` isn't capturing, no scope changes. -/
def ScopesRest (s : Nat) (w w' : World CpuBackend) : Prop :=
  (∀ scope, w.scopes.lookup s = some scope → scope.recording = none) → w'.scopes = w.scopes

theorem frame_scopesRest (s : Nat) : Frame (ScopesRest s) where
  refl _ _ := rfl
  trans h h' hrest := (h' ((h hrest).symm ▸ hrest)).trans (h hrest)

theorem scopeExecute_scopesRest (s n : Nat) (args : List Arg) :
    Keeps (ScopesRest s) (Scope.execute (B := CpuBackend) s n args) := by
  intro w
  have hF := frame_scopesRest s
  rw [Scope.execute, bind_of_ok (get_run w)]
  refine hF.check_bind_at fun scope hscope => hF.check_bind_at fun node _ =>
    hF.check_bind_at fun _ _ => hF.check_bind_at fun bindings _ => fun hrest => ?_
  rw [bind_run, mapErr_run, onRawDevice_run, hrest scope (Outcome.expect_eq_ok.mp hscope)]
  rcases Dispatch.executeRaw node.1 node.2.raw bindings (w.devices scope.dev).raw with
    ⟨_ | _ | _, raw⟩ <;> rfl

theorem executeCall_scopesRest (bound : Bound) (id : Nat) :
    Keeps (ScopesRest bound.scope) (bound.executeCall (B := CpuBackend) id) :=
  (frame_scopesRest bound.scope).lift_bind fun call =>
    scopeExecute_scopesRest bound.scope call.1 call.2

theorem execute_scopesRest (bound : Bound) :
    Keeps (ScopesRest bound.scope) (bound.execute (B := CpuBackend)) :=
  (frame_scopesRest bound.scope).forM fun call _ =>
    keeps_mapErr (executeCall_scopesRest bound call.1)

namespace Session

variable {first : World CpuBackend} {r : Nat} {σ σ' : Session CpuBackend}

theorem onRun_run {run : Run} (h : σ.runs.lookup r = some run)
    (c : Run → Call (World CpuBackend) Error Unit) :
    onRun r c σ = ((c run σ.world).1, { σ with world := (c run σ.world).2 }) := by
  rw [onRun, bind_of_ok (get_run σ), Session.run, h, check_run]
  rfl

theorem onBound_run {bound : Bound} (h : σ.Binds r bound)
    (c : Bound → Call (World CpuBackend) Error Unit) :
    onBound r c σ = ((c bound σ.world).1, { σ with world := (c bound σ.world).2 }) :=
  bound_run h fun _ bound => c bound

/-- What leaves tensors and nodes alone, and open scopes open, leaves alone what
a run needs. -/
theorem Sound.leaves_of_same (h : σ.Sound) (ht : w.tensors = σ.world.tensors)
    (hn : w.nodes = σ.world.nodes) (hs : ∀ s, StaysOpen σ.world w s) : σ.Leaves none w := by
  refine ⟨fun _ _ _ _ _ _ => by rw [hn], fun _ _ _ _ _ _ => by rw [ht],
    fun r run hr => ⟨?_, ?_⟩, fun r borrow scope _ => hs borrow.scope scope⟩
  · intro call hcall
    obtain ⟨id, hid⟩ := AList.mem_values.mp hcall
    exact hn ▸ h.node r id call.node ⟨run, call, hr, hid, rfl⟩
  · intro p hp
    obtain ⟨id, hid⟩ := AList.mem_values.mp hp
    exact ht ▸ h.tensor r id p ⟨run, hr, hid⟩

/-- The session goes on being followed over what leaves its run alone, if the
world still stands as the interpreter does. -/
theorem Follows.moved (h : Follows plan d site held first r σ ρ) {ρ' : Reference}
    (hleaves : σ.Leaves none w) (hdynamics : ρ'.dynamics = ρ.dynamics)
    (hstands : Stands plan d site held w ρ') :
    Follows plan d site held first r { σ with world := w } ρ' := by
  have hs : σ.Step ⟨.elsewhere (.modify fun _ => w), .ok ()⟩ { σ with world := w } := ⟨hleaves, rfl⟩
  refine ⟨h.sound.step hs, h.handled.step hs h.kept.copies,
    h.kept.step h.sound h.handled ⟨hs, fun _ _ _ hact => by cases hact⟩, h.run, fun bound hb => ?_,
    hdynamics.trans h.dynamics, hstands⟩
  obtain ⟨borrow, hborrow, hhandle⟩ := hb
  obtain ⟨hsame, -⟩ := h.handled r borrow bound hborrow hhandle
  refine (h.fits bound ⟨borrow, hborrow, hhandle⟩).stays fun scope hscope => ?_
  rw [hsame] at hscope ⊢
  exact hleaves.scopes r borrow scope hborrow hscope

/-- **The session's run is in use**: it is followed, and its handle has a slot for
each of its tensors, in an open scope. No tensor has moved since the world was
`first`. -/
structure InUse (plan : RunSpec) (d : Nat) (site : Site CpuBackend)
    (held : Nat → Tensor CpuBackend) (first : World CpuBackend) (r : Nat)
    (σ : Session CpuBackend) (ρ : Reference) : Prop
    extends Follows plan d site held first r σ ρ where
  complete : ∀ bound, σ.Binds r bound → ∀ spec ∈ plan.tensors, spec.id ∈ bound.tensors
  bound : ∀ bound, σ.Binds r bound → OpenOn σ.world d bound.scope
  scopes : ScopesOpen d σ.world
  tensors : σ.world.tensors = first.tensors

/-- The scope of its handle. -/
theorem InUse.opened (h : InUse plan d site held first r σ ρ) {bound : Bound}
    (hb : σ.Binds r bound) :
    ∃ scope, σ.world.scopes.lookup bound.scope = some scope ∧ OpenFor d σ.world scope := by
  obtain ⟨scope, hscope, hdev⟩ := h.bound bound hb
  exact ⟨scope, hscope, h.scopes _ scope hscope hdev⟩

/-- A scope at rest stays so when a call of its handle is made. -/
theorem InUse.rests (h : InUse plan d site held first r σ ρ) {bound : Bound}
    (hb : σ.Binds r bound) {f : Call (World CpuBackend) Error Unit}
    (hf : Keeps (ScopesRest bound.scope) f) (s : Nat) :
    (f σ.world).2.scopes.lookup s = σ.world.scopes.lookup s := by
  rw [hf σ.world fun scope hscope => ?_]
  obtain ⟨scope', hscope', hopen⟩ := h.opened hb
  obtain rfl := Option.some.inj (hscope.symm.trans hscope')
  exact hopen.recording

/-- What changes no scope, no tensor and no borrow leaves a run in use, if it
goes on being followed. -/
theorem InUse.stays (h : InUse plan d site held first r σ ρ) {ρ' : Reference}
    (hfollows : Follows plan d site held first r σ' ρ') (hb : σ'.borrows = σ.borrows)
    (hs : ∀ s, σ'.world.scopes.lookup s = σ.world.scopes.lookup s)
    (ht : σ'.world.tensors = σ.world.tensors) : InUse plan d site held first r σ' ρ' := by
  have hbinds : ∀ bound, σ'.Binds r bound → σ.Binds r bound := fun bound hbound => by
    obtain ⟨borrow, hborrow, hhandle⟩ := hbound
    exact ⟨borrow, hb ▸ hborrow, hhandle⟩
  refine ⟨hfollows, fun bound hbound => h.complete bound (hbinds bound hbound),
    fun bound hbound => ?_, fun s scope hscope hdev => ?_, ht.trans h.tensors⟩
  · obtain ⟨scope, hscope, hdev⟩ := h.bound bound (hbinds bound hbound)
    exact ⟨scope, (hs _).trans hscope, hdev⟩
  · exact (h.scopes s scope ((hs s).symm.trans hscope) hdev).same ht

/-- Only memory has changed. -/
theorem InUse.written (h : InUse plan d site held first r σ ρ) {ρ' : Reference}
    (hframe : World.MemoryFrame σ.world w) (hdynamics : ρ'.dynamics = ρ.dynamics)
    (hstands : Stands plan d site held w ρ') :
    InUse plan d site held first r { σ with world := w } ρ' := by
  have hleaves := h.sound.leaves_of_same hframe.tensors hframe.nodes fun _ scope hscope =>
    ⟨scope, hframe.scopes ▸ hscope, .refl scope⟩
  exact h.stays (h.moved hleaves hdynamics hstands) rfl
    (fun _ => by rw [hframe.scopes]) hframe.tensors

/-- Something has been bound beside the run. -/
theorem InUse.beside (h : InUse plan d site held first r σ ρ) {s : Nat}
    (hbound : BoundIn d s σ.world w) (hopen : ∀ s', StaysOpen σ.world w s') :
    InUse plan d site held first r { σ with world := w } ρ := by
  have hscopes := h.scopes.bound hbound
  have hstands := h.stands.onlyScope hbound.only
  obtain ⟨⟨scopes, rfl, -⟩, -⟩ := hbound
  refine ⟨h.moved (h.sound.leaves_of_same rfl rfl hopen) rfl hstands, h.complete,
    fun bound hb => ?_, hscopes, h.tensors⟩
  obtain ⟨scope, hscope, hdev⟩ := h.bound bound hb
  obtain ⟨scope', hscope', he⟩ := hopen bound.scope scope hscope
  exact ⟨scope', hscope', he.dev.trans hdev⟩

/-- A call on the world that writes to its memory only, as the reference
interpreter does. -/
theorem InUse.writes (h : InUse plan d site held first r σ ρ)
    {c : Call (Session CpuBackend) Error Unit} {f : Call (World CpuBackend) Error Unit}
    {ref : Call Reference Error Unit}
    (hrun : c σ = ((f σ.world).1, { σ with world := (f σ.world).2 }))
    (hframe : Keeps World.MemoryFrame f) (hdynamics : (ref ρ).2.dynamics = ρ.dynamics)
    (hf : (f σ.world).1 = (ref ρ).1 ∧ Stands plan d site held (f σ.world).2 (ref ρ).2) :
    ref ρ = ((c σ).1, (ref ρ).2) ∧ InUse plan d site held first r (c σ).2 (ref ρ).2 := by
  rw [hrun]
  exact ⟨Prod.ext hf.1.symm rfl, h.written (hframe σ.world) hdynamics hf.2⟩

/-- A bind beside the run. -/
theorem InUse.bindsBeside (h : InUse plan d site held first r σ ρ) {s : Nat} {α : Type}
    {f : Call (World CpuBackend) Error α}
    (hbinds : ∃ slot w, f σ.world = (.ok slot, w) ∧ BoundIn d s σ.world w)
    (hopen : ∀ s', StaysOpen σ.world (f σ.world).2 s')
    {c : Call (Session CpuBackend) Error Unit} (hc : c = do let _ ← onWorld f) :
    (c σ).1 = .ok () ∧ InUse plan d site held first r (c σ).2 ρ := by
  obtain ⟨slot, w, hbind, hbound⟩ := hbinds
  have hrun : c σ = (.ok (), { σ with world := w }) := by
    rw [hc, onWorld, bind_run, zoom_run, hbind]
    rfl
  rw [hbind] at hopen
  rw [hrun]
  exact ⟨rfl, h.beside hbound hopen⟩

/-- After the run at `r` was bound in `s`. -/
abbrev afterBind (σ : Session CpuBackend) (r s : Nat) (bound : Bound) (w : World CpuBackend) :
    Session CpuBackend :=
  { σ with world := w, borrows := (σ.borrows.insert r ⟨s, none⟩).insert r ⟨s, some bound⟩ }

theorem afterBind_binds {s : Nat} {bound bound' : Bound}
    (h : (σ.afterBind r s bound w).Binds r bound') : bound' = bound := by
  obtain ⟨borrow, hborrow, hhandle⟩ := h
  rw [AList.lookup_insert] at hborrow
  cases hborrow
  cases hhandle
  rfl

/-- **Binding succeeds**, whatever is bound in the scope already. -/
theorem InUse.binds (h : InUse plan d site held first r σ ρ) (hh : Holding plan d site held)
    {s : Nat} {ts cs : List Nat} (horders : σ.Orders r ts cs) (hon : OpenOn σ.world d s) :
    ∃ bound w, Session.bind r s ts cs σ = (.ok (), σ.afterBind r s bound w) ∧
      BoundIn d s σ.world w ∧ bound.scope = s ∧ ∀ spec ∈ plan.tensors, spec.id ∈ bound.tensors := by
  obtain ⟨run, hrun, hts, hcs⟩ := horders
  obtain rfl := Option.some.inj (h.run.symm.trans hrun)
  obtain ⟨scope, hscope, hdev⟩ := hon
  obtain ⟨bound, w, hbind, hbound⟩ :=
    bind_returns h.stands hscope (h.scopes s scope hscope hdev) hh hts hcs
  have hsession := bind_session_run h.run s ts cs
  rw [hbind] at hsession
  refine ⟨bound, w, hsession, hbound, (bind_holds hbind).1, fun spec hspec => ?_⟩
  rw [bind_mem hbind, hts.mem_iff]
  exact mem_liveRun hspec

section Step

variable (h : InUse plan d site held first r σ ρ) (hh : Holding plan d site held)
include h hh

/-- An upload to a run that is lent by `edit`. -/
theorem InUse.edited {ts cs : List Nat} (horders : σ.Orders r ts cs)
    {f : Call (World CpuBackend) Error Unit} {ref : Call Reference Error Unit}
    (hf : (f σ.world).1 = (ref ρ).1 ∧ Stands plan d site held (f σ.world).2 (ref ρ).2) :
    (liveRun plan d site).edit ts cs f σ.world = f σ.world := by
  obtain ⟨run, hrun, hts, hcs⟩ := horders
  obtain rfl := Option.some.inj (h.run.symm.trans hrun)
  refine edit_eq (hf.2.checkEdited hh (fun id hid => ?_) fun id hid => ?_)
  · exact AList.mem_keys.mpr (hts.mem_iff.mp hid)
  · exact AList.mem_keys.mpr (hcs.mem_iff.mp hid)

/-- **Step rule.** Each use of a run as it is does what the reference
interpreter does. -/
theorem InUse.plain (hfirst : ∀ call ∈ plan.calls, ∃ node,
      first.nodes.lookup (site.address call.id) = some node ∧ NodeOf call d (fun _ => 0) node)
    {e : UseEvent} (hs : σ.Plain r d e σ') :
    ∃ ρ', Reference.Used plan ρ e ρ' ∧ InUse plan d site held first r σ' ρ' := by
  obtain ⟨ha, ts, cs, horders, hp⟩ := hs
  rcases e with ⟨use, out⟩
  obtain rfl : (use.plain r d ts cs σ).1 = out := congrArg Prod.fst hp
  obtain rfl : (use.plain r d ts cs σ).2 = σ' := congrArg Prod.snd hp
  clear hp
  -- a step of the plan layer
  have hstep : ∀ act : PlanAct CpuBackend, act.Allowed σ →
      OnlyUses r d σ ⟨act, (act.perform σ).1⟩ → ∃ ρ', Reference.Step plan ρ
        (⟨act, (act.perform σ).1⟩ : PlanEvent CpuBackend) ρ' ∧
        Follows plan d site held first r (act.perform σ).2 ρ' :=
    fun act hact huses => h.toFollows.step hh hfirst ⟨⟨hact, rfl⟩, huses⟩
  cases use with
  | openScope s =>
    have hne : ∀ {s' scope}, σ.world.scopes.lookup s' = some scope → s' ≠ s := by
      rintro s' scope hs' rfl
      cases hs'.symm.trans ha
    have hopen : ∀ s', StaysOpen σ.world (Scope.openOn s d σ.world).2 s' := fun s' scope hs' =>
      ⟨scope, (AList.lookup_insert_ne (hne hs')).trans hs', .refl scope⟩
    refine ⟨ρ, rfl, h.beside ⟨onlyScope_setScope s _ σ.world, _, AList.lookup_insert _,
      .new d _⟩ hopen⟩
  | bind s =>
    obtain ⟨howns, hon⟩ := ha
    obtain ⟨bound, w, hbind, hbound, hsame, hcomplete⟩ := h.binds hh horders hon
    obtain ⟨run, hrun, hts, hcs⟩ := id horders
    obtain ⟨scope, hscope, -⟩ := hon
    obtain ⟨ρ', rfl, hfollows⟩ := hstep (.bind r s ts cs)
      ⟨howns, AList.lookup_isSome.mp (by rw [hscope]; rfl), run, hrun, hts, hcs⟩ rfl
    have hrun : Use.plain r d ts cs (.bind s) σ = _ := hbind
    have hperform : (PlanAct.bind r s ts cs).perform σ = _ := hbind
    rw [hperform] at hfollows
    rw [hrun]
    have hscopes := h.scopes.bound hbound
    obtain ⟨⟨scopes, rfl, -⟩, scope', hscope', hopen⟩ := hbound
    refine ⟨ρ', rfl, hfollows, fun bound' hb => afterBind_binds hb ▸ hcomplete,
      fun bound' hb => ?_, hscopes, h.tensors⟩
    rw [afterBind_binds hb, hsame]
    exact ⟨scope', hscope', hopen.dev⟩
  | bindTensor s p =>
    obtain ⟨⟨scope, hscope, hdev⟩, t, ht, hdevT⟩ := ha
    have hbinds := scopeBind_returns hscope (h.scopes s scope hscope hdev) ht hdevT
    obtain ⟨hout, huse⟩ := h.bindsBeside hbinds (scopeBind_onward s p σ.world).staysOpen rfl
    exact ⟨ρ, Prod.ext hout.symm rfl, huse⟩
  | bindNode s a =>
    obtain ⟨⟨scope, hscope, hdev⟩, node, hn, hdevN⟩ := ha
    have hbinds := scopeBindNode_returns hscope (h.scopes s scope hscope hdev) hn hdevN
    obtain ⟨hout, huse⟩ := h.bindsBeside hbinds (scopeBindNode_onward s a σ.world).staysOpen rfl
    exact ⟨ρ, Prod.ext hout.symm rfl, huse⟩
  | closeScope s =>
    obtain ⟨ρ', rfl, hfollows⟩ := hstep (.closeScope s) ha trivial
    have hperform : (PlanAct.closeScope s).perform σ = _ := closeScope_run s ha
    have hrun : Use.plain r d ts cs (.closeScope s) σ = _ := closeScope_run s ha
    obtain ⟨scope, hscope⟩ := exists_of_mem ha
    rw [close_run hscope] at hrun hperform
    rw [hperform] at hfollows
    rw [hrun]
    have hbinds : ∀ bound, Session.Binds { σ with
        borrows := σ.borrows.keep fun borrow => borrow.scope ≠ s } r bound →
        σ.Binds r bound ∧ bound.scope ≠ s := by
      rintro bound ⟨borrow, hborrow, hhandle⟩
      obtain ⟨hborrow, hne⟩ := AList.lookup_keep.mp hborrow
      refine ⟨⟨borrow, hborrow, hhandle⟩, ?_⟩
      rw [(h.handled r borrow bound hborrow hhandle).1]
      simpa using hne
    refine ⟨ρ', rfl, hfollows, fun bound hb => h.complete bound (hbinds bound hb).1,
      fun bound hb => ?_, fun s' scope' hscope' hdev => ?_, h.tensors⟩
    · obtain ⟨scope', hscope', hdev⟩ := h.bound bound (hbinds bound hb).1
      exact ⟨scope', (AList.lookup_erase_ne (hbinds bound hb).2).trans hscope', hdev⟩
    · by_cases he : s' = s
      · rw [he] at hscope'
        cases (AList.lookup_erase s σ.world.scopes).symm.trans hscope'
      · exact (h.scopes s' scope' ((AList.lookup_erase_ne he).symm.trans hscope') hdev).same rfl
  | setDynamic d' value =>
    obtain ⟨ρ', rfl, hfollows⟩ := hstep (.setDynamic d' value) trivial trivial
    exact ⟨_, rfl, h.stays hfollows rfl (fun _ => rfl) rfl⟩
  | applyDynamics =>
    obtain ⟨ρ', href, hfollows⟩ := hstep (.applyDynamics r) ha rfl
    obtain ⟨bound, hb⟩ := ha
    have hrun : Use.plain r d ts cs .applyDynamics σ = _ :=
      bound_run hb fun dynamics bound => bound.applyDynamics dynamics
    have hperform : (PlanAct.applyDynamics r).perform σ = _ := hrun
    have hmetas := applyDynamics_onlyMetas bound σ.dynamics σ.world
    rw [hperform] at href hfollows
    rw [hrun]
    exact ⟨ρ', href, h.stays hfollows rfl (fun _ => by rw [hmetas.scopes]) hmetas.tensors⟩
  | upload id data =>
    have hf := h.stands.upload hh id data
    have hrun : Use.plain r d ts cs (.upload id data) σ = _ := onRun_run h.run _
    rw [h.edited hh horders hf] at hrun
    exact ⟨_, h.writes hrun (upload_memoryFrame _ id data)
      (Reference.upload_dynamics plan id data ρ) hf⟩
  | zero id =>
    have hf := h.stands.zero hh id
    have hrun : Use.plain r d ts cs (.zero id) σ = _ := onRun_run h.run _
    rw [h.edited hh horders hf] at hrun
    exact ⟨_, h.writes hrun (zero_memoryFrame _ id) (Reference.zero_dynamics plan id ρ) hf⟩
  | uploadBound id data =>
    obtain ⟨bound, hb⟩ := ha
    exact ⟨_, h.writes (onBound_run hb _) (uploadBound_memoryFrame bound id data)
      (Reference.upload_dynamics plan id data ρ)
      (h.stands.uploadBound hh (h.holds hb).1 (h.complete bound hb) id data)⟩
  | execute =>
    obtain ⟨ρ', href, hfollows⟩ := hstep (.execute r) ha rfl
    obtain ⟨bound, hb⟩ := ha
    have hrun : Use.plain r d ts cs .execute σ = _ := bound_run hb fun _ bound => bound.execute
    have hperform : (PlanAct.execute r).perform σ = _ := hrun
    rw [hperform] at href hfollows
    rw [hrun]
    exact ⟨ρ', href, h.stays hfollows rfl (h.rests hb (execute_scopesRest bound))
      (execute_executed bound σ.world).tensors⟩
  | executeCall id =>
    obtain ⟨ρ', href, hfollows⟩ := hstep (.executeCall r id) ha rfl
    obtain ⟨bound, hb⟩ := ha
    have hrun : Use.plain r d ts cs (.executeCall id) σ = _ :=
      bound_run hb fun _ bound => bound.executeCall id
    have hperform : (PlanAct.executeCall r id).perform σ = _ := hrun
    rw [hperform] at href hfollows
    rw [hrun]
    exact ⟨ρ', href, h.stays hfollows rfl (h.rests hb (executeCall_scopesRest bound id))
      (executeCall_executed bound id σ.world).tensors⟩

end Step

end Session

end Wilupgu.Plan
