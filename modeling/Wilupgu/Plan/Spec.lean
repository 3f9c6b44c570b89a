import Wilupgu.Safe.Scope

/-! # Plans before they are built

src/tools/plan/{tensor,node,call}.rs and the specs of run.rs. A `Resolvable`
stands in a spec as what it reads as when the spec is used. Each spec keeps
the check it passed when it was made. -/

namespace Wilupgu.Plan

open Backend Rounding

/-- A `Resolvable<T>` as it reads now. -/
abbrev Known (α : Type) := Option α

def Known.value {α : Type} (r : Known α) : Outcome Error α := .okOr .NotGivenYet r

/-! ## Tensors -/

inductive TensorInit where
  | Blank
  | Upload (data : HostData)
  | Zero

/-- Data to upload is of the tensor's kind. -/
def TensorInit.check (kind : DataKind) : TensorInit → Outcome Error Unit
  | Upload data => Rules.sameKind kind data.kind
  | _ => .ok ()

structure TensorSpec where
  id : Nat
  kind : DataKind
  len : Known Nat
  init : TensorInit
  checked : init.check kind = .ok ()

def TensorSpec.new (id : Nat) (kind : DataKind) (len : Known Nat) (init : TensorInit) :
    Outcome Error TensorSpec := .checked (init.check kind) fun h => ⟨id, kind, len, init, h⟩

def TensorSpec.ready (spec : TensorSpec) : Outcome Error Unit := do
  let len ← spec.len.value
  match spec.init with
  | .Upload data => Rules.sameLen (nextMultipleOf len spec.kind.elemsPerHostWord) data.len
  | _ => .ok ()

/-- A tensor that lives in another run. -/
structure HollowTensor where
  kind : DataKind
  len : Nat
  deriving DecidableEq

def TensorSpec.buildHollow (spec : TensorSpec) : Outcome Error HollowTensor := do
  return { kind := spec.kind, len := ← spec.len.value }

/-! ## Nodes -/

/-- Where one meta field's value comes from. A `Dynamic` is a number. -/
inductive MetaSource where
  | Uint (r : Known UInt32)
  | Float (r : Known UInt32)
  | UintPerRun (d : Nat)
  | FloatPerRun (d : Nat)

namespace MetaSource

def ty : MetaSource → MetaType
  | Uint _ | UintPerRun _ => .Uint
  | Float _ | FloatPerRun _ => .Float

def isPerRun : MetaSource → Bool
  | UintPerRun _ | FloatPerRun _ => true
  | _ => false

/-- The value a node is built with. -/
def buildValue : MetaSource → Outcome Error MetaValue
  | Uint r => do return .Uint (← r.value)
  | Float r => do return .Float (← r.value)
  | UintPerRun _ => return .Uint 0
  | FloatPerRun _ => return .Float 0

end MetaSource

structure NodeSpec where
  shader : Shader
  metaSources : List MetaSource
  workgroups : Known Workgroups
  checked : Rules.metaTypes shader.signature (metaSources.map MetaSource.ty) = .ok ()

def NodeSpec.new (shader : Shader) (metaSources : List MetaSource) (workgroups : Known Workgroups) :
    Outcome Error NodeSpec :=
  .checked (Rules.metaTypes shader.signature (metaSources.map MetaSource.ty)) fun h =>
    ⟨shader, metaSources, workgroups, h⟩

def NodeSpec.ready (spec : NodeSpec) : Outcome Error Unit := do
  let _ ← spec.workgroups.value
  spec.metaSources.forM fun source => do
    let _ ← source.buildValue

/-! ## Calls -/

structure CallSpec where
  id : Nat
  node : NodeSpec
  tensors : List Nat
  checked : Rules.slotCount node.shader.signature tensors.length = .ok ()

def CallSpec.new (id : Nat) (node : NodeSpec) (tensors : List Nat) : Outcome Error CallSpec :=
  .checked (Rules.slotCount node.shader.signature tensors.length) fun h => ⟨id, node, tensors, h⟩

def CallSpec.ready (spec : CallSpec) : Outcome Error Unit := spec.node.ready

/-! ## Runs -/

/-- Specs can't be cloned, so no two of one plan have one id. -/
structure RunDesc where
  tensors : List TensorSpec
  calls : List CallSpec
  tensorIds : (tensors.map TensorSpec.id).Nodup
  callIds : (calls.map CallSpec.id).Nodup

/-- The checks of `RunSpec::new`, of the calls of a plan against its tensors. -/
def checkCalls (tensors : List TensorSpec) (calls : List CallSpec) : Outcome Error Unit :=
  calls.forM fun call => do
    let kinds ← call.tensors.mapM fun id => do
      let tensor ← .okOr (.NotInPlan "tensor") (tensors.find? fun t => t.id = id)
      return tensor.kind
    Rules.slotKinds call.node.shader.signature kinds
    Rules.notAliased call.node.shader.signature call.tensors

def RunDesc.check (desc : RunDesc) : Outcome Error Unit := checkCalls desc.tensors desc.calls

structure RunSpec extends RunDesc where
  checked : toRunDesc.check = .ok ()

def RunSpec.new (desc : RunDesc) : Outcome Error RunSpec := .checked desc.check fun h => ⟨desc, h⟩

def RunSpec.ready (plan : RunSpec) : Outcome Error Unit := do
  plan.tensors.forM TensorSpec.ready
  plan.calls.forM CallSpec.ready

/-- What a plan's check says of each of its calls. -/
theorem RunSpec.fits (plan : RunSpec) {call : CallSpec} (hcall : call ∈ plan.calls) :
    List.Forall₂ (fun id role => ∃ spec ∈ plan.tensors, spec.id = id ∧ spec.kind = role.kind)
      call.tensors call.node.shader.signature.layout ∧
    Rules.notAliased call.node.shader.signature call.tensors = .ok () := by
  have hchecked := Outcome.forM_eq_ok.mp plan.checked call hcall
  obtain ⟨kinds, hkinds, hchecked⟩ := Outcome.bind_eq_ok.mp hchecked
  obtain ⟨hslots, halias⟩ := Outcome.check_bind_eq_ok.mp hchecked
  refine ⟨?_, halias⟩
  have hall := Outcome.mapM_eq_ok.mp hkinds
  rw [← Rules.slotKinds_eq_ok.mp hslots, List.forall₂_map_right_iff] at hall
  refine hall.imp fun id role h => ?_
  obtain ⟨spec, hspec, hkind⟩ := Outcome.bind_eq_ok.mp h
  have hfound := Outcome.okOr_eq_ok.mp hspec
  refine ⟨spec, List.mem_of_find?_eq_some hfound, ?_, Outcome.ok.inj hkind⟩
  simpa using List.find?_some hfound

end Wilupgu.Plan
