import Wilupgu.Plan.Spec

/-! # Built plans

src/tools/plan/run.rs. A run owns places: those its live tensors and its nodes
stand at. A live tensor keeps its place when it moves to another run. What a
`HashMap` holds is looked up by id; the order in which it is gone through is
given, and may be any. -/

namespace Wilupgu.Plan

open Backend Call

/-! ## Runs -/

/-- A tensor of a run: live, at a place, or hollow. -/
inductive AnyTensor where
  | Live (p : Nat)
  | Hollow (t : HollowTensor)
  deriving DecidableEq

/-- A built `CallSpec`: its node's place, the ids of its tensors, and where
each field of its meta comes from. -/
structure RunCall where
  node : Nat
  tensors : List Nat
  sources : List MetaSource

structure Run where
  device : Nat
  tensors : Places AnyTensor
  calls : Places RunCall
  order : List Nat

variable {B : Type} [Storage B] [Dispatch B] [Capturable B] [Areable B]

namespace AnyTensor

def kind (w : World B) : AnyTensor → Outcome Error DataKind
  | Live p => do return (← w.tensor p).kind
  | Hollow t => return t.kind

def len (w : World B) : AnyTensor → Outcome Error Nat
  | Live p => do return (← w.tensor p).len
  | Hollow t => return t.len

def isHollow : AnyTensor → Bool
  | Live _ => false
  | Hollow _ => true

def live : AnyTensor → Outcome Error Nat
  | Live p => .ok p
  | Hollow _ => .err .Hollow

end AnyTensor

namespace Run

def anyTensor (run : Run) (id : Nat) : Outcome Error AnyTensor :=
  .okOr (.NotInPlan "tensor") (run.tensors.lookup id)

def call (run : Run) (id : Nat) : Outcome Error RunCall :=
  .okOr (.NotInPlan "call") (run.calls.lookup id)

end Run

/-! ## Building -/

/-- Where a plan's tensors and nodes are put, by their ids, what decides where
new memory is put, and the order a map is gone through in. -/
structure Site (B : Type) [Storage B] where
  place : Nat → Nat
  address : Nat → Nat
  env : Nat → Storage.Env B
  order : List Nat → List Nat
  perm : ∀ ids, (order ids).Perm ids

/-- `collect` over calls that each make one thing: where one fails, what was
made is dropped. -/
def buildAll {σ ε : Type} (order : List Nat → List Nat) (drop : Nat → Call σ ε Unit) :
    List Nat → List (Nat × Call σ ε Unit) → Call σ ε Unit
  | _, [] => pure ()
  | made, (id, build) :: rest => do
    build.orDrop ((order made).forM drop)
    buildAll order drop (id :: made) rest

section Building

variable [Topology B]

def TensorSpec.fill (spec : TensorSpec) (p : Nat) : Call (World B) Error Unit :=
  match spec.init with
  | .Blank => pure ()
  | .Upload data => World.onTensor p fun t => t.upload data
  | .Zero => World.onTensor p Tensor.zero

/-- The tensor, at `p`. -/
def TensorSpec.build (spec : TensorSpec) (d : Nat) (env : Storage.Env B) (p : Nat) :
    Call (World B) Error Unit := do
  spec.ready
  World.alloc d env p spec.kind (← spec.len.value)
  (spec.fill p).orDrop (World.dropTensor p)

/-- The node, at `a`. -/
def NodeSpec.build (spec : NodeSpec) (d a : Nat) : Call (World B) Error Unit := do
  let metaVals ← (spec.metaSources.mapM MetaSource.buildValue : Outcome Error _)
  World.buildNode d a spec.shader metaVals (← spec.workgroups.value)

namespace Run

/-- Dropping a run drops its tensors, then its nodes. -/
def drop (run : Run) (order : List Nat → List Nat) : Call (World B) Error Unit := do
  (order run.tensors.keys).forM fun id =>
    match run.tensors.lookup id with
    | some (.Live p) => World.dropTensor p
    | _ => pure ()
  (order run.calls.keys).forM fun id =>
    match run.calls.lookup id with
    | some call => World.dropNode call.node
    | none => pure ()

/-- Is each tensor as long as its slot needs? -/
def longEnough (run : Run) (w : World B) (ids : List Nat) : Outcome Error Unit :=
  ids.forM fun id => do
    let call ← run.call id
    let node ← w.node call.node
    (call.tensors.zip node.lens).zipIdx.forM fun ((id, needs), slot) => do
      let tensor ← run.anyTensor id
      Rules.longEnough node.signature slot needs (← tensor.len w)

def withTensors (plan : RunSpec) (d : Nat) (site : Site B) (tensors : Places AnyTensor) :
    Call (World B) Error Run := do
  let run : Run :=
    { device := d
      tensors
      calls := .ofList CallSpec.id
        (fun spec => ⟨site.address spec.id, spec.tensors, spec.node.metaSources⟩)
        plan.calls plan.callIds
      order := plan.calls.map CallSpec.id }
  (buildAll site.order (fun id => World.dropNode (site.address id)) []
    (plan.calls.map fun spec => (spec.id, spec.node.build d (site.address spec.id)))).orDrop
    (drop { run with calls := ∅ } site.order)
  (do run.longEnough (← .get) (site.order run.calls.keys) : Call (World B) Error Unit).orDrop
    (run.drop site.order)
  return run

def build (plan : RunSpec) (d : Nat) (site : Site B) : Call (World B) Error Run := do
  buildAll site.order (fun id => World.dropTensor (site.place id)) []
    (plan.tensors.map fun spec => (spec.id, spec.build d (site.env spec.id) (site.place spec.id)))
  withTensors plan d site
    (.ofList TensorSpec.id (fun spec => .Live (site.place spec.id)) plan.tensors plan.tensorIds)

def hollowTensors (plan : RunSpec) : Outcome Error (List ((_ : Nat) × AnyTensor)) :=
  plan.tensors.mapM fun spec => do return ⟨spec.id, .Hollow (← spec.buildHollow)⟩

def buildHollow (plan : RunSpec) (d : Nat) (site : Site B) : Call (World B) Error Run := do
  let tensors ← hollowTensors plan
  withTensors plan d site tensors.toAList

end Run

def RunSpec.build (plan : RunSpec) (d : Nat) (site : Site B) : Call (World B) Error Run := do
  plan.ready
  Run.build plan d site

def RunSpec.buildHollow (plan : RunSpec) (d : Nat) (site : Site B) :
    Call (World B) Error Run := do
  (plan.calls.forM CallSpec.ready : Outcome Error Unit)
  Run.buildHollow plan d site

end Building

/-! ## Changing -/

namespace Run

/-- `fill_from`'s checks: the hollow place and the live tensor that change places. -/
def fills (run source : Run) (w : World B) (id : Nat) : Outcome Error (AnyTensor × AnyTensor) := do
  Rules.sameDevice run.device source.device "tensor"
  let place ← run.anyTensor id
  let live ← source.anyTensor id
  if !place.isHollow then .err .NotHollow
  else
    let _ ← live.live
    Rules.sameKind (← place.kind w) (← live.kind w)
    Rules.sameLen (← place.len w) (← live.len w)
    return (place, live)

/-- `fill_from` on the run and the one it takes the tensor from. -/
def fillFrom (w : World B) (id : Nat) : Call (Run × Run) Error Unit := do
  let (run, source) ← .get
  let (place, live) ← run.fills source w id
  .modify fun (run, source) =>
    ({ run with tensors := run.tensors.insert id live },
      { source with tensors := source.tensors.insert id place })

/-- The checks of `edit`, made once the program has its runs back. -/
def checkEdited (run : Run) (w : World B) (ts cs : List Nat) : Outcome Error Unit := do
  ts.forM fun id => do
    match ← run.anyTensor id with
    | .Live p => Rules.sameDevice run.device (← w.tensor p).dev "tensor"
    | .Hollow _ => return
  cs.forM fun id => do
    let call ← run.call id
    let node ← w.node call.node
    Rules.sameDevice run.device node.dev "node"
    let kinds ← call.tensors.mapM fun id => do (← run.anyTensor id).kind w
    Rules.slotKinds node.signature kinds
    Rules.metaTypes node.signature (call.sources.map MetaSource.ty)

/-- `f` may change what stands at the run's places, and the rest of the world. -/
def edit {α : Type} (run : Run) (ts cs : List Nat) (f : Call (World B) Error α) :
    Call (World B) Error α := do
  let out ← f.attempt
  run.checkEdited (← .get) ts cs
  match out with
  | .ok a => return a
  | .error e => Call.lift (.err e)

end Run

/-! ## Running -/

/-- A node with a per-run meta field: its slot, its meta when bound, and where
each field comes from. -/
structure PerRun where
  node : Nat
  metaVals : List MetaValue
  sources : List MetaSource

/-- A run bound into a scope. -/
structure Bound where
  scope : Nat
  tensors : Places Nat
  calls : Places (Nat × List Arg)
  perRun : List PerRun
  order : List Nat

namespace Run

/-- One argument per tensor the call names and slot its node has. -/
def args (call : RunCall) (layout : List BindingRole) (tensors : Places Nat) :
    Outcome Error (List Arg) :=
  (call.tensors.zip layout).mapM fun (id, role) => do
    let slot ← .okOr (.NotInPlan "tensor") (tensors.lookup id)
    return if role.isInput then .Read slot else .Write slot

def bindTensors (run : Run) (s : Nat) : List Nat → Places Nat → Call (World B) Error (Places Nat)
  | [], tensors => return tensors
  | id :: rest, tensors => do
    let tensor ← run.anyTensor id
    let slot ← Scope.bind s (← tensor.live)
    bindTensors run s rest (tensors.insert id slot)

def bindCall (run : Run) (id : Nat) (bound : Bound) : Call (World B) Error Bound := do
  let call ← run.call id
  let node ← (← .get).node call.node
  let args ← args call node.signature.layout bound.tensors
  let slot ← Scope.bindNode bound.scope call.node
  let perRun := if call.sources.any MetaSource.isPerRun then
      bound.perRun ++ [⟨slot, node.metaVals, call.sources⟩]
    else bound.perRun
  return { bound with calls := bound.calls.insert id (slot, args), perRun }

def bindCalls (run : Run) : List Nat → Bound → Call (World B) Error Bound
  | [], bound => return bound
  | id :: rest, bound => do bindCalls run rest (← run.bindCall id bound)

/-- Binds every tensor and node, the tensors in the order `ts`, the nodes in
the order `cs`. -/
def bind (run : Run) (s : Nat) (ts cs : List Nat) : Call (World B) Error Bound := do
  let tensors ← run.bindTensors s ts ∅
  run.bindCalls cs { scope := s, tensors, calls := ∅, perRun := [], order := run.order }

end Run

/-- The values of the `Dynamic`s now. -/
abbrev Dynamics := Nat → Option UInt32

def Dynamics.read (dynamics : Dynamics) (d : Nat) : Outcome Error UInt32 :=
  .okOr .DynamicUnset (dynamics d)

/-- A field's value: its `Dynamic`'s now, or the one it has. -/
def MetaSource.read (dynamics : Dynamics) (now : MetaValue) : MetaSource → Outcome Error MetaValue
  | UintPerRun d => do return .Uint (← dynamics.read d)
  | FloatPerRun d => do return .Float (← dynamics.read d)
  | _ => return now

/-- The meta for each node with a per-run field. -/
def readDynamics (dynamics : Dynamics) (perRun : List PerRun) :
    Outcome Error (List (Nat × List MetaValue)) :=
  perRun.mapM fun entry => do
    let metaVals ← (entry.sources.zip entry.metaVals).mapM fun (source, now) =>
      source.read dynamics now
    return (entry.node, metaVals)

namespace Bound

def executeCall (bound : Bound) (id : Nat) : Call (World B) Error Unit := do
  let (node, args) ← (.okOr (.NotInPlan "call") (bound.calls.lookup id) : Outcome Error _)
  Scope.execute bound.scope node args

/-- Queues every call, in order. -/
def execute (bound : Bound) : Call (World B) Error Unit :=
  bound.order.zipIdx.forM fun (id, index) => (bound.executeCall id).mapErr (.InCall index)

def applyDynamics (bound : Bound) (dynamics : Dynamics) : Call (World B) Error Unit := do
  let metas ← readDynamics dynamics bound.perRun
  metas.forM fun (node, metaVals) => Scope.updateMeta bound.scope node metaVals

end Bound
end Wilupgu.Plan
