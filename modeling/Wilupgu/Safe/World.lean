import Wilupgu.Lib.Places
import Wilupgu.Safe.Device
import Mathlib.Logic.Function.Basic
import Mathlib.Tactic.Simps.Basic

/-! # What a program holds

A program using the safe layer: its devices, the places its tensors, nodes
and areas stand at, the open scopes and the recordings. A node's place is its
address. What the program may do with a place is the borrow checker's rule:
nothing, while it is bound in an open scope. -/

namespace Wilupgu

open Backend

/-- One tensor slot's buffer in `Scope.execute`, by its slot in the scope. -/
inductive Arg where
  | Read (slot : Nat)
  | Write (slot : Nat)
  deriving DecidableEq

namespace Arg

def slot : Arg → Nat
  | Read slot | Write slot => slot

def isWrite : Arg → Bool
  | Read _ => false
  | Write _ => true

/-- What it gives the backend, for the buffer of its tensor. -/
def access {Buf : Type} (arg : Arg) (buf : Buf) : Access Buf :=
  match arg with
  | Read _ => .Read buf
  | Write _ => .Write buf

end Arg

inductive RecordedArg where
  | Read (address : Nat)
  | Write (address : Nat)
  deriving DecidableEq

namespace RecordedArg

def address : RecordedArg → Nat
  | Read a | Write a => a

def isWrite : RecordedArg → Bool
  | Read _ => false
  | Write _ => true

def ofAccess {B : Type} [Storage B] : Access (Storage.Buffer B) → RecordedArg
  | .Read buf => Read (Storage.address buf)
  | .Write buf => Write (Storage.address buf)

/-- The argument it is again, its tensor now being at `slot`. -/
def arg (slot : Nat) : RecordedArg → Arg
  | Read _ => .Read slot
  | Write _ => .Write slot

end RecordedArg

/-- One `execute` queued during `capture`: the node and each slot's buffer, by
address. `uid` says which node it was; no function reads it. -/
structure RecordedCall where
  node : Nat
  args : List RecordedArg
  uid : Nat
  deriving DecidableEq

/-- GPU work on one device. `bufs` and `nodes` are the places of what is bound.
`inCapture` says that control is inside `capture`, and no function reads it. -/
structure Scope where
  dev : Nat
  bufs : List Nat
  nodes : List Nat
  recording : Option (List RecordedCall)
  inCapture : Bool
  deriving DecidableEq

/-- Runs recorded by `Scope.capture`. -/
structure Recording (B : Type) [Storage B] [Dispatch B] [Capturable B] where
  raw : Capturable.Capture B
  calls : List RecordedCall
  dev : Nat

structure World (B : Type) [Storage B] [Dispatch B] [Capturable B] [Areable B] where
  devices : Nat → ComputeDevice B
  tensors : Places (Tensor B)
  nodes : Places (Node B)
  areas : Places (DeviceArea B)
  scopes : Places Scope
  recordings : Places (Recording B)
  /-- The `uid` of the next node. -/
  nextUid : Nat

namespace World

variable {B : Type} [Storage B] [Dispatch B] [Capturable B] [Areable B] {ε α : Type}

/-- A program that has opened its devices and made nothing yet. -/
def init (raws : Nat → B) (poolBytes : Nat → Nat) : World B :=
  ⟨fun d => .new (raws d) (poolBytes d), ∅, ∅, ∅, ∅, ∅, 0⟩

/-! ## What is borrowed -/

/-- The tensor at `p` is bound in an open scope. -/
def TensorBound (w : World B) (p : Nat) : Prop := ∃ scope ∈ w.scopes.values, p ∈ scope.bufs

/-- The node at `a` is bound in an open scope. -/
def NodeBound (w : World B) (a : Nat) : Prop := ∃ scope ∈ w.scopes.values, a ∈ scope.nodes

/-- A tensor cut out of the area at `a` lives. -/
def AreaBorrowed (w : World B) (a : Nat) : Prop :=
  ∃ t ∈ w.tensors.values, ∃ buf, t.mem = .Carved a buf

instance (w : World B) (p : Nat) : Decidable (w.TensorBound p) :=
  inferInstanceAs (Decidable (∃ scope ∈ w.scopes.values, p ∈ scope.bufs))

instance (w : World B) (a : Nat) : Decidable (w.NodeBound a) :=
  inferInstanceAs (Decidable (∃ scope ∈ w.scopes.values, a ∈ scope.nodes))

instance (a : Nat) (t : Tensor B) : Decidable (∃ buf, t.mem = .Carved a buf) :=
  match h : t.mem with
  | .Alloc _ => isFalse fun ⟨_, he⟩ => by cases he
  | .Carved area buf =>
    if ha : area = a then isTrue ⟨buf, by rw [ha]⟩
    else isFalse fun ⟨_, he⟩ => ha (by cases he; rfl)

instance (w : World B) (a : Nat) : Decidable (w.AreaBorrowed a) :=
  inferInstanceAs (Decidable (∃ t ∈ w.tensors.values, ∃ buf, t.mem = .Carved a buf))

/-- A tensor the program has to itself stands at `p`. -/
def HoldsTensor (w : World B) (p : Nat) : Prop := p ∈ w.tensors ∧ ¬w.TensorBound p

/-- A node the program has to itself stands at `a`. -/
def HoldsNode (w : World B) (a : Nat) : Prop := a ∈ w.nodes ∧ ¬w.NodeBound a

instance (w : World B) (p : Nat) : Decidable (w.HoldsTensor p) :=
  inferInstanceAs (Decidable (_ ∧ _))

instance (w : World B) (a : Nat) : Decidable (w.HoldsNode a) :=
  inferInstanceAs (Decidable (_ ∧ _))

/-! ## Following references -/

def tensor (w : World B) (p : Nat) : Outcome Error (Tensor B) := .expect (w.tensors.lookup p)

def node (w : World B) (a : Nat) : Outcome Error (Node B) := .expect (w.nodes.lookup a)

def area (w : World B) (a : Nat) : Outcome Error (DeviceArea B) := .expect (w.areas.lookup a)

def scope (w : World B) (s : Nat) : Outcome Error Scope := .expect (w.scopes.lookup s)

def recording (w : World B) (r : Nat) : Outcome Error (Recording B) := .expect (w.recordings.lookup r)

/-- `&*bufs[i]`. -/
def boundTensor (w : World B) (scope : Scope) (i : Nat) : Outcome Error (Tensor B) := do
  w.tensor (← .expect scope.bufs[i]?)

/-- `&*nodes[i]`, with its address. -/
def boundNode (w : World B) (scope : Scope) (i : Nat) : Outcome Error (Nat × Node B) := do
  let address ← .expect scope.nodes[i]?
  return (address, ← w.node address)

/-! ## Changing a part -/

@[simps]
def setTensors (tensors : Places (Tensor B)) (w : World B) : World B := { w with tensors }

@[simps]
def setNodes (nodes : Places (Node B)) (w : World B) : World B := { w with nodes }

@[simps]
def setAreas (areas : Places (DeviceArea B)) (w : World B) : World B := { w with areas }

@[simps]
def setScopes (scopes : Places Scope) (w : World B) : World B := { w with scopes }

@[simps]
def setScope (s : Nat) (scope : Scope) (w : World B) : World B :=
  { w with scopes := w.scopes.insert s scope }

@[simps]
def setRecordings (recordings : Places (Recording B)) (w : World B) : World B :=
  { w with recordings }

@[simps]
def setDevice (d : Nat) (dev : ComputeDevice B) (w : World B) : World B :=
  { w with devices := Function.update w.devices d dev }

/-- A call on device `d`. -/
def onDevice (d : Nat) (c : Call (ComputeDevice B) ε α) : Call (World B) ε α :=
  Call.zoom (fun w => w.devices d) (setDevice d) c

/-- A call on the raw device `d`. -/
def onRawDevice (d : Nat) (c : Call B ε α) : Call (World B) ε α := onDevice d (onRaw c)

/-! ### Tensors and areas -/

section Tensors

variable [Topology B]

def alloc (d : Nat) (env : Storage.Env B) (p : Nat) (kind : DataKind) (len : Nat) :
    Call (World B) Error Unit := do
  let t ← onDevice d (ComputeDevice.alloc d env kind len)
  .modify fun w => w.setTensors (w.tensors.insert p t)

def reserve (d : Nat) (env : Storage.Env B) (a bytes : Nat) : Call (World B) Error Unit := do
  let area ← onDevice d (ComputeDevice.reserve d env bytes)
  .modify fun w => w.setAreas (w.areas.insert a area)

def carve (a p : Nat) (kind : DataKind) (len : Nat) : Call (World B) Error Unit := do
  let area ← (← .get).area a
  let (t, area) ← onDevice area.dev (area.alloc a kind len)
  .modify fun w => (w.setTensors (w.tensors.insert p t)).setAreas (w.areas.insert a area)

end Tensors

def dropArea (a : Nat) : Call (World B) Error Unit := do
  let area ← (← .get).area a
  .modify fun w => w.setAreas (w.areas.erase a)
  onDevice area.dev area.drop

def dropTensor (p : Nat) : Call (World B) Error Unit := do
  let t ← (← .get).tensor p
  .modify fun w => w.setTensors (w.tensors.erase p)
  onDevice t.dev t.drop

def moveTensor (p q : Nat) : Call (World B) Error Unit :=
  .modify fun w => w.setTensors (w.tensors.move p q)

/-- `Tensor::replace` with the tensor at `q`, the old one being put there. -/
def replaceTensor (p q : Nat) : Call (World B) Error Unit := do
  let w ← .get
  (← w.tensor p).fits (← w.tensor q)
  .modify fun w => w.setTensors (w.tensors.swap p q)

/-- A call on the tensor at `p`. -/
def onTensor (p : Nat) (c : Tensor B → Call (ComputeDevice B) Error α) :
    Call (World B) Error α := do
  let t ← (← .get).tensor p
  onDevice t.dev (c t)

def copyInto (p srcOffset q dstOffset len : Nat) : Call (World B) Error Unit := do
  let dst ← (← .get).tensor q
  onTensor p fun src => src.copyInto srcOffset dst dstOffset len

/-! ### Nodes -/

def buildNode [Topology B] (d a : Nat) (shader : Shader) (metaVals : List MetaValue)
    (workgroups : Workgroups) : Call (World B) Error Unit := do
  let uid := (← .get).nextUid
  let node ← onDevice d (ComputeDevice.node d uid shader metaVals workgroups)
  .modify fun w => { w.setNodes (w.nodes.insert a node) with nextUid := uid + 1 }

def dropNode (a : Nat) : Call (World B) Error Unit := do
  let node ← (← .get).node a
  .modify fun w => w.setNodes (w.nodes.erase a)
  onDevice node.dev node.drop

def moveNode (a b : Nat) : Call (World B) Error Unit :=
  .modify fun w => w.setNodes (w.nodes.move a b)

/-- `Node::replace` with the node at `b`, the old one being put there. -/
def replaceNode (a b : Nat) : Call (World B) Error Unit := do
  let w ← .get
  (← w.node a).fits (← w.node b)
  .modify fun w => w.setNodes (w.nodes.swap a b)

/-- `Node::update_meta` on the node at `a`. -/
def updateMeta (a : Nat) (metaVals : List MetaValue) : Call (World B) Error Unit := do
  let node ← (← .get).node a
  .zoom (fun w => (w.devices node.dev, node))
    (fun (dev, node') w => (w.setDevice node.dev dev).setNodes (w.nodes.insert a node'))
    (Node.updateMeta metaVals)

end World
end Wilupgu
