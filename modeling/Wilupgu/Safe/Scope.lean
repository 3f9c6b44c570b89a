import Wilupgu.Safe.World

/-! # Scopes

src/safe/scope.rs. A scope is named by its number, so its methods are calls on
the world. `capture` runs the program's closure between its beginning and its
end, so it is a call for each; a closure that panics ends it the third way. -/

namespace Wilupgu.Scope

open Backend

variable {B : Type} [Storage B] [Dispatch B] [Capturable B] [Areable B]

/-- Where `ComputeDevice::scope` starts. -/
def new (dev : Nat) : Scope := ⟨dev, [], [], none, false⟩

/-- Its start. -/
def openOn (s d : Nat) : Call (World B) Error Unit := .modify (World.setScope s (new d))

/-- Its end, on return and on panic: the device is waited for. -/
def close (s : Nat) : Call (World B) Error Unit := do
  let scope ← (← .get).scope s
  .modify fun w => w.setScopes (w.scopes.erase s)
  World.onDevice scope.dev Tensor.synchronize

/-- Binds the tensor at `p` until the scope ends. -/
def bind (s p : Nat) : Call (World B) Error Nat := do
  let w ← .get
  let scope ← w.scope s
  Rules.sameDevice scope.dev (← w.tensor p).dev "tensor"
  .modify (World.setScope s { scope with bufs := scope.bufs ++ [p] })
  return scope.bufs.length

/-- Binds the node at `a` until the scope ends. -/
def bindNode (s a : Nat) : Call (World B) Error Nat := do
  let w ← .get
  let scope ← w.scope s
  Rules.sameDevice scope.dev (← w.node a).dev "node"
  .modify (World.setScope s { scope with nodes := scope.nodes ++ [a] })
  return scope.nodes.length

def upload (s slot : Nat) (data : HostData) : Call (World B) Error Unit := do
  let w ← .get
  let t ← w.boundTensor (← w.scope s) slot
  World.onDevice t.dev (t.upload data)

def download (s slot : Nat) : Call (World B) Error HostData := do
  let w ← .get
  let t ← w.boundTensor (← w.scope s) slot
  World.onDevice t.dev t.download

/-- `Tensor.copyInto` between two bound tensors, without waiting. -/
def copy (s src srcOffset dst dstOffset len : Nat) : Call (World B) Error Unit := do
  if src = dst then Call.lift (.err .SameTensor)
  else
    let w ← .get
    let scope ← w.scope s
    let src ← w.boundTensor scope src
    let dst ← w.boundTensor scope dst
    World.onDevice scope.dev (src.copyChecked srcOffset dst dstOffset len)

def updateMeta (s slot : Nat) (metaVals : List MetaValue) : Call (World B) Error Unit := do
  let w ← .get
  let (address, _) ← w.boundNode (← w.scope s) slot
  World.updateMeta address metaVals

/-- `execute`'s checks, made again for every call a replay runs. -/
def check (w : World B) (scope : Scope) (node : Node B) (args : List Arg) : Outcome Error Unit := do
  let shader := node.signature
  let tensors ← args.mapM fun arg => w.boundTensor scope arg.slot
  Rules.slotKinds shader (tensors.map Tensor.kind)
  (args.zip shader.layout).zipIdx.forM fun ((arg, role), slot) => do
    Rules.slotAccess shader slot role arg.isWrite
    Rules.longEnough shader slot (← .expect node.lens[slot]?) (← .expect tensors[slot]?).len
  Rules.notAliased shader (args.map Arg.slot)

/-- What each slot gives the backend. -/
def access (w : World B) (scope : Scope) (args : List Arg) :
    Outcome Error (List (Access (Storage.Buffer B))) :=
  args.mapM fun arg => do return arg.access (← w.boundTensor scope arg.slot).raw

/-- Queues `node` to run on `args`, one per tensor slot in slot order. -/
def execute (s node : Nat) (args : List Arg) : Call (World B) Error Unit := do
  let w ← .get
  let scope ← w.scope s
  let (address, node) ← w.boundNode scope node
  check w scope node args
  let bindings ← access w scope args
  let recorded : RecordedCall := ⟨address, bindings.map RecordedArg.ofAccess, node.uid⟩
  (World.onRawDevice scope.dev (Dispatch.executeRaw address node.raw bindings)).mapErr Error.Backend
  match scope.recording with
  | some calls => .modify (World.setScope s { scope with recording := some (calls ++ [recorded]) })
  | none => return

/-! ## Recording -/

/-- `capture` up to the call of its closure. -/
def beginCapture (s : Nat) : Call (World B) Error Unit := do
  let scope ← (← .get).scope s
  if scope.recording.isSome then Call.lift (.err .AlreadyCapturing)
  else
    let recording := { scope with recording := some [] }
    .modify (World.setScope s recording)
    (World.onRawDevice scope.dev Capturable.beginCapture).mapErr Empty.elim
    .modify (World.setScope s { recording with inCapture := true })

/-- `capture` after its closure returned `result`; the recording is put at `r`. -/
def endCapture (s r : Nat) (result : Except Error Unit) : Call (World B) Error Unit := do
  let scope ← (← .get).scope s
  .modify (World.setScope s { scope with recording := none, inCapture := false })
  let calls ← (.expect scope.recording : Outcome Error _)
  let raw ← (World.onRawDevice scope.dev Capturable.endCapture).mapErr Error.Backend
  match result with
  | .ok () => .modify fun w => w.setRecordings (w.recordings.insert r ⟨raw, calls, scope.dev⟩)
  | .error e =>
    World.onRawDevice scope.dev (.modify (Capturable.releaseCapture raw))
    Call.lift (.err e)

/-- `EndCaptureOnDrop`: `capture` after its closure panicked. -/
def unwindCapture (s : Nat) : Call (World B) Error Unit := do
  let scope ← (← .get).scope s
  .modify (World.setScope s { scope with recording := none, inCapture := false })
  match ← (World.onRawDevice scope.dev Capturable.endCapture).attempt with
  | .ok raw => World.onRawDevice scope.dev (.modify (Capturable.releaseCapture raw))
  | .error _ => return

/-- All of `capture`, its closure being `f`. -/
def capture (s r : Nat) (f : Call (World B) Error Unit) : Call (World B) Error Unit := do
  beginCapture s
  let result ← f.attempt.orDrop (unwindCapture s)
  endCapture s r result

/-- `ComputeDevice::scope`, with `f` run in the new scope. -/
def inScope (s d : Nat) (f : Call (World B) Error Unit) : Call (World B) Error Unit := do
  openOn s d
  let result ← f.attempt.orDrop (close s)
  close s
  match result with
  | .ok () => return
  | .error e => Call.lift (.err e)

/-- The node and the arguments of a recorded call, found by address among what
is bound in the scope. -/
def locate (w : World B) (scope : Scope) (call : RecordedCall) :
    Outcome Error (Node B × List Arg) := do
  let index ← .okOr (.NotBound "node") (scope.nodes.findIdx? fun a => a = call.node)
  let (_, node) ← w.boundNode scope index
  let args ← call.args.mapM fun arg => do
    let index ← .okOr (.NotBound "tensor") (scope.bufs.findIdx? fun p =>
      (w.tensors.lookup p).any fun t => Storage.address t.raw = arg.address)
    return arg.arg index
  return (node, args)

/-- The node that a raw node's address leads to. -/
def rawNode (w : World B) (address : Nat) : Option (Dispatch.Node B) :=
  (w.nodes.lookup address).map Node.raw

/-- Everything `replay` does before it reaches the backend. -/
def checkRecorded (w : World B) (scope : Scope) (recording : Recording B) : Outcome Error Unit := do
  Rules.sameDevice scope.dev recording.dev "recording"
  if scope.recording.isSome then .err .ReplayWhileCapturing
  else recording.calls.forM fun call => do
    let (node, args) ← locate w scope call
    check w scope node args

/-- Queues the recorded runs again, in order. -/
def replay (s r : Nat) : Call (World B) Error Unit := do
  let w ← .get
  let scope ← w.scope s
  let recording ← w.recording r
  checkRecorded w scope recording
  (World.onRawDevice scope.dev (Capturable.replay (rawNode w) recording.raw)).mapErr Error.Backend

/-- Dropping a recording frees what the device holds for it. -/
def dropRecording (r : Nat) : Call (World B) Error Unit := do
  let recording ← (← .get).recording r
  .modify fun w => w.setRecordings (w.recordings.erase r)
  World.onRawDevice recording.dev (.modify (Capturable.releaseCapture recording.raw))

end Wilupgu.Scope
