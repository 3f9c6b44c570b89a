import Wilupgu.Lib.ByteMemory
import Wilupgu.Lib.CommandQueue
import Wilupgu.Backend.Contract

/-! # The wgpu backend

src/backends/wgpu.rs, its methods that hand work to wgpu's queue. A method
takes the lock once, so a run of any threads is a sequence of methods in the
order they took it. What wgpu makes of its queue is `CommandQueue`: a batch is
a finished encoder, a write a `write_buffer`.

A meta buffer is read as a whole, so it is kept as its words. What a device
that is gone makes panic is left out. -/

namespace Wilupgu.Backends

open Backend ByteMemory CommandQueue

/-- What a dispatch leaves in the bound buffers, from the number of
workgroups, the meta and what was in them. -/
abbrev Pipeline := Workgroups → List UInt32 → List (List UInt8) → List (List UInt8)

structure WgpuBuffer where
  buf : Nat
  bytes : Nat
  owner : Nat
  deriving DecidableEq

structure WgpuNode where
  signature : Signature
  pipeline : Pipeline
  metaBuf : Nat
  workgroups : Workgroups
  owner : Nat

/-! ## The device -/

/-- The buffers of an `alloc_raw`, and the staging buffers of the downloads. -/
inductive Place where
  | Buffer (n : Nat)
  | Staging (n : Nat)
  deriving DecidableEq

/-- What is in the buffers and in the nodes' metas. -/
structure Contents where
  buffers : Nat → Mem
  metas : Nat → List UInt32

namespace Contents

def setBuffer (n : Nat) (mem : Mem) (c : Contents) : Contents :=
  { c with buffers := Function.update c.buffers n mem }

def setMeta (n : Nat) (words : List UInt32) (c : Contents) : Contents :=
  { c with metas := Function.update c.metas n words }

def upload (buf : WgpuBuffer) (offset : Nat) (data : List UInt8) (c : Contents) : Contents :=
  c.setBuffer buf.buf (write (c.buffers buf.buf) offset data)

def writeMeta (node : WgpuNode) (words : List UInt32) (c : Contents) : Contents :=
  c.setMeta node.metaBuf (Splice.splice (c.metas node.metaBuf) 0 words)

def clear (buf : WgpuBuffer) (c : Contents) : Contents :=
  c.setBuffer buf.buf (write (c.buffers buf.buf) 0 (List.replicate buf.bytes 0))

/-- What the slots of a dispatch hold after it. -/
def writeBack (c : Contents) : List (Access WgpuBuffer) → List (List UInt8) → Contents
  | .Read _ :: bindings, _ :: outs => writeBack c bindings outs
  | .Write buf :: bindings, bytes :: outs => writeBack (c.upload buf 0 bytes) bindings outs
  | _, _ => c

def dispatch (node : WgpuNode) (bindings : List (Access WgpuBuffer)) (c : Contents) : Contents :=
  c.writeBack bindings (node.pipeline node.workgroups (c.metas node.metaBuf)
    (bindings.map fun a => read (c.buffers a.buf.buf) 0 a.buf.bytes))

end Contents

/-- What an encoder records. -/
inductive Command where
  | Copy (src srcOffset : Nat) (dst : Place) (dstOffset bytes : Nat)
  | Clear (buf : WgpuBuffer)
  | Dispatch (node : WgpuNode) (bindings : List (Access WgpuBuffer))

/-- What a `write_buffer` writes. -/
inductive Write where
  | Buffer (buf : WgpuBuffer) (offset : Nat) (data : List UInt8)
  | Meta (node : WgpuNode) (words : List UInt32)

/-- The device's memory. `seen` is what every dispatch so far found in its meta. -/
structure Gpu where
  contents : Contents
  stagings : Nat → Mem
  seen : List (Nat × List UInt32)

namespace Gpu

/-- No staging buffer is written yet: a new one is zeroed. -/
def init (contents : Contents) : Gpu := ⟨contents, fun _ _ => 0, []⟩

def copy (src srcOffset : Nat) (dst : Place) (dstOffset bytes : Nat) (g : Gpu) : Gpu :=
  let data := read (g.contents.buffers src) srcOffset bytes
  match dst with
  | .Buffer n =>
    { g with contents := g.contents.setBuffer n (write (g.contents.buffers n) dstOffset data) }
  | .Staging n =>
    { g with stagings := Function.update g.stagings n (write (g.stagings n) dstOffset data) }

/-- What a command or a write does to the memory. -/
def run (act : Command ⊕ Write) (g : Gpu) : Gpu :=
  match act with
  | .inl (.Copy src srcOffset dst dstOffset bytes) => g.copy src srcOffset dst dstOffset bytes
  | .inl (.Clear buf) => { g with contents := g.contents.clear buf }
  | .inl (.Dispatch node bindings) =>
    { g with
      contents := g.contents.dispatch node bindings
      seen := g.seen ++ [(node.metaBuf, g.contents.metas node.metaBuf)] }
  | .inr (.Buffer buf offset data) => { g with contents := g.contents.upload buf offset data }
  | .inr (.Meta node words) => { g with contents := g.contents.writeMeta node words }

/-- The memory after the device did these. -/
def after (ran : List (Job Command Write)) (g : Gpu) : Gpu := effect run (ran.map Job.act) g

end Gpu

/-! ## The backend -/

/-- Commands recorded but not submitted yet. -/
structure Pending where
  encoder : Option (List Command)
  commands : UInt32

structure Limits where
  maxStorageBufferBindingSize : Nat

/-- `queue` is all that was handed to wgpu's queue, `stagings` how many staging
buffers were made. -/
structure WgpuBackend where
  submitEvery : UInt8
  owner : Nat
  limits : Limits
  pending : Pending
  queue : List (Item Command Write)
  stagings : Nat

namespace WgpuBackend

def attach (owner : Nat) (limits : Limits) : WgpuBackend := ⟨1, owner, limits, ⟨none, 0⟩, [], 0⟩

def checkOwner (raw : WgpuBackend) (owner : Nat) (what : String) : Outcome String Unit :=
  if owner = raw.owner then .ok () else .err s!"wgpu: {what} belongs to another device"

def submit (raw : WgpuBackend) : WgpuBackend :=
  { raw with
    pending := ⟨none, 0⟩
    queue := match raw.pending.encoder with
      | some encoder => raw.queue ++ [.submit encoder]
      | none => raw.queue }

/-- `get_or_insert_with`, then the command. -/
def encode (command : Command) (raw : WgpuBackend) : WgpuBackend :=
  let encoder := raw.pending.encoder.getD []
  { raw with pending := { raw.pending with encoder := some (encoder ++ [command]) } }

/-- `pending.commands += 1`, which wraps, as in a release build. -/
def count (raw : WgpuBackend) : WgpuBackend :=
  { raw with pending := { raw.pending with commands := raw.pending.commands + 1 } }

/-- Records one command, then submits if `submit_every` is reached. -/
def record (command : Command) (raw : WgpuBackend) : WgpuBackend :=
  let recorded := (raw.encode command).count
  if recorded.submitEvery ≠ 0 ∧ recorded.submitEvery.toUInt32 ≤ recorded.pending.commands then
    recorded.submit
  else recorded

def writeBuffer (w : Write) (raw : WgpuBackend) : WgpuBackend :=
  { raw with queue := raw.queue ++ [.write w] }

def synchronize (raw : WgpuBackend) : WgpuBackend := raw.submit

def uploadRaw (buf : WgpuBuffer) (offset : Nat) (data : List UInt8) :
    Call WgpuBackend String Unit :=
  .modify fun raw => raw.submit.writeBuffer (.Buffer buf offset data)

/-- A staging buffer that `download_raw` maps once the device is done, and how
many bytes it has. -/
structure Mapped where
  staging : Nat
  bytes : Nat

/-- `download_raw` up to where it waits. -/
def downloadRaw (buf : WgpuBuffer) (offset bytes : Nat) :
    Call WgpuBackend String (Option Mapped) where
  run raw :=
    if bytes = 0 then (.ok none, raw.synchronize)
    else
      let staging := raw.stagings
      let raw := { raw with stagings := staging + 1 }
      (.ok (some ⟨staging, bytes⟩),
        (raw.encode (.Copy buf.buf offset (.Staging staging) 0 bytes)).submit)

def copyRaw (src : WgpuBuffer) (srcOffset : Nat) (dst : WgpuBuffer) (dstOffset bytes : Nat) :
    Call WgpuBackend String Unit := do
  let raw ← .get
  raw.checkOwner src.owner "copy_raw: the source"
  raw.checkOwner dst.owner "copy_raw: the destination"
  if bytes > 0 then
    .modify (record (.Copy src.buf srcOffset (.Buffer dst.buf) dstOffset bytes))

def clearRaw (buf : WgpuBuffer) : Call WgpuBackend String Unit := do
  let raw ← .get
  raw.checkOwner buf.owner "clear_raw: the buffer"
  .modify (record (.Clear buf))

def updateMeta (node : WgpuNode) (words : List UInt32) : Call WgpuBackend String Unit :=
  .modify fun raw => raw.submit.writeBuffer (.Meta node words)

/-- What stops an `execute_raw`. -/
def checkBindings (raw : WgpuBackend) (node : WgpuNode) (bindings : List (Access WgpuBuffer)) :
    Outcome String Unit := do
  let name := node.signature.name
  let limit := raw.limits.maxStorageBufferBindingSize
  raw.checkOwner node.owner s!"shader `{name}`: the node"
  (bindings.zipIdx 1).forM fun slot => do
    let buf := slot.1.buf
    raw.checkOwner buf.owner s!"shader `{name}`: a bound buffer"
    if limit < buf.bytes then
      .err (s!"wgpu: shader `{name}`: slot {slot.2} is {buf.bytes} bytes, " ++
        s!"over this device's binding limit of {limit}")

def executeRaw (node : WgpuNode) (bindings : List (Access WgpuBuffer)) :
    Call WgpuBackend String Unit := do
  let raw ← .get
  raw.checkBindings node bindings
  .modify (record (.Dispatch node bindings))

end WgpuBackend

/-! ## Operations -/

/-- A method of the backend, or a store to `submit_every`. -/
inductive WgpuOp where
  | upload (buf : WgpuBuffer) (offset : Nat) (data : List UInt8)
  | download (buf : WgpuBuffer) (offset bytes : Nat)
  | copy (src : WgpuBuffer) (srcOffset : Nat) (dst : WgpuBuffer) (dstOffset bytes : Nat)
  | clear (buf : WgpuBuffer)
  | updateMeta (node : WgpuNode) (words : List UInt32)
  | execute (node : WgpuNode) (bindings : List (Access WgpuBuffer))
  | synchronize
  | setSubmitEvery (every : UInt8)

namespace WgpuOp

open WgpuBackend

/-- The operation, up to where it waits. -/
def perform : WgpuOp → Call WgpuBackend String (Option Mapped)
  | upload buf offset data => do uploadRaw buf offset data; return none
  | download buf offset bytes => downloadRaw buf offset bytes
  | copy src srcOffset dst dstOffset bytes => do
    copyRaw src srcOffset dst dstOffset bytes
    return none
  | clear buf => do clearRaw buf; return none
  | updateMeta node words => do WgpuBackend.updateMeta node words; return none
  | execute node bindings => do executeRaw node bindings; return none
  | synchronize => do Call.modify WgpuBackend.synchronize; return none
  | setSubmitEvery every => do
    Call.modify fun raw => { raw with submitEvery := every }
    return none

def performAll (ops : List WgpuOp) (raw : WgpuBackend) : WgpuBackend :=
  ops.foldl (fun raw op => (op.perform raw).2) raw

/-- What an operation returns once the device's memory is `g`: the bytes of a
download, nothing otherwise. -/
def answer (r : Outcome String (Option Mapped)) (g : Gpu) : Outcome String (List UInt8) := do
  match ← r with
  | some m => return read (g.stagings m.staging) 0 m.bytes
  | none => return []

/-! ## One by one -/

/-- What the operation is for, done at once. It looks at nothing of the
backend but which one it is. -/
def apply (raw : WgpuBackend) : WgpuOp → Call Contents String (List UInt8)
  | upload buf offset data => do Call.modify (Contents.upload buf offset data); return []
  | download buf offset bytes => do
    let c ← .get
    return read (c.buffers buf.buf) offset bytes
  | copy src srcOffset dst dstOffset bytes => do
    raw.checkOwner src.owner "copy_raw: the source"
    raw.checkOwner dst.owner "copy_raw: the destination"
    let c ← .get
    .modify (Contents.upload dst dstOffset (read (c.buffers src.buf) srcOffset bytes))
    return []
  | clear buf => do
    raw.checkOwner buf.owner "clear_raw: the buffer"
    .modify (Contents.clear buf)
    return []
  | updateMeta node words => do Call.modify (Contents.writeMeta node words); return []
  | execute node bindings => do
    raw.checkBindings node bindings
    .modify (Contents.dispatch node bindings)
    return []
  | synchronize | setSubmitEvery _ => return []

def applyAll (raw : WgpuBackend) (ops : List WgpuOp) (c : Contents) : Contents :=
  ops.foldl (fun c op => (op.apply raw c).2) c

/-- What the dispatches of these operations should see, from what the metas
are before: the words last written. -/
def sees (raw : WgpuBackend) : List WgpuOp → (Nat → List UInt32) → List (Nat × List UInt32)
  | [], _ => []
  | updateMeta node words :: ops, metas =>
    sees raw ops (Function.update metas node.metaBuf (Splice.splice (metas node.metaBuf) 0 words))
  | execute node bindings :: ops, metas =>
    if (raw.checkBindings node bindings).isOk then
      (node.metaBuf, metas node.metaBuf) :: sees raw ops metas
    else sees raw ops metas
  | _ :: ops, metas => sees raw ops metas

end WgpuOp

end Wilupgu.Backends
