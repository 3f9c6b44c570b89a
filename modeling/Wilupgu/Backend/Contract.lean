import Wilupgu.Lib.Call
import Wilupgu.Backend.Shader

/-! # The backend contract

The traits of src/backend/mod.rs. `B` is a raw device with all it owns, its
memory included, so a method is a `Call` on it; buffers and nodes are handles.
What the trait's documentation promises of a backend, and the code above
relies on, are the `Lawful` classes. -/

namespace Wilupgu.Backend

/-- Offsets and lengths given to `Storage` are multiples of this many bytes. -/
def copyAlign : Nat := 4

/-- One tensor slot's buffer, given to `executeRaw`. -/
inductive Access (Buf : Type) where
  | Read (buf : Buf)
  | Write (buf : Buf)
  deriving DecidableEq

namespace Access

variable {Buf : Type}

def buf : Access Buf → Buf
  | Read b | Write b => b

def isWrite : Access Buf → Bool
  | Read _ => false
  | Write _ => true

end Access

/-- What a device's `DeviceInfo` says. -/
class Topology (B : Type) where
  label : B → String
  supportsKind : B → DataKind → Bool

/-- The memory side of a device. `Env` is what decides where new memory is
put; `dropBuffer` is the buffer's own drop. -/
class Storage (B : Type) where
  Buffer : Type
  Env : Type
  sizeBytes : Buffer → Nat
  address : Buffer → Nat
  allocRaw : Env → Nat → Call B String Buffer
  uploadRaw : Buffer → Nat → List UInt8 → Call B Empty Unit
  downloadRaw : Buffer → Nat → Nat → Call B Empty (List UInt8)
  copyRaw : Buffer → Nat → Buffer → Nat → Nat → Call B String Unit
  clearRaw : Buffer → Call B String Unit
  dropBuffer : Buffer → B → B

/-- The compute side of a device. A recording keeps a node's address, so
`executeRaw` gets it with the node. `metaWords` are the words in the node's
meta buffer. -/
class Dispatch (B : Type) [Storage B] where
  Node : Type
  signature : Node → Signature
  workgroups : Node → Workgroups
  metaWords : Node → List UInt32
  validateWorkgroups : Workgroups → Except String Unit
  accepts : ShaderBinary → Bool
  buildNode : Shader → List UInt32 → Workgroups → Call B String Node
  updateMeta : Node → List UInt32 → Call B Empty Node
  executeRaw : Nat → Node → List (Access (Storage.Buffer B)) → Call B String Unit
  synchronize : B → B
  dropNode : Node → B → B

/-- A backend that can record `executeRaw` calls. A replay finds the recorded
nodes in the host's memory, so it gets what stands at each address there. -/
class Capturable (B : Type) [Storage B] [Dispatch B] where
  Capture : Type
  beginCapture : Call B Empty Unit
  endCapture : Call B String Capture
  replay : (Nat → Option (Dispatch.Node B)) → Capture → Call B String Unit
  releaseCapture : Capture → B → B

/-- A backend that can reserve areas. `carve` gives the area back as it is
with the buffer cut out. -/
class Areable (B : Type) [Storage B] where
  Area : Type
  reserve : Storage.Env B → Nat → B → Area × B
  release : Area → B → B
  carve : Area → Nat → Call B String (Storage.Buffer B × Area)

/-! ## What a backend promises -/

/-- A new buffer has at least the bytes asked for. -/
class LawfulStorage (B : Type) [Storage B] : Prop where
  allocRaw_size {env : Storage.Env B} {bytes : Nat} {buf : Storage.Buffer B} {raw raw' : B} :
    Storage.allocRaw env bytes raw = (.ok buf, raw') → bytes ≤ Storage.sizeBytes buf

/-- So has one cut out of an area. -/
class LawfulAreable (B : Type) [Storage B] [Areable B] : Prop where
  carve_size {area area' : Areable.Area B} {bytes : Nat} {buf : Storage.Buffer B} {raw raw' : B} :
    Areable.carve area bytes raw = (.ok (buf, area'), raw') → bytes ≤ Storage.sizeBytes buf

/-- What a node is built with, it keeps; updating its meta with as many words
as it has changes these words and nothing else of it. -/
class LawfulDispatch (B : Type) [Storage B] [Dispatch B] : Prop where
  buildNode_spec {shader : Shader} {words : List UInt32} {wg : Workgroups}
      {node : Dispatch.Node B} {raw raw' : B} :
    Dispatch.buildNode shader words wg raw = (.ok node, raw') →
      Dispatch.signature node = shader.signature ∧ Dispatch.workgroups node = wg ∧
        Dispatch.metaWords node = words
  updateMeta_spec (node : Dispatch.Node B) (words : List UInt32) (raw : B) :
    words.length = (Dispatch.metaWords node).length →
      ∃ node' raw', Dispatch.updateMeta node words raw = (.ok node', raw') ∧
        Dispatch.signature node' = Dispatch.signature node ∧
        Dispatch.workgroups node' = Dispatch.workgroups node ∧ Dispatch.metaWords node' = words

end Wilupgu.Backend
