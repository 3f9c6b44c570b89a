import Wilupgu.Safe.Rules
import Wilupgu.Backend.Pool

/-! # Devices, tensors, areas and nodes

src/safe/mod.rs. A device is a number; its tensors, areas and nodes hold that
number where the source holds a reference. A method of a tensor is a call on
the device it lives on. -/

namespace Wilupgu

open Backend Rounding

/-- One meta field's value, a float by its bits. -/
inductive MetaValue where
  | Uint (v : UInt32)
  | Float (bits : UInt32)
  deriving DecidableEq, Repr

namespace MetaValue

def ty : MetaValue → MetaType
  | Uint _ => .Uint
  | Float _ => .Float

/-- The word that fills its field. -/
def word : MetaValue → UInt32
  | Uint v => v
  | Float bits => bits

end MetaValue

/-- An opened device: the raw backend and a pool of freed buffers. -/
structure ComputeDevice (B : Type) [Storage B] where
  pool : BufferPool (Storage.Buffer B)
  raw : B

/-- Where a buffer's memory comes from. A carved buffer names its area. -/
inductive TensorMem (B : Type) [Storage B] where
  | Alloc (raw : Storage.Buffer B)
  | Carved (area : Nat) (raw : Storage.Buffer B)

structure Tensor (B : Type) [Storage B] where
  mem : TensorMem B
  kind : DataKind
  len : Nat
  dev : Nat

structure DeviceArea (B : Type) [Storage B] [Areable B] where
  raw : Areable.Area B
  dev : Nat

/-- One dispatch of a shader. `uid` says which node it is, wherever it is
moved to; no function reads it. -/
structure Node (B : Type) [Storage B] [Dispatch B] where
  raw : Dispatch.Node B
  lens : List Nat
  metaVals : List MetaValue
  dev : Nat
  uid : Nat

/-! ## Lengths and ranges -/

/-- A packed kind's length is rounded up to whole host words. -/
def wholeWords (kind : DataKind) (len : Nat) : Nat := nextMultipleOf len kind.elemsPerHostWord

/-- The bytes a tensor's buffer is asked for: its elements' bytes, rounded up
to `copyAlign` so the whole of it can always be copied. -/
def bufferBytes (kind : DataKind) (len : Nat) : Nat := nextMultipleOf (kind.bytesFor len) copyAlign

def minLens (shader : Signature) (words : List UInt32) (workgroups : Workgroups) : List Nat :=
  shader.minLens words workgroups (List.replicate shader.layout.length 0)

def metaWords (shader : Signature) (metaVals : List MetaValue) : Outcome Error (List UInt32) := do
  Rules.metaTypes shader (metaVals.map MetaValue.ty)
  return metaVals.map MetaValue.word

/-- A range of elements as `Storage` takes it. -/
structure ByteRange where
  start : Nat
  /-- `copyAlign`-rounded, what is moved. -/
  bytes : Nat
  /-- The range's own bytes, what the caller wants. -/
  exact : Nat
  deriving DecidableEq

/-- The bytes of elements `offset..offset + len` of a tensor of `tensorLen`. -/
def byteRange (kind : DataKind) (tensorLen offset len : Nat) (write : Bool) :
    Outcome Error ByteRange :=
  match (checkedAdd offset len).filter (· ≤ tensorLen) with
  | none => .err (.OutOfRange offset len tensorLen)
  | some fin =>
    let bits := kind.bitsPerElem
    let alignBits := copyAlign * 8
    if wrap (offset * bits) % alignBits ≠ 0 then .err (.Misaligned kind offset)
    else if write ∧ fin ≠ tensorLen ∧ wrap (fin * bits) % alignBits ≠ 0 then
      .err (.Misaligned kind fin)
    else
      let exact := kind.bytesFor len
      .ok
        { start := wrap (offset * bits) / 8
          bytes := nextMultipleOf exact copyAlign
          exact }

/-! ## Devices -/

variable {B : Type} [Storage B]

/-- A call on the raw device. -/
def onRaw {ε α : Type} (c : Call B ε α) : Call (ComputeDevice B) ε α :=
  Call.zoom ComputeDevice.raw (fun raw dev => { dev with raw }) c

/-- One that has no error of its own. -/
def onRaw! {α : Type} (c : Call B Empty α) : Call (ComputeDevice B) Error α :=
  (onRaw c).mapErr Empty.elim

namespace ComputeDevice

def new (raw : B) (poolBytes : Nat) : ComputeDevice B := ⟨.new poolBytes, raw⟩

/-- `self.pool.take(kind, len)`. -/
def takePooled (kind : DataKind) (len : Nat) :
    Call (ComputeDevice B) Error (Option (Storage.Buffer B)) :=
  .total fun dev =>
    let (buf, pool) := dev.pool.take Storage.sizeBytes kind len
    (buf, { dev with pool })

/-- `drop(self.pool.drain())`. -/
def dropPooled : Call (ComputeDevice B) Error Unit :=
  .modify fun dev =>
    let (bufs, pool) := dev.pool.drain
    ⟨pool, bufs.foldl (fun raw buf => Storage.dropBuffer buf raw) dev.raw⟩

/-- A buffer kept in the pool, or a new one; where there is no memory for it,
one more try after the pool is emptied. -/
def allocBuffer (env : Storage.Env B) (kind : DataKind) (len : Nat) :
    Call (ComputeDevice B) Error (Storage.Buffer B) := do
  match ← takePooled kind len with
  | some buf => return buf
  | none =>
    match ← (onRaw (Storage.allocRaw env (bufferBytes kind len))).attempt with
    | .ok buf => return buf
    | .error _ =>
      dropPooled
      (onRaw (Storage.allocRaw env (bufferBytes kind len))).mapErr Error.Backend

/-- A tensor of `len` elements of `kind`, the length rounded up to whole words. -/
def alloc [Topology B] (id : Nat) (env : Storage.Env B) (kind : DataKind) (len : Nat) :
    Call (ComputeDevice B) Error (Tensor B) := do
  Rules.supportedKind (← .get).raw kind
  let len := wholeWords kind len
  let raw ← allocBuffer env kind len
  return { mem := .Alloc raw, kind, len, dev := id }

/-- Builds a node that runs `shader` with `metaVals`, `workgroups` at a time. -/
def node [Topology B] [Dispatch B] (id uid : Nat) (shader : Shader) (metaVals : List MetaValue)
    (workgroups : Workgroups) : Call (ComputeDevice B) Error (Node B) := do
  Rules.accepted B shader
  let signature := shader.signature
  Rules.hasWorkgroups signature workgroups
  (Outcome.ofExcept (Dispatch.validateWorkgroups B workgroups)).mapErr Error.Backend
  let dev ← .get
  (signature.layout.forM fun role => Rules.supportedKind dev.raw role.kind : Outcome Error Unit)
  let words ← metaWords signature metaVals
  let raw ← (onRaw (Dispatch.buildNode shader words workgroups)).mapErr Error.Backend
  return { raw, lens := minLens signature words workgroups, metaVals, dev := id, uid }

/-- Reserves one block of at least `bytes` bytes. -/
def reserve [Areable B] (id : Nat) (env : Storage.Env B) (bytes : Nat) :
    Call (ComputeDevice B) Error (DeviceArea B) :=
  .total fun dev =>
    let (raw, dev') := Areable.reserve env bytes dev.raw
    (⟨raw, id⟩, { dev with raw := dev' })

end ComputeDevice

namespace DeviceArea

variable [Areable B]

/-- A buffer of `len` elements of `kind`, cut out of the area. -/
def alloc [Topology B] (key : Nat) (area : DeviceArea B) (kind : DataKind) (len : Nat) :
    Call (ComputeDevice B) Error (Tensor B × DeviceArea B) := do
  Rules.supportedKind (← .get).raw kind
  let len := wholeWords kind len
  let (buf, raw) ← (onRaw (Areable.carve area.raw (bufferBytes kind len))).mapErr Error.Backend
  return ({ mem := .Carved key buf, kind, len, dev := area.dev }, { area with raw })

/-- Dropping it gives the block back to the device. -/
def drop (area : DeviceArea B) : Call (ComputeDevice B) Error Unit :=
  .modify fun dev => { dev with raw := Areable.release area.raw dev.raw }

end DeviceArea

/-! ## Tensors -/

namespace Tensor

def raw (t : Tensor B) : Storage.Buffer B :=
  match t.mem with
  | .Alloc raw | .Carved _ raw => raw

/-- `Vec::resize` with zeros. -/
def resize (bytes : List UInt8) (n : Nat) : List UInt8 := (bytes.take n).rightpad n 0

/-- Writes `data` into the tensor, starting at element `offset`. -/
def uploadAt (t : Tensor B) (offset : Nat) (data : HostData) :
    Call (ComputeDevice B) Error Unit := do
  Rules.sameKind t.kind data.kind
  let range ← byteRange t.kind t.len offset data.len true
  onRaw! (Storage.uploadRaw t.raw range.start (resize data.asBytes range.bytes))

/-- Writes `data` to the whole tensor. -/
def upload (t : Tensor B) (data : HostData) : Call (ComputeDevice B) Error Unit := do
  Rules.sameLen t.len data.len
  t.uploadAt 0 data

/-- Reads `len` elements back, starting at element `offset`. -/
def downloadRange (t : Tensor B) (offset len : Nat) : Call (ComputeDevice B) Error HostData := do
  let range ← byteRange t.kind t.len offset len false
  let data ← onRaw! (Storage.downloadRaw t.raw range.start range.bytes)
  return HostData.fromBytes t.kind (data.take range.exact)

/-- Reads the whole tensor back. The `expect` makes an error a panic. -/
def download (t : Tensor B) : Call (ComputeDevice B) Error HostData := do
  match ← (t.downloadRange 0 t.len).attempt with
  | .ok data => return data
  | .error (_ : Error) => Call.lift .panic

/-- The checks of a copy on one device. -/
def copyRanges (src : Tensor B) (srcOffset : Nat) (dst : Tensor B) (dstOffset len : Nat) :
    Outcome Error (ByteRange × ByteRange) := do
  Rules.sameKind dst.kind src.kind
  return (← byteRange src.kind src.len srcOffset len false,
    ← byteRange dst.kind dst.len dstOffset len true)

/-- `copyRanges`, then the copy: what `copyInto` and `Scope.copy` share. -/
def copyChecked (src : Tensor B) (srcOffset : Nat) (dst : Tensor B) (dstOffset len : Nat) :
    Call (ComputeDevice B) Error Unit := do
  let (src', dst') ← src.copyRanges srcOffset dst dstOffset len
  (onRaw (Storage.copyRaw src.raw src'.start dst.raw dst'.start dst'.bytes)).mapErr Error.Backend

variable [Dispatch B]

/-- Waits for the device. -/
def synchronize : Call (ComputeDevice B) Error Unit :=
  .modify fun dev => { dev with raw := Dispatch.synchronize dev.raw }

/-- Copies `len` elements into `dst`, on the device. -/
def copyInto (src : Tensor B) (srcOffset : Nat) (dst : Tensor B) (dstOffset len : Nat) :
    Call (ComputeDevice B) Error Unit := do
  Rules.sameDevice src.dev dst.dev "tensor"
  src.copyChecked srcOffset dst dstOffset len
  synchronize

/-- Fills the tensor with zero bytes, on the device. -/
def zero (t : Tensor B) : Call (ComputeDevice B) Error Unit := do
  (onRaw (Storage.clearRaw t.raw)).mapErr Error.Backend
  synchronize

/-- The checks of `replace`, which then swaps the two. -/
def fits (t new : Tensor B) : Outcome Error Unit := do
  Rules.sameDevice t.dev new.dev "tensor"
  Rules.sameKind t.kind new.kind

/-- Dropping a tensor gives an allocated buffer to the pool, which hands it
back when it is full; a carved one's memory stays the area's. -/
def drop (t : Tensor B) : Call (ComputeDevice B) Error Unit :=
  .modify fun dev =>
    match t.mem with
    | .Alloc raw =>
      match dev.pool.recycle Storage.sizeBytes t.kind t.len raw with
      | (none, pool) => { dev with pool }
      | (some raw, pool) => ⟨pool, Storage.dropBuffer raw dev.raw⟩
    | .Carved _ raw => { dev with raw := Storage.dropBuffer raw dev.raw }

end Tensor

/-! ## Nodes -/

namespace Node

variable [Dispatch B]

def signature (n : Node B) : Signature := Dispatch.signature n.raw

def workgroups (n : Node B) : Workgroups := Dispatch.workgroups n.raw

/-- Sets new meta values, on the device and the node. -/
def updateMeta (metaVals : List MetaValue) : Call (ComputeDevice B × Node B) Error Unit := do
  let shader := (← .get).2.signature
  let words ← metaWords shader metaVals
  .modify fun (dev, node) => (dev, { node with lens := minLens shader words node.workgroups })
  let raw ← .zoom Prod.fst (fun dev s => (dev, s.2))
    (onRaw! (Dispatch.updateMeta (← .get).2.raw words))
  .modify fun (dev, node) => (dev, { node with raw, metaVals })

/-- The checks of `replace`, which then swaps the two. -/
def fits (old new : Node B) : Outcome Error Unit := do
  Rules.sameDevice old.dev new.dev "node"
  Rules.slotKinds new.signature (old.signature.layout.map BindingRole.kind)
  Rules.metaTypes new.signature (old.signature.metaFields.map MetaField.ty)

/-- Dropping a node frees what the backend holds for it. -/
def drop (n : Node B) : Call (ComputeDevice B) Error Unit :=
  .modify fun dev => { dev with raw := Dispatch.dropNode n.raw dev.raw }

end Node
end Wilupgu
