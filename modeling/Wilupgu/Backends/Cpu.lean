import Wilupgu.Lib.ByteMemory
import Wilupgu.Lib.Rounding
import Wilupgu.Backend.Contract

/-! # The CPU backend

src/backends/cpu.rs. A device is its owner number, its recording state behind
the mutex, and the part of the host's memory it got from the allocator. A
`vec!` either succeeds or ends the process, so allocating never fails here. -/

namespace Wilupgu.Backends

open Backend ByteMemory Rounding

/-- A value behind a lock. Who panics while holding it leaves it poisoned, and
then `lock().unwrap()` panics. -/
structure Mutex (α : Type) where
  val : α
  poisoned : Bool
  deriving DecidableEq

/-- Where an empty `Vec<u32>` or boxed slice points: at no block. -/
def dangling : Nat := 4

/-- The host memory a device's blocks are in, and the blocks it holds. -/
structure Heap where
  mem : Mem
  blocks : List Range

/-- A buffer's words, in a `Vec` of its own or in an area. -/
inductive CpuMem where
  | Owned (ptr words : Nat)
  | Part (ptr words : Nat)
  deriving DecidableEq

structure CpuBuffer where
  mem : CpuMem
  owner : Nat
  deriving DecidableEq

structure CpuNode where
  signature : Signature
  code : Native
  metaWords : List UInt32
  workgroups : Workgroups

/-- A recorded slot: its bytes' address and how many they are. -/
inductive CpuSlot where
  | Read (ptr len : Nat)
  | Write (ptr len : Nat)
  deriving DecidableEq

/-- One recorded `executeRaw`, its node by address. -/
structure CpuCall where
  node : Nat
  slots : List CpuSlot
  deriving DecidableEq

structure CpuBackend where
  owner : Nat
  recording : Mutex (Option (List CpuCall))
  heap : Heap

structure CpuCapture where
  calls : List CpuCall
  owner : Nat
  deriving DecidableEq

/-- One block of host words, cut out front to back. -/
structure CpuArea where
  ptr : Nat
  words : Nat
  next : Nat
  owner : Nat
  deriving DecidableEq

namespace CpuBuffer

def ptr (b : CpuBuffer) : Nat :=
  match b.mem with
  | .Owned ptr _ | .Part ptr _ => ptr

/-- `bytes().len()`. -/
def bytes (b : CpuBuffer) : Nat :=
  match b.mem with
  | .Owned _ words | .Part _ words => words * 4

def range (b : CpuBuffer) : Range := ⟨b.ptr, b.bytes⟩

end CpuBuffer

namespace CpuSlot

def ptr : CpuSlot → Nat
  | Read ptr _ | Write ptr _ => ptr

def len : CpuSlot → Nat
  | Read _ len | Write _ len => len

def isWrite : CpuSlot → Bool
  | Read _ _ => false
  | Write _ _ => true

def range (s : CpuSlot) : Range := ⟨s.ptr, s.len⟩

end CpuSlot

def CpuArea.range (a : CpuArea) : Range := ⟨a.ptr, a.words * 4⟩

/-- The part of an area that is cut out already. -/
def CpuArea.used (a : CpuArea) : Range := ⟨a.ptr, a.next * 4⟩

/-! ## Memory -/

namespace Heap

/-- `vec![0; words]`. -/
def alloc (env : Allocator dangling) (words : Nat) (h : Heap) : Nat × Heap :=
  let ptr := if words = 0 then dangling else env.base h.blocks (words * 4)
  (ptr,
    { mem := write h.mem ptr (List.replicate (words * 4) 0)
      blocks := ⟨ptr, words * 4⟩ :: h.blocks })

def free (r : Range) (h : Heap) : Heap := { h with blocks := h.blocks.erase r }

end Heap

namespace CpuBackend

/-- The device as `attach` opens it. -/
def attach (owner : Nat) : CpuBackend := ⟨owner, ⟨none, false⟩, ⟨fun _ => 0, []⟩⟩

def setMem (raw : CpuBackend) (mem : Mem) : CpuBackend :=
  { raw with heap := { raw.heap with mem } }

def setHeap (raw : CpuBackend) (heap : Heap) : CpuBackend := { raw with heap }

def setRecording (raw : CpuBackend) (recording : Mutex (Option (List CpuCall))) : CpuBackend :=
  { raw with recording }

/-! ## Storage -/

def allocRaw (env : Allocator dangling) (bytes : Nat) : Call CpuBackend String CpuBuffer where
  run raw :=
    let words := divCeil bytes 4
    let (ptr, heap) := raw.heap.alloc env words
    (.ok ⟨.Owned ptr words, raw.owner⟩, raw.setHeap heap)

def uploadRaw (buf : CpuBuffer) (offset : Nat) (data : List UInt8) : Call CpuBackend Empty Unit where
  run raw :=
    if offset + data.length ≤ buf.bytes then
      (.ok (), raw.setMem (write raw.heap.mem (buf.ptr + offset) data))
    else (.panic, raw)

def downloadRaw (buf : CpuBuffer) (offset bytes : Nat) : Call CpuBackend Empty (List UInt8) where
  run raw :=
    if offset + bytes ≤ buf.bytes then (.ok (read raw.heap.mem (buf.ptr + offset) bytes), raw)
    else (.panic, raw)

def copyRaw (src : CpuBuffer) (srcOffset : Nat) (dst : CpuBuffer) (dstOffset bytes : Nat) :
    Call CpuBackend String Unit where
  run raw :=
    if src.owner ≠ raw.owner ∨ dst.owner ≠ raw.owner then
      (.err "copy_raw: a buffer belongs to another device", raw)
    else if dstOffset + bytes ≤ dst.bytes ∧ srcOffset + bytes ≤ src.bytes then
      let data := read raw.heap.mem (src.ptr + srcOffset) bytes
      (.ok (), raw.setMem (write raw.heap.mem (dst.ptr + dstOffset) data))
    else (.panic, raw)

def clearRaw (buf : CpuBuffer) : Call CpuBackend String Unit where
  run raw :=
    if buf.owner ≠ raw.owner then (.err "clear_raw: the buffer belongs to another device", raw)
    else (.ok (), raw.setMem (write raw.heap.mem buf.ptr (List.replicate buf.bytes 0)))

/-- Dropping an owned buffer frees its `Vec`; a part's words stay the area's. -/
def dropBuffer (buf : CpuBuffer) (raw : CpuBackend) : CpuBackend :=
  match buf.mem with
  | .Owned _ _ => raw.setHeap (raw.heap.free buf.range)
  | .Part _ _ => raw

/-! ## Dispatch -/

def buildNode (shader : Shader) (words : List UInt32) (wg : Workgroups) :
    Call CpuBackend String CpuNode where
  run raw :=
    match shader.binary with
    | .Native code => (.ok ⟨shader.signature, code, words, wg⟩, raw)
    | _ => (.err s!"shader `{shader.signature.name}`: not native code", raw)

/-- `copy_from_slice` panics unless the lengths are equal. -/
def updateMeta (node : CpuNode) (words : List UInt32) : Call CpuBackend Empty CpuNode where
  run raw :=
    if words.length = node.metaWords.length then (.ok { node with metaWords := words }, raw)
    else (.panic, raw)

end CpuBackend

namespace CpuSlot

def ofAccess : Access CpuBuffer → CpuSlot
  | .Read b => Read b.ptr b.bytes
  | .Write b => Write b.ptr b.bytes

/-- The slot's bytes, as native code gets them. -/
def binding (m : Mem) : CpuSlot → NativeBinding
  | Read ptr len => .Read (read m ptr len)
  | Write ptr len => .Write (read m ptr len)

/-- The memory after native code, which wrote into the slots as it ran. -/
def writeBack (m : Mem) : List CpuSlot → List (List UInt8) → Mem
  | Read _ _ :: slots, _ :: ends => writeBack m slots ends
  | Write ptr _ :: slots, bytes :: ends => writeBack (write m ptr bytes) slots ends
  | _, _ => m

end CpuSlot

namespace CpuBackend

/-- `(node.code.0)(&node.meta, &mut native)`. -/
def runNative (node : CpuNode) (slots : List CpuSlot) : Call CpuBackend String Unit where
  run raw :=
    let fin := node.code.code node.metaWords (slots.map (CpuSlot.binding raw.heap.mem))
    (if fin.panicked then .panic else .ok (),
      raw.setMem (CpuSlot.writeBack raw.heap.mem slots fin.slots))

def executeRaw (address : Nat) (node : CpuNode) (bindings : List (Access CpuBuffer)) :
    Call CpuBackend String Unit where
  run raw :=
    if bindings.any fun a => a.buf.owner ≠ raw.owner then
      (.err s!"shader `{node.signature.name}`: a bound buffer belongs to another device", raw)
    else if raw.recording.poisoned then (.panic, raw)
    else match raw.recording.val with
      | some calls =>
        let call : CpuCall := ⟨address, bindings.map CpuSlot.ofAccess⟩
        (.ok (), raw.setRecording ⟨some (calls ++ [call]), false⟩)
      | none => runNative node (bindings.map CpuSlot.ofAccess) raw

/-! ## Recording -/

/-- The guard is held by who panics on the `assert`. -/
def beginCapture : Call CpuBackend Empty Unit where
  run raw :=
    if raw.recording.poisoned then (.panic, raw)
    else match raw.recording.val with
      | some calls => (.panic, raw.setRecording ⟨some calls, true⟩)
      | none => (.ok (), raw.setRecording ⟨some [], false⟩)

def endCapture : Call CpuBackend String CpuCapture where
  run raw :=
    if raw.recording.poisoned then (.panic, raw)
    else match raw.recording.val with
      | some calls => (.ok ⟨calls, raw.owner⟩, raw.setRecording ⟨none, false⟩)
      | none => (.err "end_capture: this device isn't recording", raw)

/-- Runs the recorded calls. Where no node stands at a recorded address the
source's behavior is undefined; here it ends as a panic does. -/
def replayCalls (nodes : Nat → Option CpuNode) : List CpuCall → Call CpuBackend String Unit
  | [] => pure ()
  | call :: rest => do
    let node ← (.expect (nodes call.node) : Outcome String CpuNode)
    runNative node call.slots
    replayCalls nodes rest

def replay (nodes : Nat → Option CpuNode) (capture : CpuCapture) : Call CpuBackend String Unit where
  run raw :=
    if capture.owner ≠ raw.owner then
      (.err "replay: the capture belongs to another device", raw)
    else replayCalls nodes capture.calls raw

/-! ## Areas -/

def reserve (env : Allocator dangling) (totalBytes : Nat) (raw : CpuBackend) :
    CpuArea × CpuBackend :=
  let words := divCeil totalBytes 4
  let (ptr, heap) := raw.heap.alloc env words
  (⟨ptr, words, 0, raw.owner⟩, raw.setHeap heap)

def release (area : CpuArea) (raw : CpuBackend) : CpuBackend :=
  raw.setHeap (raw.heap.free area.range)

def carve (area : CpuArea) (bytes : Nat) : Call CpuBackend String (CpuBuffer × CpuArea) where
  run raw :=
    if area.owner ≠ raw.owner then (.err "carve: the area belongs to another device", raw)
    else
      let words := divCeil bytes 4
      if words ≤ area.words - area.next then
        (.ok (⟨.Part (area.ptr + area.next * 4) words, raw.owner⟩,
          { area with next := area.next + words }), raw)
      else
        let left := (area.words - area.next) * 4
        (.err s!"carve: {bytes} bytes asked, the area has {left} left", raw)

end CpuBackend

/-! ## The recording state -/

namespace CpuBackend

/-- Beginning a capture: a poisoned lock, a failed assertion, or a new recording. -/
theorem beginCapture_cases (raw : CpuBackend) :
    (raw.recording.poisoned = true ∧ beginCapture raw = (.panic, raw)) ∨
    (raw.recording.poisoned = false ∧ ∃ calls, raw.recording.val = some calls ∧
      beginCapture raw = (.panic, raw.setRecording ⟨some calls, true⟩)) ∨
    (raw.recording.poisoned = false ∧ raw.recording.val = none ∧
      beginCapture raw = (.ok (), raw.setRecording ⟨some [], false⟩)) := by
  simp only [beginCapture]
  rcases hp : raw.recording.poisoned with _ | _
  · rcases hv : raw.recording.val with _ | calls <;> simp
  · simp

/-- Ending one: a poisoned lock, a recording, or none to end. -/
theorem endCapture_cases (raw : CpuBackend) :
    (raw.recording.poisoned = true ∧ endCapture raw = (.panic, raw)) ∨
    (raw.recording.poisoned = false ∧ ∃ calls, raw.recording.val = some calls ∧
      endCapture raw = (.ok ⟨calls, raw.owner⟩, raw.setRecording ⟨none, false⟩)) ∨
    (raw.recording.poisoned = false ∧ raw.recording.val = none ∧
      endCapture raw = (.err "end_capture: this device isn't recording", raw)) := by
  simp only [endCapture]
  rcases hp : raw.recording.poisoned with _ | _
  · rcases hv : raw.recording.val with _ | calls <;> simp
  · simp

end CpuBackend

/-! ## The contract's instances -/

instance : Topology CpuBackend where
  label _ := "cpu"
  supportsKind _ _ := true

instance : Storage CpuBackend where
  Buffer := CpuBuffer
  Env := Allocator dangling
  sizeBytes := CpuBuffer.bytes
  address := CpuBuffer.ptr
  allocRaw := CpuBackend.allocRaw
  uploadRaw := CpuBackend.uploadRaw
  downloadRaw := CpuBackend.downloadRaw
  copyRaw := CpuBackend.copyRaw
  clearRaw := CpuBackend.clearRaw
  dropBuffer := CpuBackend.dropBuffer

/-- Every `u32` is at most `MAX_WORKGROUPS_PER_DIM`. -/
instance : Dispatch CpuBackend where
  Node := CpuNode
  signature := CpuNode.signature
  workgroups := CpuNode.workgroups
  metaWords := CpuNode.metaWords
  validateWorkgroups _ := .ok ()
  accepts binary := match binary with
    | .Native _ => true
    | _ => false
  buildNode := CpuBackend.buildNode
  updateMeta := CpuBackend.updateMeta
  executeRaw := CpuBackend.executeRaw
  synchronize raw := raw
  dropNode _ raw := raw

instance : Capturable CpuBackend where
  Capture := CpuCapture
  beginCapture := CpuBackend.beginCapture
  endCapture := CpuBackend.endCapture
  replay := CpuBackend.replay
  releaseCapture _ raw := raw

instance : Areable CpuBackend where
  Area := CpuArea
  reserve := CpuBackend.reserve
  release := CpuBackend.release
  carve := CpuBackend.carve

theorem le_divCeil_mul (bytes : Nat) : bytes ≤ divCeil bytes 4 * 4 := le_roundUp (by decide)

instance : LawfulStorage CpuBackend where
  allocRaw_size {env bytes buf raw raw'} h := by
    cases h
    exact le_divCeil_mul bytes

instance : LawfulAreable CpuBackend where
  carve_size {area area' bytes buf raw raw'} h := by
    simp only [Areable.carve, CpuBackend.carve] at h
    split at h
    · cases h
    · split at h
      · cases h
        exact le_divCeil_mul bytes
      · cases h

instance : LawfulDispatch CpuBackend where
  buildNode_spec {shader words wg node raw raw'} h := by
    simp only [Dispatch.buildNode, CpuBackend.buildNode] at h
    split at h
    · cases h
      exact ⟨rfl, rfl, rfl⟩
    · cases h
  updateMeta_spec node words raw h := ⟨_, raw, if_pos h, rfl, rfl, rfl⟩

/-! ## A shader to run on it -/

namespace Sample

/-- Native code that sets every byte it may write to 7. -/
def sevens : Native where
  code _ bindings :=
    ⟨bindings.map fun
      | .Read bytes => bytes
      | .Write bytes => bytes.map fun _ => 7, false⟩
  keeps _ bindings := by
    rw [List.forall₂_map_right_iff, List.forall₂_same]
    rintro (bytes | bytes) -
    · rfl
    · exact List.length_map _

theorem same_length (_ : List UInt32) (_ : Workgroups) (lens : List Nat) :
    lens.length = lens.length := rfl

/-- A shader with one slot, of `i8`s it writes. -/
def fill : Shader :=
  ⟨⟨"fill", [], [.Output .Int8], fun _ _ lens => lens, same_length, (1, 1, 1)⟩,
    .Native sevens⟩

/-- An allocator that puts each block above all that live. -/
def env : ByteMemory.Allocator dangling := .stack dangling

end Sample

end Wilupgu.Backends
