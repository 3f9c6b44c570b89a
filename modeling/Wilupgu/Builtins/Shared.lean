import Wilupgu.Builtins.Touches
import Wilupgu.Lib.Lockstep

/-! # GPU code with its barriers

The builtins whose workgroups share memory, action by action: the three matrix
products, whose WGSL and CUDA code do the same, and the two reductions.
`workgroupBarrier()` and `__syncthreads()` are the barriers. -/

namespace Wilupgu.Builtins

open Backend Simt Lockstep Lockstep.Prog

/-- An element of a slot, or of an array that a workgroup has for itself
(`var<workgroup>`, `__shared__`). -/
inductive Cell where
  | slot (slot index : Nat)
  | own (group : Dim3) (array index : Nat)
  deriving DecidableEq

/-- A thread of one of them. -/
abbrev Shared (F α : Type) := Prog Cell F α

namespace Shared

variable {F : Type} (ar : Ints) (mm : List UInt32) (id : Ids)

/-! ## Matrix products -/

/-- The cell of `tile_A` at `row * TILE + col`. -/
def tile_A (row col : Nat) : Cell := .own id.blockIdx 0 (row * 16 + col)

def tile_B (row col : Nat) : Cell := .own id.blockIdx 1 (row * 16 + col)

/-- What a round stores in `tile_A`. -/
def elemA [Arith F] (t : Nat) : Shared F F :=
  let a_col := ar.add (ar.mul t 16) id.threadIdx.x
  if Gpu.row ar id < dim mm 0 ∧ a_col < dim mm 2 then
    read (.slot 1 (ar.add (ar.mul (Gpu.row ar id) (dim mm 2)) a_col))
  else return Arith.zero

/-- And in `tile_B`. -/
def elemB [Arith F] (bIndex : Nat → Nat → Nat) (t : Nat) : Shared F F :=
  let b_row := ar.add (ar.mul t 16) id.threadIdx.y
  if b_row < dim mm 2 ∧ Gpu.col ar id < dim mm 1 then
    read (.slot 2 (bIndex b_row (Gpu.col ar id)))
  else return Arith.zero

/-- `sum += tile_A[..] * tile_B[..]`. -/
def addTiles [Arith F] (sum : F) (k : Nat) : Shared F F := do
  let a ← read (tile_A id id.threadIdx.y k)
  let b ← read (tile_B id k id.threadIdx.x)
  return Arith.add sum (Arith.mul a b)

/-- One round of the loop over tiles. -/
def round [Arith F] (bIndex : Nat → Nat → Nat) (sum : F) (t : Nat) : Shared F F := do
  let a ← elemA ar mm id t
  write (tile_A id id.threadIdx.y id.threadIdx.x) a
  let b ← elemB ar mm id bIndex t
  write (tile_B id id.threadIdx.y id.threadIdx.x) b
  wait 0
  let sum ← loop (List.range 16) sum (addTiles id)
  wait 1
  return sum

/-- `C[idx] = sum`, or `C[idx] += sum`. -/
def put [Arith F] (accumulate : Bool) (idx : Nat) (sum : F) : Shared F Unit := do
  if accumulate then
    let old ← read (.slot 3 idx)
    write (.slot 3 idx) (Arith.add old sum)
  else write (.slot 3 idx) sum

/-- Where `C` has an element for the thread. -/
def putResult [Arith F] (accumulate : Bool) (sum : F) : Shared F Unit :=
  if Gpu.row ar id < dim mm 0 ∧ Gpu.col ar id < dim mm 1 then
    put accumulate (ar.add (ar.mul (Gpu.row ar id) (dim mm 1)) (Gpu.col ar id)) sum
  else return ()

def matmulWith [Arith F] (bIndex : Nat → Nat → Nat) (accumulate : Bool) : Shared F Unit := do
  let sum ← loop (List.range (Gpu.numTiles ar mm)) Arith.zero (round ar mm id bIndex)
  putResult ar mm id accumulate sum

/-! ## Reductions -/

/-- The cell of `scratch` at `i`. -/
def scratch (i : Nat) : Cell := .own id.blockIdx 0 i

/-- The loop over strides, in which the first threads add what the next ones have. -/
def tree [Arith F] (stride : Nat) : Shared F Unit :=
  if stride = 0 then return ()
  else do
    if id.threadIdx.x < stride then
      let a ← read (scratch id id.threadIdx.x)
      let b ← read (scratch id (id.threadIdx.x + stride))
      write (scratch id id.threadIdx.x) (Arith.add a b)
    wait 1
    tree (stride / 2)
termination_by stride
decreasing_by omega

/-- `partial[wg] = scratch[0]`, by the first thread. -/
def putPartial (out : Nat) : Shared F Unit := do
  if id.threadIdx.x = 0 then
    let total ← read (scratch id 0)
    write (.slot out (Gpu.group ar id)) total

def reduceWith [Arith F] (out : Nat) (term : Shared F F) : Shared F Unit := do
  let x ← term
  write (scratch id id.threadIdx.x) x
  wait 0
  tree id 128
  putPartial ar id out

end Shared

/-! ## The builtins -/

/-- A matrix product. -/
inductive Product where
  | matmul
  | matmulAdd
  | matmulTrp
  deriving DecidableEq, Repr

namespace Product

def builtin : Product → Builtin
  | matmul => .matmul
  | matmulAdd => .matmulAdd
  | matmulTrp => .matmulTrp

/-- Where `B`'s element is. -/
def bIndex (ar : Ints) (mm : List UInt32) : Product → Nat → Nat → Nat
  | matmul | matmulAdd => Gpu.rowMajor ar mm
  | matmulTrp => Gpu.colMajor ar mm

/-- Is `C` added to? -/
def accumulates : Product → Bool
  | matmul | matmulTrp => false
  | matmulAdd => true

/-- Its code in a format: the same in both. -/
def shared {F : Type} [Arith F] (p : Product) (_ : Format) (ar : Ints) (mm : List UInt32)
    (id : Ids) : Shared F Unit := Shared.matmulWith ar mm id (p.bIndex ar mm) p.accumulates

end Product

/-- A reduction. -/
inductive Reduction where
  | sum
  | dot
  deriving DecidableEq, Repr

namespace Reduction

def builtin : Reduction → Builtin
  | sum => .sum
  | dot => .dot

/-- The slot of the partials. -/
def out : Reduction → Nat
  | sum => 2
  | dot => 3

/-- What a thread stores in `scratch`: WGSL's `select` reads either way, CUDA's
`?:` only below `n`. -/
def term {F : Type} [Arith F] (r : Reduction) (format : Format) (ar : Ints) (mm : List UInt32)
    (id : Ids) : Shared F F :=
  let idx := Gpu.idx ar id
  match r, format with
  | sum, .wgsl => do
    let x ← read (.slot 1 idx)
    return if idx < dim mm 0 then x else Arith.zero
  | sum, .cuda => if idx < dim mm 0 then read (.slot 1 idx) else return Arith.zero
  | dot, .wgsl => do
    let a ← read (.slot 1 idx)
    let b ← read (.slot 2 idx)
    return if idx < dim mm 0 then Arith.mul a b else Arith.zero
  | dot, .cuda =>
    if idx < dim mm 0 then do
      let a ← read (.slot 1 idx)
      let b ← read (.slot 2 idx)
      return Arith.mul a b
    else return Arith.zero

/-- Its code in a format. -/
def shared {F : Type} [Arith F] (r : Reduction) (format : Format) (ar : Ints) (mm : List UInt32)
    (id : Ids) : Shared F Unit :=
  Shared.reduceWith ar id r.out (r.term format ar mm id)

end Reduction

/-! ## Launches -/

/-- A thread of a launch. -/
abbrev Launched (b : Builtin) (wg : Workgroups) := { id : Ids // id ∈ grid b wg }

/-- Its workgroup. -/
def workgroup {b : Builtin} {wg : Workgroups} (i : Launched b wg) : Dim3 := i.1.blockIdx

/-- The elements of the slots. -/
def slotsOf {F : Type} (m : Cell → F) : Memory F := fun s i => m (.slot s i)

end Wilupgu.Builtins
