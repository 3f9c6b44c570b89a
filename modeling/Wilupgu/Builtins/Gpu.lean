import Wilupgu.Lib.Simt
import Wilupgu.Builtins.Table

/-! # GPU code

src/tools/builtins/codes/wgsl and src/tools/builtins/codes/cuda: what one
thread of each builtin does. Both languages compute indices in `u32`s, which
wrap; the same code over unbounded numbers is what the formulas mean. -/

namespace Wilupgu.Builtins

open Backend Simt Simt.Thread

/-! ## Threads -/

structure Dim3 where
  x : Nat
  y : Nat
  z : Nat
  deriving DecidableEq, Repr

/-- Where a thread is: `workgroup_id`, `local_invocation_id`, `num_workgroups`
and `@workgroup_size` in WGSL. -/
structure Ids where
  blockIdx : Dim3
  threadIdx : Dim3
  gridDim : Dim3
  blockDim : Dim3
  deriving DecidableEq, Repr

/-- The thread of its block that uses place `i` of shared memory. -/
def Ids.lane (id : Ids) (i : Nat) : Ids :=
  { id with threadIdx := ⟨i % id.blockDim.x, i / id.blockDim.x, id.threadIdx.z⟩ }

/-- What a thread counts with. -/
structure Ints where
  add : Nat → Nat → Nat
  sub : Nat → Nat → Nat
  mul : Nat → Nat → Nat

namespace Ints

def u32 : Ints where
  add a b := (a + b) % 2 ^ 32
  sub a b := (a + (2 ^ 32 - b)) % 2 ^ 32
  mul a b := a * b % 2 ^ 32

def exact : Ints := ⟨(· + ·), (· - ·), (· * ·)⟩

end Ints

/-! ## What the kernels share -/

namespace Gpu

variable {F : Type} (ar : Ints) (mm : List UInt32) (id : Ids)

/-- `blockIdx.y * gridDim.x + blockIdx.x`. -/
def group : Nat := ar.add (ar.mul id.blockIdx.y id.gridDim.x) id.blockIdx.x

/-- `(..) * blockDim.x + threadIdx.x`, a workgroup being 256 threads in a row. -/
def idx : Nat := ar.add (ar.mul (group ar id) id.blockDim.x) id.threadIdx.x

/-- `global_id.x`. -/
def col : Nat := ar.add (ar.mul id.blockIdx.x id.blockDim.x) id.threadIdx.x

/-- `global_id.y`. -/
def row : Nat := ar.add (ar.mul id.blockIdx.y id.blockDim.y) id.threadIdx.y

/-- `x[idx] = value(idx)` where `idx < n`. -/
def each (value : Nat → Thread F F) : Thread F (Ends F) := do
  let idx := idx ar id
  if idx < dim mm 0 then
    let v ← value idx
    store 1 idx v
  else return none

def binary (op : F → F → F) : Thread F (Ends F) :=
  each ar mm id fun idx => do return op (← load 1 idx) (← load 2 idx)

def unary (op : F → F) : Thread F (Ends F) :=
  each ar mm id fun idx => do return op (← load 1 idx)

/-- `c[idx] = sum`, or `c[idx] += sum`. -/
def put [Arith F] (accumulate : Bool) (idx : Nat) (sum : F) : Thread F (Ends F) := do
  if accumulate then
    let old ← load 3 idx
    store 3 idx (Arith.add old sum)
  else store 3 idx sum

/-! ### Linear algebra -/

/-- `A[row * K + a_col]` of round `t`, 0 outside of it: stored at
`tile_A[local_row * TILE + local_col]`. -/
def tileA [Arith F] (t : Nat) : Thread F F :=
  let a_col := ar.add (ar.mul t 16) id.threadIdx.x
  if row ar id < dim mm 0 ∧ a_col < dim mm 2 then load 1 (ar.add (ar.mul (row ar id) (dim mm 2)) a_col)
  else return Arith.zero

/-- `B`'s element of round `t`, at `bIndex`, 0 outside of it: stored at
`tile_B[local_row * TILE + local_col]`. -/
def tileB [Arith F] (bIndex : Nat → Nat → Nat) (t : Nat) : Thread F F :=
  let b_row := ar.add (ar.mul t 16) id.threadIdx.y
  if b_row < dim mm 2 ∧ col ar id < dim mm 1 then load 2 (bIndex b_row (col ar id))
  else return Arith.zero

/-- `(K + TILE - 1) / TILE`. -/
def numTiles : Nat := ar.sub (ar.add (dim mm 2) 16) 1 / 16

/-- One round: a tile of `A` and one of `B` are stored, and then summed up. -/
def round [Arith F] (bIndex : Nat → Nat → Nat) (sum : F) (t : Nat) : Thread F F := do
  let _ ← tileA ar mm id t
  let _ ← tileB ar mm id bIndex t
  -- a barrier, after which all of both tiles is there
  let tile_A ← peers fun i => tileA ar mm (id.lane i) t
  let tile_B ← peers fun i => tileB ar mm (id.lane i) bIndex t
  loop 16 sum fun sum k => pure <| Arith.add sum <|
    Arith.mul (tile_A (id.threadIdx.y * 16 + k)) (tile_B (k * 16 + id.threadIdx.x))

/-- The three matrix products: where `B`'s element is, and whether `C` is added to. -/
def matmulWith [Arith F] (bIndex : Nat → Nat → Nat) (accumulate : Bool) : Thread F (Ends F) := do
  rounds (numTiles ar mm)
  let sum ← loop (numTiles ar mm) Arith.zero (round ar mm id bIndex)
  if row ar id < dim mm 0 ∧ col ar id < dim mm 1 then
    put accumulate (ar.add (ar.mul (row ar id) (dim mm 1)) (col ar id)) sum
  else return none

/-- `b[k * N + col]`. -/
def rowMajor (k col : Nat) : Nat := ar.add (ar.mul k (dim mm 1)) col

/-- `b[col * K + k]`. -/
def colMajor (k col : Nat) : Nat := ar.add (ar.mul col (dim mm 2)) k

def matmul [Arith F] : Thread F (Ends F) := matmulWith ar mm id (rowMajor ar mm) false

def matmulAdd [Arith F] : Thread F (Ends F) := matmulWith ar mm id (rowMajor ar mm) true

def matmulTrp [Arith F] : Thread F (Ends F) := matmulWith ar mm id (colMajor ar mm) false

/-- The two row products; `M` is ignored. -/
def gemvWith [Arith F] (accumulate : Bool) : Thread F (Ends F) := do
  if dim mm 1 ≤ col ar id then return none
  let sum ← loop (dim mm 2) Arith.zero fun sum k => do
    return Arith.add sum (Arith.mul (← load 1 k) (← load 2 (rowMajor ar mm k (col ar id))))
  put accumulate (col ar id) sum

def gemv [Arith F] : Thread F (Ends F) := gemvWith ar mm id false

def gemvAdd [Arith F] : Thread F (Ends F) := gemvWith ar mm id true

def transpose : Thread F (Ends F) := do
  if dim mm 0 ≤ row ar id ∨ dim mm 1 ≤ col ar id then return none
  let v ← load 1 (ar.add (ar.mul (row ar id) (dim mm 1)) (col ar id))
  store 2 (ar.add (ar.mul (col ar id) (dim mm 0)) (row ar id)) v

/-! ### Reductions -/

/-- `scratch[i] += scratch[i + stride]` for `i < stride`, a barrier, half the stride. -/
def treeSum [Arith F] (stride : Nat) (scratch : Nat → F) : Nat → F :=
  if stride = 0 then scratch
  else treeSum (stride / 2) fun i =>
    if i < stride then Arith.add (scratch i) (scratch (i + stride)) else scratch i
termination_by stride
decreasing_by omega

/-- One partial a workgroup: every thread's term is stored in `scratch`, and then
summed up in a tree. -/
def reduceWith [Arith F] (out : Nat) (term : Ids → Thread F F) : Thread F (Ends F) := do
  let _ ← term id
  -- a barrier
  let scratch ← peers fun i => term (id.lane i)
  if id.threadIdx.x = 0 then store out (group ar id) (treeSum 128 scratch 0) else return none

end Gpu

/-! ## WGSL -/

namespace Wgsl

open Gpu

variable {F : Type} [Floats F] (ar : Ints) (mm : List UInt32) (id : Ids)

def add : Thread F (Ends F) := binary ar mm id Arith.add

def mul : Thread F (Ends F) := binary ar mm id Arith.mul

def max : Thread F (Ends F) := binary ar mm id Floats.max

def min : Thread F (Ends F) := binary ar mm id Floats.min

def float (i : Nat) : F := Floats.ofBits (mm[i]?.getD 0)

def scale : Thread F (Ends F) := unary ar mm id fun x => Arith.mul x (float mm 1)

def clamp : Thread F (Ends F) :=
  unary ar mm id fun x => Floats.min (Floats.max x (float mm 1)) (float mm 2)

def zeroTensor : Thread F (Ends F) := each ar mm id fun _ => return Arith.zero

def fillConstant : Thread F (Ends F) := each ar mm id fun _ => return float mm 1

def fillRandom : Thread F (Ends F) := each ar mm id fun idx => return Native.random (mm[1]?.getD 0) idx

/-- `select(0.0, x[idx], idx < n)` reads `x[idx]` either way. -/
def sum : Thread F (Ends F) := reduceWith ar id 2 fun id => do
  let x ← load 1 (idx ar id)
  return if idx ar id < dim mm 0 then x else Arith.zero

/-- `select(0.0, a[idx] * b[idx], idx < n)`. -/
def dot : Thread F (Ends F) := reduceWith ar id 3 fun id => do
  let a ← load 1 (idx ar id)
  let b ← load 2 (idx ar id)
  return if idx ar id < dim mm 0 then Arith.mul a b else Arith.zero

/-- Its WGSL code. -/
def entry : Builtin → Thread F (Ends F)
  | .matmul => Gpu.matmul ar mm id
  | .matmulAdd => Gpu.matmulAdd ar mm id
  | .matmulTrp => Gpu.matmulTrp ar mm id
  | .gemv => Gpu.gemv ar mm id
  | .gemvAdd => Gpu.gemvAdd ar mm id
  | .transpose => Gpu.transpose ar mm id
  | .dot => dot ar mm id
  | .add => add ar mm id
  | .mul => mul ar mm id
  | .scale => scale ar mm id
  | .max => max ar mm id
  | .min => min ar mm id
  | .clamp => clamp ar mm id
  | .sum => sum ar mm id
  | .zeroTensor => zeroTensor ar mm id
  | .fillConstant => fillConstant ar mm id
  | .fillRandom => fillRandom ar mm id

end Wgsl

/-! ## CUDA -/

namespace Cuda

open Gpu

variable {F : Type} [Floats F] (ar : Ints) (mm : List UInt32) (id : Ids)

/-- `idx < n ? x[idx] : 0.0f`. -/
def sum : Thread F (Ends F) := reduceWith ar id 2 fun id =>
  if idx ar id < dim mm 0 then load 1 (idx ar id) else return Arith.zero

/-- `idx < n ? a[idx] * b[idx] : 0.0f`. -/
def dot : Thread F (Ends F) := reduceWith ar id 3 fun id => do
  if idx ar id < dim mm 0 then
    return Arith.mul (← load 1 (idx ar id)) (← load 2 (idx ar id))
  else return Arith.zero

/-- Its CUDA code, which is what its WGSL code is but for the reductions. -/
def entry (b : Builtin) : Thread F (Ends F) :=
  match b with
  | .sum => sum ar mm id
  | .dot => dot ar mm id
  | b => Wgsl.entry ar mm id b

end Cuda

/-! ## Grids -/

inductive Format where
  | wgsl
  | cuda
  deriving DecidableEq, Repr

/-- `{wg:?}`. -/
def debug (wg : Workgroups) : String :=
  s!"Workgroups \x7b x: {wg.x.toNat}, y: {wg.y.toNat}, z: {wg.z.toNat} \x7d"

/-- `Node::validate_workgroups` of the wgpu and of the CUDA backend. -/
def Format.validate (format : Format) (wg : Workgroups) : Except String Unit :=
  match format with
  | .wgsl =>
    if wg.x.toNat ≤ 65535 ∧ wg.y.toNat ≤ 65535 ∧ wg.z.toNat ≤ 65535 then .ok ()
    else .error s!"workgroup count {debug wg} exceeds this backend's limit of 65535 per dimension"
  | .cuda =>
    if wg.x.toNat ≤ 2 ^ 31 - 1 ∧ wg.y.toNat ≤ 65535 ∧ wg.z.toNat ≤ 65535 then .ok ()
    else .error <|
      s!"workgroup count {debug wg} exceeds CUDA's grid limit of (2^31 - 1, 65535, 65535)"

/-- The code of a format. -/
def Format.entry {F : Type} [Floats F] (format : Format) (ar : Ints) (mm : List UInt32) (id : Ids)
    (b : Builtin) : Thread F (Ends F) :=
  match format with
  | .wgsl => Wgsl.entry ar mm id b
  | .cuda => Cuda.entry ar mm id b

def Dim3.ofWords (x y z : UInt32) : Dim3 := ⟨x.toNat, y.toNat, z.toNat⟩

/-- `workgroup_size`. -/
def Builtin.block (b : Builtin) : Dim3 :=
  let size := b.signature.workgroupSize
  .ofWords size.1 size.2.1 size.2.2

/-- The places of a box. -/
def Dim3.places (d : Dim3) : List Dim3 :=
  (List.range d.z).flatMap fun z => (List.range d.y).flatMap fun y =>
    (List.range d.x).map fun x => ⟨x, y, z⟩

/-- The threads of a launch. -/
def grid (b : Builtin) (wg : Workgroups) : List Ids :=
  let gridDim : Dim3 := .ofWords wg.x wg.y wg.z
  gridDim.places.flatMap fun block => b.block.places.map fun thread =>
    ⟨block, thread, gridDim, b.block⟩

end Wilupgu.Builtins
