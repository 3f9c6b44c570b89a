import Wilupgu.Backend.Contract
import Wilupgu.Builtins.Native

/-! # The table of builtins

src/tools/builtins/mod.rs: how each builtin is called, with the lengths its
slots need, and its native code. -/

namespace Wilupgu.Builtins

open Backend Backend.BindingRole Rounding

inductive Builtin where
  | matmul
  | matmulAdd
  | matmulTrp
  | gemv
  | gemvAdd
  | transpose
  | dot
  | add
  | mul
  | scale
  | max
  | min
  | clamp
  | sum
  | zeroTensor
  | fillConstant
  | fillRandom
  deriving DecidableEq, Repr

/-- In catalog order. -/
def ALL : List Builtin :=
  [.matmul, .matmulAdd, .matmulTrp, .gemv, .gemvAdd, .transpose, .dot, .add, .mul, .scale, .max,
    .min, .clamp, .sum, .zeroTensor, .fillConstant, .fillRandom]

theorem mem_ALL (b : Builtin) : b ∈ ALL := by cases b <;> decide

def uint (name : String) : MetaField := ⟨name, .Uint⟩

def float (name : String) : MetaField := ⟨name, .Float⟩

/-! ## The lengths slots need -/

/-- Meta word `i`, which is there: the words are as many as the fields. -/
def dim (m : List UInt32) (i : Nat) : Nat := (m[i]?.getD 0).toNat

/-- `l.copy_from_slice(&lens)`, the two being equally long. -/
def copyFromSlice (lens l : List Nat) : List Nat := if lens.length = l.length then lens else l

/-- Every slot holds `n` elements. -/
def eachN (m : List UInt32) (_ : Workgroups) (l : List Nat) : List Nat := l.map fun _ => dim m 0

/-- A: MxK, B: KxN (or NxK for `matmulTrp`), C: MxN. -/
def matmulLens (m : List UInt32) (_ : Workgroups) (l : List Nat) : List Nat :=
  let (rows, cols, inner) := (dim m 0, dim m 1, dim m 2)
  copyFromSlice [rows * inner, inner * cols, rows * cols] l

/-- One row: A: 1xK, B: KxN, C: 1xN; M is ignored. -/
def gemvLens (m : List UInt32) (_ : Workgroups) (l : List Nat) : List Nat :=
  let (cols, inner) := (dim m 1, dim m 2)
  copyFromSlice [inner, inner * cols, cols] l

def transposeLens (m : List UInt32) (_ : Workgroups) (l : List Nat) : List Nat :=
  l.map fun _ => dim m 0 * dim m 1

/-- One partial per workgroup, and at least one. The second product wraps. -/
def partials (wg : Workgroups) : Nat := Nat.max (wrap (wg.x.toNat * wg.y.toNat * wg.z.toNat)) 1

/-- Inputs hold `n`; the last slot holds the partials. -/
def reduceLens (m : List UInt32) (wg : Workgroups) (l : List Nat) : List Nat :=
  (l.map fun _ => dim m 0).set (l.length - 1) (partials wg)

/-- One of these. -/
structure Lens where
  lens : List UInt32 → Workgroups → List Nat → List Nat
  keeps : ∀ m wg l, (lens m wg l).length = l.length

theorem length_copyFromSlice (lens l : List Nat) : (copyFromSlice lens l).length = l.length := by
  unfold copyFromSlice
  split
  · assumption
  · rfl

namespace Lens

def each : Lens := ⟨eachN, fun _ _ _ => List.length_map _⟩

def matrix : Lens := ⟨matmulLens, fun _ _ _ => length_copyFromSlice _ _⟩

def row : Lens := ⟨gemvLens, fun _ _ _ => length_copyFromSlice _ _⟩

def square : Lens := ⟨transposeLens, fun _ _ _ => List.length_map _⟩

def reduce : Lens :=
  ⟨reduceLens, fun _ _ _ => by rw [reduceLens, List.length_set, List.length_map]⟩

end Lens

/-! ## The table -/

/-- One row of it. -/
def signature (name : String) (metaFields : List MetaField) (layout : List BindingRole)
    (workgroupSize : UInt32 × UInt32 × UInt32) (l : Lens) : Signature :=
  ⟨name, metaFields, layout, l.lens, l.keeps, workgroupSize⟩

namespace Builtin

/-- `M`, `N`, `K`. -/
def mnk : List MetaField := [uint "M", uint "N", uint "K"]

def signature : Builtin → Signature
  | matmul => Builtins.signature "matmul" mnk [Input .F32, Input .F32, Output .F32] (16, 16, 1) .matrix
  | matmulAdd =>
    Builtins.signature "matmul_add" mnk [Input .F32, Input .F32, Accumulate .F32] (16, 16, 1) .matrix
  | matmulTrp =>
    Builtins.signature "matmul_trp" mnk [Input .F32, Input .F32, Output .F32] (16, 16, 1) .matrix
  | gemv => Builtins.signature "gemv" mnk [Input .F32, Input .F32, Output .F32] (256, 1, 1) .row
  | gemvAdd =>
    Builtins.signature "gemv_add" mnk [Input .F32, Input .F32, Accumulate .F32] (256, 1, 1) .row
  | transpose =>
    Builtins.signature "transpose" [uint "rows", uint "cols"] [Input .F32, Output .F32] (16, 16, 1)
      .square
  | dot =>
    Builtins.signature "dot" [uint "n"] [Input .F32, Input .F32, Output .F32] (256, 1, 1) .reduce
  | add => Builtins.signature "add" [uint "n"] [Accumulate .F32, Input .F32] (256, 1, 1) .each
  | mul => Builtins.signature "mul" [uint "n"] [InOut .F32, Input .F32] (256, 1, 1) .each
  | scale => Builtins.signature "scale" [uint "n", float "factor"] [InOut .F32] (256, 1, 1) .each
  | max => Builtins.signature "max" [uint "n"] [InOut .F32, Input .F32] (256, 1, 1) .each
  | min => Builtins.signature "min" [uint "n"] [InOut .F32, Input .F32] (256, 1, 1) .each
  | clamp =>
    Builtins.signature "clamp" [uint "n", float "lo", float "hi"] [InOut .F32] (256, 1, 1) .each
  | sum => Builtins.signature "sum" [uint "n"] [Input .F32, Output .F32] (256, 1, 1) .reduce
  | zeroTensor => Builtins.signature "zero_tensor" [uint "n"] [Output .F32] (256, 1, 1) .each
  | fillConstant =>
    Builtins.signature "fill_constant" [uint "n", float "value"] [Output .F32] (256, 1, 1) .each
  | fillRandom =>
    Builtins.signature "fill_random" [uint "n", uint "seed"] [Output .F32] (256, 1, 1) .each

/-- Its native code. -/
def native {F : Type} [Floats F] : Builtin → List UInt32 → List (Slot F) →
    Outcome Empty (List (Slot F))
  | matmul => Native.matmul
  | matmulAdd => Native.matmulAdd
  | matmulTrp => Native.matmulTrp
  | gemv => Native.gemv
  | gemvAdd => Native.gemvAdd
  | transpose => Native.transpose
  | dot => Native.dot
  | add => Native.add
  | mul => Native.mul
  | scale => Native.scale
  | max => Native.max
  | min => Native.min
  | clamp => Native.clamp
  | sum => Native.sum
  | zeroTensor => Native.zeroTensor
  | fillConstant => Native.fillConstant
  | fillRandom => Native.fillRandom

/-- Its slots' lengths. -/
def minLens (b : Builtin) (m : List UInt32) (wg : Workgroups) : List Nat :=
  b.signature.minLens m wg (List.replicate b.signature.layout.length 0)

/-- One word per meta field. -/
def MetaOk (b : Builtin) (m : List UInt32) : Prop := m.length = b.signature.metaFields.length

end Builtin
end Wilupgu.Builtins
