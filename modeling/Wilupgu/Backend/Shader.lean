import Wilupgu.Backend.Dtype
import Mathlib.Data.List.Forall2

/-! # What a shader is

src/backend/shader.rs: how a shader is called, and its code. Of the codes,
only native code is run here, so the others are kept as the text or words
they are. -/

namespace Wilupgu.Backend

/-- What a shader does with one tensor slot, and the kind the slot holds. -/
inductive BindingRole where
  | Input (kind : DataKind)
  | Output (kind : DataKind)
  | InOut (kind : DataKind)
  | Accumulate (kind : DataKind)
  deriving DecidableEq, Repr

namespace BindingRole

def kind : BindingRole → DataKind
  | Input k | Output k | InOut k | Accumulate k => k

/-- `matches!(role, BindingRole::Input(_))`. -/
def isInput : BindingRole → Bool
  | Input _ => true
  | _ => false

end BindingRole

inductive MetaType where
  | Uint
  | Float
  deriving DecidableEq, Repr

structure MetaField where
  name : String
  ty : MetaType
  deriving DecidableEq, Repr

/-- How many workgroups one dispatch runs, in each dimension. -/
structure Workgroups where
  x : UInt32
  y : UInt32
  z : UInt32
  deriving DecidableEq, Repr

def Workgroups.linear (n : UInt32) : Workgroups := ⟨n, 1, 1⟩

def Workgroups.dims (wg : Workgroups) : List UInt32 := [wg.x, wg.y, wg.z]

/-- How a shader is called. `minLens` gets the lengths as a slice, so it can
write them but not change how many there are. -/
structure Signature where
  name : String
  metaFields : List MetaField
  layout : List BindingRole
  minLens : List UInt32 → Workgroups → List Nat → List Nat
  minLens_length : ∀ words wg lens, (minLens words wg lens).length = lens.length
  workgroupSize : UInt32 × UInt32 × UInt32

/-- One tensor slot's bytes, given to native code. -/
inductive NativeBinding where
  | Read (bytes : List UInt8)
  | Write (bytes : List UInt8)
  deriving DecidableEq

/-- What the code may leave in a slot: a read slot's bytes as they were, as
many bytes as before in a written one. -/
def NativeBinding.Keeps : NativeBinding → List UInt8 → Prop
  | Read bytes, after => after = bytes
  | Write bytes, after => after.length = bytes.length

/-- Every slot's bytes when native code ends, and whether it ended in a panic. -/
structure NativeEnd where
  slots : List (List UInt8)
  panicked : Bool
  deriving DecidableEq

/-- Native code: a function of the meta words and one binding per tensor slot.
It gets slices, so it can't change their lengths. -/
structure Native where
  code : List UInt32 → List NativeBinding → NativeEnd
  keeps : ∀ words bindings, List.Forall₂ NativeBinding.Keeps bindings (code words bindings).slots

/-- A shader's code in a form a backend takes. -/
inductive ShaderBinary where
  | Wgsl (source : String)
  | Glsl (source : String)
  | Spirv (words : List UInt32)
  | Ptx (source : String)
  | Cubin (bytes : List UInt8)
  | Native (code : Native)

structure Shader where
  signature : Signature
  binary : ShaderBinary

end Wilupgu.Backend
