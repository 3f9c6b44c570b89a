import Wilupgu.Backend.Shader

/-! # The errors of the safe layer and the tools

src/error.rs, the variants that the modelled functions return. -/

namespace Wilupgu

open Backend

inductive Error where
  | OtherDevice (what : String)
  | KindMismatch (expected got : DataKind)
  | LenMismatch (expected got : Nat)
  | SlotCount (shader : String) (expected got : Nat)
  | SlotKind (shader : String) (slot : Nat) (expected got : DataKind)
  | SlotAccess (shader : String) (slot : Nat) (role : BindingRole)
  | TooShort (shader : String) (slot needs holds : Nat)
  | Aliased (shader : String) (slot : Nat)
  | MetaCount (shader : String) (expected got : Nat)
  | MetaType (shader field : String) (expected got : MetaType)
  | UnsupportedBinary (shader : String)
  | NoWorkgroups (shader : String)
  | UnsupportedKind (device : String) (kind : DataKind)
  | OutOfRange (offset len tensorLen : Nat)
  | Misaligned (kind : DataKind) (element : Nat)
  | SameTensor
  | AlreadyCapturing
  | ReplayWhileCapturing
  | NotBound (what : String)
  | NotInPlan (what : String)
  | Hollow
  | NotHollow
  | NotGivenYet
  | ResolverTaken
  | Computed
  | DynamicUnset
  | InCall (index : Nat) (error : Error)
  | Backend (message : String)
  deriving DecidableEq

end Wilupgu
