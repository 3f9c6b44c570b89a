import Wilupgu.Backend.Contract

/-! # A backend that keeps a log

`Logged B` is the backend `B` with the list of the calls of its `unsafe fn`s
that reached it. It does what `B` does, so what is proved about the log of a
`Logged B` is what the code above asks of any `B`. -/

namespace Wilupgu.Backend

variable {B : Type}

/-- A call of one of the contract's `unsafe fn`s, with what it was given. -/
inductive RawCall (B : Type) [Storage B] [Dispatch B] [Capturable B] where
  | upload (buf : Storage.Buffer B) (offset : Nat) (data : List UInt8)
  | download (buf : Storage.Buffer B) (offset bytes : Nat)
  | copy (src : Storage.Buffer B) (srcOffset : Nat) (dst : Storage.Buffer B) (dstOffset bytes : Nat)
  | clear (buf : Storage.Buffer B)
  | execute (node : Dispatch.Node B) (bindings : List (Access (Storage.Buffer B)))
  | replay (capture : Capturable.Capture B)

structure Logged (B : Type) [Storage B] [Dispatch B] [Capturable B] where
  raw : B
  log : List (RawCall B)

namespace Logged

variable [Storage B] [Dispatch B] [Capturable B] {ε α : Type}

/-- A call of `B`, not logged. -/
def quiet (c : Call B ε α) : Call (Logged B) ε α := Call.zoom raw (fun raw l => { l with raw }) c

/-- A call of `B`, logged as `entry`. -/
def noting (entry : RawCall B) (c : Call B ε α) : Call (Logged B) ε α :=
  ⟨fun l => quiet c { l with log := l.log ++ [entry] }⟩

instance [Topology B] : Topology (Logged B) where
  label l := Topology.label l.raw
  supportsKind l := Topology.supportsKind l.raw

instance : Storage (Logged B) where
  Buffer := Storage.Buffer B
  Env := Storage.Env B
  sizeBytes := Storage.sizeBytes (B := B)
  address := Storage.address (B := B)
  allocRaw env bytes := quiet (Storage.allocRaw env bytes)
  uploadRaw buf offset data := noting (.upload buf offset data) (Storage.uploadRaw buf offset data)
  downloadRaw buf offset bytes :=
    noting (.download buf offset bytes) (Storage.downloadRaw buf offset bytes)
  copyRaw src srcOffset dst dstOffset bytes :=
    noting (.copy src srcOffset dst dstOffset bytes)
      (Storage.copyRaw src srcOffset dst dstOffset bytes)
  clearRaw buf := noting (.clear buf) (Storage.clearRaw buf)
  dropBuffer buf l := { l with raw := Storage.dropBuffer buf l.raw }

instance : Dispatch (Logged B) where
  Node := Dispatch.Node B
  signature := Dispatch.signature (B := B)
  workgroups := Dispatch.workgroups (B := B)
  metaWords := Dispatch.metaWords (B := B)
  validateWorkgroups := Dispatch.validateWorkgroups B
  accepts := Dispatch.accepts B
  buildNode shader words wg := quiet (Dispatch.buildNode shader words wg)
  updateMeta node words := quiet (Dispatch.updateMeta node words)
  executeRaw address node bindings :=
    noting (.execute node bindings) (Dispatch.executeRaw address node bindings)
  synchronize l := { l with raw := Dispatch.synchronize l.raw }
  dropNode node l := { l with raw := Dispatch.dropNode node l.raw }

instance : Capturable (Logged B) where
  Capture := Capturable.Capture B
  beginCapture := quiet Capturable.beginCapture
  endCapture := quiet Capturable.endCapture
  replay nodes capture := noting (.replay capture) (Capturable.replay nodes capture)
  releaseCapture capture l := { l with raw := Capturable.releaseCapture capture l.raw }

instance [Areable B] : Areable (Logged B) where
  Area := Areable.Area B
  reserve env bytes l :=
    let (area, raw) := Areable.reserve (B := B) env bytes l.raw
    (area, { l with raw })
  release area l := { l with raw := Areable.release area l.raw }
  carve area bytes := quiet (Areable.carve area bytes)

theorem quiet_eq {c : Call B ε α} {l l' : Logged B} {out : Outcome ε α}
    (h : quiet c l = (out, l')) : c l.raw = (out, l'.raw) ∧ l'.log = l.log := by
  cases h
  exact ⟨rfl, rfl⟩

theorem noting_eq {entry : RawCall B} {c : Call B ε α} {l l' : Logged B} {out : Outcome ε α}
    (h : noting entry c l = (out, l')) :
    c l.raw = (out, l'.raw) ∧ l'.log = l.log ++ [entry] := quiet_eq h

/-! A logged backend promises what the backend promises. -/

instance [LawfulStorage B] : LawfulStorage (Logged B) where
  allocRaw_size h := LawfulStorage.allocRaw_size (B := B) (quiet_eq h).1

instance [Areable B] [LawfulAreable B] : LawfulAreable (Logged B) where
  carve_size h := LawfulAreable.carve_size (B := B) (quiet_eq h).1

instance [LawfulDispatch B] : LawfulDispatch (Logged B) where
  buildNode_spec h := LawfulDispatch.buildNode_spec (B := B) (quiet_eq h).1
  updateMeta_spec node words l h := by
    obtain ⟨node', raw', hu, hs⟩ := LawfulDispatch.updateMeta_spec (B := B) node words l.raw h
    exact ⟨node', { l with raw := raw' }, by
      change quiet (Dispatch.updateMeta (B := B) node words) l = _
      rw [quiet, Call.zoom_run, hu], hs⟩

end Logged
end Wilupgu.Backend
