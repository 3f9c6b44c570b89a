import Wilupgu.Lib.Transition
import Wilupgu.Safe.Scope

/-! # What a program does

Every call a program can make, when the borrow checker lets it, and what it
does: one step. Threads and nested scopes are steps in some order. A call that
panics is a step too, since the program may catch the panic and go on. -/

namespace Wilupgu

open Backend

/-- What a call gives back. -/
inductive Reply where
  | unit
  | slot (index : Nat)
  | data (data : HostData)
  deriving DecidableEq

/-- Calls that make, move and drop tensors and areas. -/
inductive TensorAct (B : Type) [Storage B] where
  | alloc (d : Nat) (env : Storage.Env B) (p : Nat) (kind : DataKind) (len : Nat)
  | reserve (d : Nat) (env : Storage.Env B) (a bytes : Nat)
  | carve (a p : Nat) (kind : DataKind) (len : Nat)
  | dropArea (a : Nat)
  | dropTensor (p : Nat)
  | moveTensor (p q : Nat)
  | replaceTensor (p q : Nat)

/-- Calls that read and write tensors' contents. -/
inductive MemoryAct where
  | upload (p : Nat) (data : HostData)
  | uploadAt (p offset : Nat) (data : HostData)
  | download (p : Nat)
  | downloadRange (p offset len : Nat)
  | copyInto (p srcOffset q dstOffset len : Nat)
  | zero (p : Nat)
  | scopeUpload (s slot : Nat) (data : HostData)
  | scopeDownload (s slot : Nat)
  | scopeCopy (s src srcOffset dst dstOffset len : Nat)

/-- Calls that make, change, move and drop nodes. Assigning over a node drops
it and moves the other; swapping two is three moves. -/
inductive NodeAct where
  | build (d a : Nat) (shader : Shader) (metaVals : List MetaValue) (workgroups : Workgroups)
  | dropNode (a : Nat)
  | moveNode (a b : Nat)
  | replaceNode (a b : Nat)
  | updateMeta (a : Nat) (metaVals : List MetaValue)
  | scopeUpdateMeta (s slot : Nat) (metaVals : List MetaValue)

inductive ScopeAct where
  | openOn (s d : Nat)
  | close (s : Nat)
  | bind (s p : Nat)
  | bindNode (s a : Nat)

/-- Calls that run, record and replay. -/
inductive RunAct where
  | execute (s node : Nat) (args : List Arg)
  | beginCapture (s : Nat)
  | endCapture (s r : Nat) (result : Except Error Unit)
  | unwindCapture (s : Nat)
  | replay (s r : Nat)
  | dropRecording (r : Nat)

inductive Act (B : Type) [Storage B] where
  | tensor (a : TensorAct B)
  | memory (a : MemoryAct)
  | node (a : NodeAct)
  | scope (a : ScopeAct)
  | run (a : RunAct)

variable {B : Type} [Storage B] [Dispatch B] [Capturable B] [Areable B]

/-! ## What the borrow checker lets through -/

def TensorAct.Allowed (w : World B) : TensorAct B → Prop
  | alloc _ _ p _ _ => w.tensors.Free p
  | reserve _ _ a _ => w.areas.Free a
  | carve a p _ _ => a ∈ w.areas ∧ w.tensors.Free p
  | dropArea a => a ∈ w.areas ∧ ¬w.AreaBorrowed a
  | dropTensor p => w.HoldsTensor p
  | moveTensor p q => w.HoldsTensor p ∧ w.tensors.Free q
  | replaceTensor p q => p ≠ q ∧ w.HoldsTensor p ∧ w.HoldsTensor q

def MemoryAct.Allowed (w : World B) : MemoryAct → Prop
  | upload p _ | uploadAt p _ _ | download p | downloadRange p _ _ | zero p => w.HoldsTensor p
  | copyInto p _ q _ _ => p ≠ q ∧ w.HoldsTensor p ∧ w.HoldsTensor q
  | scopeUpload s slot _ | scopeDownload s slot =>
    ∃ scope ∈ w.scopes.lookup s, slot < scope.bufs.length
  | scopeCopy s src _ dst _ _ =>
    ∃ scope ∈ w.scopes.lookup s, src < scope.bufs.length ∧ dst < scope.bufs.length

def NodeAct.Allowed (w : World B) : NodeAct → Prop
  | build _ a _ _ _ => w.nodes.Free a
  | dropNode a | updateMeta a _ => w.HoldsNode a
  | moveNode a b => w.HoldsNode a ∧ w.nodes.Free b
  | replaceNode a b => a ≠ b ∧ w.HoldsNode a ∧ w.HoldsNode b
  | scopeUpdateMeta s slot _ => ∃ scope ∈ w.scopes.lookup s, slot < scope.nodes.length

/-- A scope can't end inside its own `capture`. -/
def ScopeAct.Allowed (w : World B) : ScopeAct → Prop
  | openOn s _ => w.scopes.Free s
  | close s => ∃ scope ∈ w.scopes.lookup s, scope.inCapture = false
  | bind s p => s ∈ w.scopes ∧ w.HoldsTensor p
  | bindNode s a => s ∈ w.scopes ∧ w.HoldsNode a

/-- A second panic while unwinding ends the process, so it is no step. -/
def RunAct.Allowed (w : World B) : RunAct → Prop
  | execute s node args =>
    ∃ scope ∈ w.scopes.lookup s,
      node < scope.nodes.length ∧ ∀ arg ∈ args, arg.slot < scope.bufs.length
  | beginCapture s => s ∈ w.scopes
  | endCapture s r _ =>
    (∃ scope ∈ w.scopes.lookup s, scope.inCapture = true) ∧ w.recordings.Free r
  | unwindCapture s =>
    ∃ scope ∈ w.scopes.lookup s, scope.inCapture = true ∧
      (Capturable.endCapture (w.devices scope.dev).raw).1.returns = true
  | replay s r => s ∈ w.scopes ∧ r ∈ w.recordings
  | dropRecording r => r ∈ w.recordings

def Act.Allowed (w : World B) : Act B → Prop
  | tensor a => a.Allowed w
  | memory a => a.Allowed w
  | node a => a.Allowed w
  | scope a => a.Allowed w
  | run a => a.Allowed w

instance (w : World B) (a : TensorAct B) : Decidable (a.Allowed w) := by
  cases a <;> unfold TensorAct.Allowed <;> infer_instance

instance (w : World B) (a : MemoryAct) : Decidable (a.Allowed w) := by
  cases a <;> unfold MemoryAct.Allowed <;> infer_instance

instance (w : World B) (a : NodeAct) : Decidable (a.Allowed w) := by
  cases a <;> unfold NodeAct.Allowed <;> infer_instance

instance (w : World B) (a : ScopeAct) : Decidable (a.Allowed w) := by
  cases a <;> unfold ScopeAct.Allowed <;> infer_instance

instance (w : World B) (a : RunAct) : Decidable (a.Allowed w) := by
  cases a <;> unfold RunAct.Allowed <;> infer_instance

instance (w : World B) (a : Act B) : Decidable (a.Allowed w) := by
  cases a <;> unfold Act.Allowed <;> infer_instance

/-! ## What it does -/

/-- A call that gives nothing back. -/
def silent (c : Call (World B) Error Unit) : Call (World B) Error Reply := do
  c
  return .unit

/-- A call that gives data back. -/
def giving (c : Call (World B) Error HostData) : Call (World B) Error Reply := do
  return .data (← c)

/-- A call that gives a slot back. -/
def giving! (c : Call (World B) Error Nat) : Call (World B) Error Reply := do
  return .slot (← c)

variable [Topology B]

def TensorAct.run : TensorAct B → Call (World B) Error Reply
  | alloc d env p kind len => silent (World.alloc d env p kind len)
  | reserve d env a bytes => silent (World.reserve d env a bytes)
  | carve a p kind len => silent (World.carve a p kind len)
  | dropArea a => silent (World.dropArea a)
  | dropTensor p => silent (World.dropTensor p)
  | moveTensor p q => silent (World.moveTensor p q)
  | replaceTensor p q => silent (World.replaceTensor p q)

omit [Topology B] in
def MemoryAct.run : MemoryAct → Call (World B) Error Reply
  | upload p data => silent (World.onTensor p fun t => t.upload data)
  | uploadAt p offset data => silent (World.onTensor p fun t => t.uploadAt offset data)
  | download p => giving (World.onTensor p Tensor.download)
  | downloadRange p offset len => giving (World.onTensor p fun t => t.downloadRange offset len)
  | copyInto p srcOffset q dstOffset len => silent (World.copyInto p srcOffset q dstOffset len)
  | zero p => silent (World.onTensor p Tensor.zero)
  | scopeUpload s slot data => silent (Scope.upload s slot data)
  | scopeDownload s slot => giving (Scope.download s slot)
  | scopeCopy s src srcOffset dst dstOffset len =>
    silent (Scope.copy s src srcOffset dst dstOffset len)

def NodeAct.run : NodeAct → Call (World B) Error Reply
  | build d a shader metaVals workgroups => silent (World.buildNode d a shader metaVals workgroups)
  | dropNode a => silent (World.dropNode a)
  | moveNode a b => silent (World.moveNode a b)
  | replaceNode a b => silent (World.replaceNode a b)
  | updateMeta a metaVals => silent (World.updateMeta a metaVals)
  | scopeUpdateMeta s slot metaVals => silent (Scope.updateMeta s slot metaVals)

omit [Topology B] in
def ScopeAct.run : ScopeAct → Call (World B) Error Reply
  | openOn s d => silent (Scope.openOn s d)
  | close s => silent (Scope.close s)
  | bind s p => giving! (Scope.bind s p)
  | bindNode s a => giving! (Scope.bindNode s a)

omit [Topology B] in
def RunAct.run : RunAct → Call (World B) Error Reply
  | execute s node args => silent (Scope.execute s node args)
  | beginCapture s => silent (Scope.beginCapture s)
  | endCapture s r result => silent (Scope.endCapture s r result)
  | unwindCapture s => silent (Scope.unwindCapture s)
  | replay s r => silent (Scope.replay s r)
  | dropRecording r => silent (Scope.dropRecording r)

def Act.perform : Act B → Call (World B) Error Reply
  | tensor a => a.run
  | memory a => a.run
  | node a => a.run
  | scope a => a.run
  | run a => a.run

/-- A call and how it ended. -/
structure Event (B : Type) [Storage B] where
  act : Act B
  out : Outcome Error Reply

/-- One step of a program. -/
def World.Step (w : World B) (e : Event B) (w' : World B) : Prop :=
  e.act.Allowed w ∧ e.act.perform w = (e.out, w')

/-- A sequence of calls of a program, with how they ended, from one world to another. -/
abbrev World.Runs (w : World B) (es : List (Event B)) (w' : World B) : Prop :=
  Transition.Runs World.Step w es w'

/-- The worlds a program can get to that has opened these devices. -/
abbrev World.Reachable (raws : Nat → B) (poolBytes : Nat → Nat) (w : World B) : Prop :=
  Transition.Reachable World.Step (World.init raws poolBytes) w

/-- Calls made one after the other, each meeting `ok` where it is made: how
each ended, and the world after them; nothing if one isn't allowed. -/
def World.play (ok : World B → Act B → Prop) [∀ w a, Decidable (ok w a)] :
    World B → List (Act B) → Option (List (Event B) × World B)
  | w, [] => some ([], w)
  | w, a :: rest =>
    if a.Allowed w ∧ ok w a then
      (play ok (a.perform w).2 rest).map fun (es, w') => (⟨a, (a.perform w).1⟩ :: es, w')
    else none

theorem World.runs_of_play {ok : World B → Act B → Prop} [∀ w a, Decidable (ok w a)]
    {w w' : World B} {as : List (Act B)} {es : List (Event B)}
    (h : w.play ok as = some (es, w')) :
    Transition.Runs (Transition.Where World.Step fun w e => ok w e.act) w es w' := by
  induction as generalizing w es with
  | nil =>
    cases h
    exact .nil _
  | cons a rest ih =>
    simp only [World.play, Option.ite_none_right_eq_some, Option.map_eq_some_iff] at h
    obtain ⟨⟨ha, hok⟩, ⟨es', w''⟩, hr, he⟩ := h
    cases he
    exact .cons ⟨⟨ha, rfl⟩, hok⟩ (ih hr)

/-- The world after calls made one after the other. -/
def World.after (w : World B) (as : List (Act B)) : World B :=
  as.foldl (fun w a => (a.perform w).2) w

/-- Calls that can be played lead to the world after them. -/
theorem World.runs_after {ok : World B → Act B → Prop} [∀ w a, Decidable (ok w a)] {w : World B}
    {as : List (Act B)} (h : (w.play ok as).isSome = true) :
    ∃ es, Transition.Runs (Transition.Where World.Step fun w e => ok w e.act) w es (w.after as) := by
  obtain ⟨⟨es, w'⟩, hplay⟩ := Option.isSome_iff_exists.mp h
  obtain rfl : w' = w.after as := by
    clear h
    induction as generalizing w es with
    | nil =>
      cases hplay
      rfl
    | cons a rest ih =>
      simp only [World.play, Option.ite_none_right_eq_some, Option.map_eq_some_iff] at hplay
      obtain ⟨-, ⟨es', w''⟩, hr, he⟩ := hplay
      cases he
      exact ih _ hr
  exact ⟨es, World.runs_of_play hplay⟩

end Wilupgu
