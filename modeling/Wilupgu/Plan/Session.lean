import Wilupgu.Lib.Transition
import Wilupgu.Plan.Run

/-! # A program that runs plans

The world with the runs a program has built in it, those that are bound, and
the values of its `Dynamic`s. Each call of the plan layer is a step; what the
rest of the program does meanwhile is one too, and may be anything that the
borrow checker lets it do next to the runs. -/

namespace Wilupgu.Plan

open Backend Call

/-- A run is borrowed until the scope ends that `bind` was given, and has a
handle if `bind` succeeded. -/
structure Borrow where
  scope : Nat
  handle : Option Bound

/-- `borrows` holds by its run what is borrowed for an open scope. -/
structure Session (B : Type) [Storage B] [Dispatch B] [Capturable B] [Areable B] where
  world : World B
  dynamics : Dynamics
  runs : Places Run
  borrows : Places Borrow

inductive PlanAct (B : Type) [Storage B] [Dispatch B] [Capturable B] [Areable B] where
  | build (r d : Nat) (plan : RunSpec) (site : Site B)
  | buildHollow (r d : Nat) (plan : RunSpec) (site : Site B)
  | fillFrom (r source id : Nat)
  | edit (r : Nat) (ts cs : List Nat) (f : Call (World B) Error Unit)
  | bind (r s : Nat) (ts cs : List Nat)
  | execute (r : Nat)
  | executeCall (r id : Nat)
  | applyDynamics (r : Nat)
  | setDynamic (d : Nat) (value : UInt32)
  | closeScope (s : Nat)
  | elsewhere (f : Call (World B) Error Unit)

variable {B : Type} [Storage B] [Dispatch B] [Capturable B] [Areable B]

namespace Session

/-- A program that has built no run yet. -/
def init (w : World B) : Session B := ⟨w, fun _ => none, ∅, ∅⟩

/-- A scope that is still open, with no less bound in it. -/
structure Extends (scope scope' : Scope) : Prop where
  dev : scope'.dev = scope.dev
  bufs : scope.bufs <+: scope'.bufs
  nodes : scope.nodes <+: scope'.nodes

/-- What a piece of the program outside the plan layer leaves alone, which has
borrowed the run `lent` to edit it, if any. -/
structure Leaves (σ : Session B) (lent : Option Nat) (w : World B) : Prop where
  nodes : ∀ r run, σ.runs.lookup r = some run → lent ≠ some r → ∀ call ∈ run.calls.values,
    w.nodes.lookup call.node = σ.world.nodes.lookup call.node
  tensors : ∀ r run, σ.runs.lookup r = some run → lent ≠ some r → ∀ p,
    .Live p ∈ run.tensors.values → w.tensors.lookup p = σ.world.tensors.lookup p
  /-- A reference to a place leaves no hole there. -/
  held : ∀ r run, σ.runs.lookup r = some run →
    (∀ call ∈ run.calls.values, call.node ∈ w.nodes) ∧
      ∀ p, .Live p ∈ run.tensors.values → p ∈ w.tensors
  scopes : ∀ r borrow scope, σ.borrows.lookup r = some borrow →
    σ.world.scopes.lookup borrow.scope = some scope →
      ∃ scope', w.scopes.lookup borrow.scope = some scope' ∧ Extends scope scope'

/-- The places of a plan's nodes are free, and each is one's own. -/
structure NodesVacant (w : World B) (plan : RunSpec) (site : Site B) : Prop where
  address : ∀ spec ∈ plan.calls, w.nodes.Free (site.address spec.id)
  addresses : (plan.calls.map fun spec => site.address spec.id).Nodup

/-- So are those of its tensors. -/
structure Vacant (w : World B) (plan : RunSpec) (site : Site B) : Prop
    extends NodesVacant w plan site where
  place : ∀ spec ∈ plan.tensors, w.tensors.Free (site.place spec.id)
  places : (plan.tensors.map fun spec => site.place spec.id).Nodup

/-- The run at `r`, with nothing of it borrowed. -/
def Owns (σ : Session B) (r : Nat) : Prop := r ∈ σ.runs ∧ σ.borrows.Free r

/-- The handle of the run at `r`. -/
def Binds (σ : Session B) (r : Nat) (bound : Bound) : Prop :=
  ∃ borrow, σ.borrows.lookup r = some borrow ∧ borrow.handle = some bound

end Session

variable [Topology B]

/-- What the borrow checker lets through. -/
def PlanAct.Allowed (σ : Session B) : PlanAct B → Prop
  | build r _ plan site => σ.runs.Free r ∧ Session.Vacant σ.world plan site
  | buildHollow r _ plan site => σ.runs.Free r ∧ Session.NodesVacant σ.world plan site
  | fillFrom r source _ => r ≠ source ∧ σ.Owns r ∧ σ.Owns source
  | edit r ts cs f =>
    σ.Owns r ∧ σ.Leaves (some r) (f σ.world).2 ∧
      ∃ run ∈ σ.runs.lookup r, ts.Perm run.tensors.keys ∧ cs.Perm run.calls.keys
  | bind r s ts cs =>
    σ.Owns r ∧ s ∈ σ.world.scopes ∧
      ∃ run ∈ σ.runs.lookup r, ts.Perm run.tensors.keys ∧ cs.Perm run.calls.keys
  | execute r | executeCall r _ | applyDynamics r => ∃ bound, σ.Binds r bound
  | setDynamic _ _ => True
  | closeScope s => s ∈ σ.world.scopes
  | elsewhere f => σ.Leaves none (f σ.world).2

namespace Session

/-- A call on the world. -/
def onWorld {α : Type} (c : Call (World B) Error α) : Call (Session B) Error α :=
  Call.zoom world (fun world σ => { σ with world }) c

/-- A new run. -/
def put (r : Nat) (c : Call (World B) Error Run) : Call (Session B) Error Unit := do
  let run ← onWorld c
  .modify fun σ => { σ with runs := σ.runs.insert r run }

def run (σ : Session B) (r : Nat) : Outcome Error Run := .expect (σ.runs.lookup r)

def bound (σ : Session B) (r : Nat) : Outcome Error Bound :=
  .expect ((σ.borrows.lookup r).bind Borrow.handle)

def fillFrom (r source id : Nat) : Call (Session B) Error Unit := do
  let σ ← .get
  let pair := (← σ.run r, ← σ.run source)
  .zoom (fun _ => pair)
    (fun pair σ => { σ with runs := (σ.runs.insert r pair.1).insert source pair.2 })
    (Run.fillFrom σ.world id)

def bind (r s : Nat) (ts cs : List Nat) : Call (Session B) Error Unit := do
  let run ← (← .get).run r
  .modify fun σ => { σ with borrows := σ.borrows.insert r ⟨s, none⟩ }
  let bound ← onWorld (run.bind s ts cs)
  .modify fun σ => { σ with borrows := σ.borrows.insert r ⟨s, some bound⟩ }

/-- Closing a scope ends what is borrowed for it. -/
def closeScope (s : Nat) : Call (Session B) Error Unit := do
  onWorld (Scope.close s)
  .modify fun σ => { σ with borrows := σ.borrows.keep fun borrow => borrow.scope ≠ s }

end Session

def PlanAct.perform : PlanAct B → Call (Session B) Error Unit
  | build r d plan site => Session.put r (plan.build d site)
  | buildHollow r d plan site => Session.put r (plan.buildHollow d site)
  | fillFrom r source id => Session.fillFrom r source id
  | edit r ts cs f => do
    let run ← (← .get).run r
    Session.onWorld (run.edit ts cs f)
  | bind r s ts cs => Session.bind r s ts cs
  | execute r => do Session.onWorld (← (← .get).bound r).execute
  | executeCall r id => do Session.onWorld ((← (← .get).bound r).executeCall id)
  | applyDynamics r => do
    let σ ← .get
    Session.onWorld ((← σ.bound r).applyDynamics σ.dynamics)
  | setDynamic d value => .modify fun σ =>
    { σ with dynamics := Function.update σ.dynamics d (some value) }
  | closeScope s => Session.closeScope s
  | elsewhere f => Session.onWorld f

structure PlanEvent (B : Type) [Storage B] [Dispatch B] [Capturable B] [Areable B] where
  act : PlanAct B
  out : Outcome Error Unit

/-- One step of the program. -/
def Session.Step (σ : Session B) (e : PlanEvent B) (σ' : Session B) : Prop :=
  e.act.Allowed σ ∧ e.act.perform σ = (e.out, σ')

namespace Session

open Transition

/-- Acts done one after the other, and how each ends. -/
def events : Session B → List (PlanAct B) → List (PlanEvent B)
  | _, [] => []
  | σ, a :: rest => ⟨a, (a.perform σ).1⟩ :: events (a.perform σ).2 rest

/-- The session after them. -/
def after (σ : Session B) (as : List (PlanAct B)) : Session B :=
  as.foldl (fun σ a => (a.perform σ).2) σ

/-- Each is allowed where it is done, and meets `ok`. -/
def Plays (ok : Session B → PlanEvent B → Prop) : Session B → List (PlanAct B) → Prop
  | _, [] => True
  | σ, a :: rest =>
    a.Allowed σ ∧ ok σ ⟨a, (a.perform σ).1⟩ ∧ Plays ok (a.perform σ).2 rest

theorem runs_of_plays {ok : Session B → PlanEvent B → Prop} {σ : Session B}
    {as : List (PlanAct B)} (h : Plays ok σ as) :
    Runs (Where Step ok) σ (σ.events as) (σ.after as) := by
  induction as generalizing σ with
  | nil => exact .nil σ
  | cons a rest ih =>
    obtain ⟨ha, hok, hrest⟩ := h
    exact .cons ⟨⟨ha, rfl⟩, hok⟩ (ih hrest)

end Session

end Wilupgu.Plan
