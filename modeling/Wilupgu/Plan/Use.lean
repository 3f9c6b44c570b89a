import Wilupgu.Plan.Session

/-! # Captured runs

The rest of src/tools/plan/run.rs: `Run::capture`, and what can be done with a
`CapturedRun`. A captured run is a run and the recording made of it, which
stands at a number of its own. Here are two programs that use one run: the one
has captured it, the other hasn't. -/

namespace Wilupgu.Plan

open Backend Call

variable {B : Type} [Storage B] [Dispatch B] [Capturable B] [Areable B]

namespace Run

/-- `tensor_mut`, and what `Edit::tensor` does. -/
def tensorMut (run : Run) (id : Nat) : Outcome Error Nat := do (← run.anyTensor id).live

/-- `CapturedRun::upload`. -/
def upload (run : Run) (id : Nat) (data : HostData) : Call (World B) Error Unit := do
  World.onTensor (← run.tensorMut id) fun t => t.upload data

/-- `CapturedRun::zero`. -/
def zero (run : Run) (id : Nat) : Call (World B) Error Unit := do
  World.onTensor (← run.tensorMut id) Tensor.zero

/-- `capture`, in a scope `s` of its own. The recording is put at `k`; the run
is there after it either way. -/
def capture (run : Run) (s k : Nat) (ts cs : List Nat) : Call (World B) Error Unit :=
  Scope.inScope s run.device do
    let bound ← run.bind s ts cs
    Scope.capture s k bound.execute

end Run

namespace Bound

def tensor (bound : Bound) (id : Nat) : Outcome Error Nat :=
  .okOr (.NotInPlan "tensor") (bound.tensors.lookup id)

/-- `Scope::upload` to the slot of one of the run's tensors. -/
def upload (bound : Bound) (id : Nat) (data : HostData) : Call (World B) Error Unit := do
  Scope.upload bound.scope (← bound.tensor id) data

/-- `CapturedBound::replay`, the recording standing at `k`. -/
def replay (bound : Bound) (k : Nat) : Call (World B) Error Unit := Scope.replay bound.scope k

end Bound

/-! ## Two programs -/

/-- What is done with a run that may be captured. `bindTensor` and `bindNode` bind
something beside it; `uploadBound` is an upload in the scope that it is bound in;
`execute` is `replay` of a captured run. -/
inductive Use where
  | openScope (s : Nat)
  | bind (s : Nat)
  | bindTensor (s p : Nat)
  | bindNode (s a : Nat)
  | closeScope (s : Nat)
  | setDynamic (d : Nat) (value : UInt32)
  | applyDynamics
  | upload (id : Nat) (data : HostData)
  | zero (id : Nat)
  | uploadBound (id : Nat) (data : HostData)
  | execute
  | executeCall (id : Nat)

structure UseEvent where
  use : Use
  out : Outcome Error Unit

namespace Session

/-- A call on the run at `r`. -/
def onRun (r : Nat) (c : Run → Call (World B) Error Unit) : Call (Session B) Error Unit := do
  onWorld (c (← (← .get).run r))

/-- A call on its handle. -/
def onBound (r : Nat) (c : Bound → Call (World B) Error Unit) : Call (Session B) Error Unit := do
  onWorld (c (← (← .get).bound r))

/-- `Run::capture` on the run at `r`. -/
def capture (r s k : Nat) (ts cs : List Nat) : Call (Session B) Error Unit :=
  onRun r fun run => run.capture s k ts cs

/-- `CapturedRun::release`, which drops the recording. -/
def release (k : Nat) : Call (Session B) Error Unit := onWorld (Scope.dropRecording k)

/-- Orders in which the maps of the run at `r` may be gone through. -/
def Orders (σ : Session B) (r : Nat) (ts cs : List Nat) : Prop :=
  ∃ run ∈ σ.runs.lookup r, ts.Perm run.tensors.keys ∧ cs.Perm run.calls.keys

end Session

/-- A scope of device `d`. -/
def OpenOn (w : World B) (d s : Nat) : Prop := ∃ scope ∈ w.scopes.lookup s, scope.dev = d

/-- What a program may do that uses the run at `r`, of device `d`, in that
device's scopes. That the run is bound once at a time is for the borrow checker
to see. That scopes, and what is bound beside the run, are the device's is up
to the program: a bind of anything else is refused and changes nothing. -/
def Use.Allowed (r d : Nat) (σ : Session B) : Use → Prop
  | openScope s => σ.world.scopes.Free s
  | bind s => σ.Owns r ∧ OpenOn σ.world d s
  | bindTensor s p => OpenOn σ.world d s ∧ ∃ t ∈ σ.world.tensors.lookup p, t.dev = d
  | bindNode s a => OpenOn σ.world d s ∧ ∃ node ∈ σ.world.nodes.lookup a, node.dev = d
  | closeScope s => s ∈ σ.world.scopes
  | setDynamic _ _ => True
  | upload _ _ | zero _ => σ.Owns r
  | applyDynamics | uploadBound _ _ | execute | executeCall _ => ∃ bound, σ.Binds r bound

/-- A `CapturedBound` has no `execute_call`. -/
def Use.OnCaptured : Use → Prop
  | executeCall _ => False
  | _ => True

variable [Topology B]

/-- Each use of a run as it is. A tensor of it is lent by `edit`. -/
def Use.plain (r d : Nat) (ts cs : List Nat) : Use → Call (Session B) Error Unit
  | openScope s => Session.onWorld (Scope.openOn s d)
  | bind s => Session.bind r s ts cs
  | bindTensor s p => do let _ ← Session.onWorld (Scope.bind s p)
  | bindNode s a => do let _ ← Session.onWorld (Scope.bindNode s a)
  | closeScope s => Session.closeScope s
  | setDynamic d' value => (PlanAct.setDynamic d' value).perform
  | applyDynamics => (PlanAct.applyDynamics r).perform
  | upload id data => Session.onRun r fun run => run.edit ts cs (run.upload id data)
  | zero id => Session.onRun r fun run => run.edit ts cs (run.zero id)
  | uploadBound id data => Session.onBound r fun bound => bound.upload id data
  | execute => (PlanAct.execute r).perform
  | executeCall id => (PlanAct.executeCall r id).perform

/-- Each use of a captured one, whose recording stands at `k`. -/
def Use.captured (r d k : Nat) (ts cs : List Nat) : Use → Call (Session B) Error Unit
  | upload id data => Session.onRun r fun run => run.upload id data
  | zero id => Session.onRun r fun run => run.zero id
  | execute => Session.onBound r fun bound => bound.replay k
  | use => use.plain r d ts cs

namespace Session

/-- One step of the program that hasn't captured its run. -/
def Plain (r d : Nat) (σ : Session B) (e : UseEvent) (σ' : Session B) : Prop :=
  e.use.Allowed r d σ ∧ ∃ ts cs, σ.Orders r ts cs ∧ e.use.plain r d ts cs σ = (e.out, σ')

/-- One step of the program that has. -/
def Captured (r d k : Nat) (σ : Session B) (e : UseEvent) (σ' : Session B) : Prop :=
  e.use.OnCaptured ∧ e.use.Allowed r d σ ∧
    ∃ ts cs, σ.Orders r ts cs ∧ e.use.captured r d k ts cs σ = (e.out, σ')

omit [Topology B]

/-- Where the run at `r` is bound, the tensor at `p` stands at the address of the
run's at `q`, and is bound ahead of it. -/
def ShadowedBy (σ : Session B) (r p q : Nat) : Prop :=
  ∃ bound scope id i j, σ.Binds r bound ∧ σ.world.scopes.lookup bound.scope = some scope ∧
    bound.tensors.lookup id = some j ∧ i < j ∧ p ≠ q ∧
    scope.bufs[i]? = some p ∧ scope.bufs[j]? = some q ∧
    ∃ t ∈ σ.world.tensors.lookup p, ∃ t' ∈ σ.world.tensors.lookup q,
      Storage.address t.raw = Storage.address t'.raw

/-- A replay in the scope finds each of the run's tensors first at its address. -/
def Unshadowed (r : Nat) (σ : Session B) (e : UseEvent) : Prop :=
  e.use = .execute → ∀ p q, ¬σ.ShadowedBy r p q

end Session

namespace Use

/-- Uses made one after the other, and how each ends. -/
def events (perform : Use → Call (Session B) Error Unit) : Session B → List Use → List UseEvent
  | _, [] => []
  | σ, u :: rest => ⟨u, (perform u σ).1⟩ :: events perform (perform u σ).2 rest

/-- The session after them. -/
def after (perform : Use → Call (Session B) Error Unit) (σ : Session B) (us : List Use) :
    Session B :=
  us.foldl (fun σ u => (perform u σ).2) σ

omit [Topology B] in
theorem events_uses (perform : Use → Call (Session B) Error Unit) (σ : Session B)
    (us : List Use) : (events perform σ us).map UseEvent.use = us := by
  induction us generalizing σ with
  | nil => rfl
  | cons u rest ih => exact congrArg (u :: ·) (ih _)

/-- Each meets `ok` where it is made. -/
def Plays (ok : Session B → Use → Prop) (perform : Use → Call (Session B) Error Unit) :
    Session B → List Use → Prop
  | _, [] => True
  | σ, u :: rest => ok σ u ∧ Plays ok perform (perform u σ).2 rest

omit [Topology B] in
theorem runs_of_plays {step : Session B → UseEvent → Session B → Prop}
    {ok : Session B → Use → Prop} {perform : Use → Call (Session B) Error Unit}
    (hstep : ∀ σ u, ok σ u → step σ ⟨u, (perform u σ).1⟩ (perform u σ).2) {σ : Session B}
    {us : List Use} (h : Plays ok perform σ us) :
    Transition.Runs step σ (events perform σ us) (after perform σ us) := by
  induction us generalizing σ with
  | nil => exact .nil σ
  | cons u rest ih => exact .cons (hstep σ u h.1) (ih h.2)

end Use

end Wilupgu.Plan
