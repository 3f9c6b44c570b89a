import Wilupgu.Lib.Lists
import Wilupgu.Plan.Fill
import Wilupgu.Plan.Handles
import Wilupgu.Safe.Checked

/-! # Calls and the nodes they run

`edit` may leave a call a node that doesn't fit it, and `bind` pairs the
tensors a call names with the slots its node has, as far as both go. So a call
whose node has fewer slots can run, on the first of its tensors; every other
call that runs has one slot for each. -/

namespace Wilupgu.Plan

open Backend Call Transition

variable {B : Type} [Storage B] [Dispatch B] [Capturable B] [Areable B]

/-- The first `k` calls of `execute`. -/
def Bound.executeFirst (bound : Bound) (k : Nat) : Call (World B) Error Unit :=
  (bound.order.zipIdx.take k).forM fun e => (bound.executeCall e.1).mapErr (.InCall e.2)

namespace Session

variable {σ : Session B} {r id : Nat}

/-- The step `e` gets to the call `id` of the run at `r`, the world being `w`. -/
def Reaches (σ : Session B) (e : PlanEvent B) (r id : Nat) (w : World B) : Prop :=
  (e.act = .executeCall r id ∧ w = σ.world) ∨
    (e.act = .execute r ∧ ∃ bound k, σ.Binds r bound ∧ bound.order[k]? = some id ∧
      bound.executeFirst k σ.world = (.ok (), w))

/-- And runs it successfully. -/
def Ran (σ : Session B) (e : PlanEvent B) (r id : Nat) (w : World B) : Prop :=
  σ.Reaches e r id w ∧ ∃ bound, σ.Binds r bound ∧ (bound.executeCall id w).1 = .ok ()

/-- **The call runs whole**: its node has one slot per tensor it names, and
what reaches the backend is the node with the `i`-th tensor's buffer in slot `i`. -/
def RunsWhole (σ : Session B) (r id : Nat) (w : World B) : Prop :=
  ∃ run call node bound scope bindings,
    σ.runs.lookup r = some run ∧ run.calls.lookup id = some call ∧
    w.nodes.lookup call.node = some node ∧
    node.signature.layout.length = call.tensors.length ∧
    bindings.length = call.tensors.length ∧
    (∀ (i tid : Nat), call.tensors[i]? = some tid → ∃ p t, run.tensors.lookup tid = some (.Live p) ∧
      w.tensors.lookup p = some t ∧ bindings[i]?.map Access.buf = some t.raw) ∧
    σ.Binds r bound ∧ w.scopes.lookup bound.scope = some scope ∧
    bound.executeCall id w = Scope.executed w bound.scope scope call.node node bindings

/-- The call's node has fewer slots than the call names tensors, and its
arguments, which end with the slots, pass the checks. -/
def CutShort (σ : Session B) (r id : Nat) (w : World B) : Prop :=
  ∃ run call node bound slot args scope,
    σ.runs.lookup r = some run ∧ run.calls.lookup id = some call ∧
    w.nodes.lookup call.node = some node ∧ σ.Binds r bound ∧
    bound.calls.lookup id = some (slot, args) ∧ w.scopes.lookup bound.scope = some scope ∧
    node.signature.layout.length < call.tensors.length ∧ Scope.check w scope node args = .ok ()

/-- No call that the step may run is cut short. -/
def NoneCutShort (σ : Session B) (e : PlanEvent B) : Prop :=
  ∀ r id, e.act = .executeCall r id ∨ e.act = .execute r → ¬σ.CutShort r id σ.world

/-- Every call that the step runs runs whole. -/
def AllRunWhole (σ : Session B) (e : PlanEvent B) : Prop :=
  ∀ r id w, σ.Ran e r id w → σ.RunsWhole r id w

/-! ## Running changes nothing the checks look at -/

theorem executeFirst_executed (bound : Bound) (k : Nat) :
    Keeps Executed (bound.executeFirst (B := B) k) :=
  frame_executed.forM fun e _ => keeps_mapErr (executeCall_executed bound e.1)

theorem Reaches.executed {e : PlanEvent B} {w : World B} (h : σ.Reaches e r id w) :
    Executed σ.world w := by
  rcases h with ⟨-, rfl⟩ | ⟨-, bound, k, -, -, hfirst⟩
  · exact frame_executed.refl _
  · have hkeeps := executeFirst_executed bound k σ.world
    rw [hfirst] at hkeeps
    exact hkeeps

theorem check_executed {w w' : World B} (h : w'.tensors = w.tensors) {scope scope' : Scope}
    (hbufs : scope'.bufs = scope.bufs) (node : Node B) (args : List Arg) :
    Scope.check w' scope' node args = Scope.check w scope node args := by
  have hbound : ∀ i, w'.boundTensor scope' i = w.boundTensor scope i := by
    intro i
    simp only [World.boundTensor, World.tensor, hbufs, h]
  simp only [Scope.check, hbound]

/-- Who runs has the arguments that were checked, one for each slot. -/
theorem check_length {w : World B} {scope : Scope} {node : Node B} {args : List Arg}
    (h : Scope.check w scope node args = .ok ()) :
    args.length = node.signature.layout.length := by
  obtain ⟨tensors, ht, h⟩ := Outcome.bind_eq_ok.mp h
  obtain ⟨hkinds, -⟩ := Outcome.check_bind_eq_ok.mp h
  have hlen := congrArg List.length (Rules.slotKinds_eq_ok.mp hkinds)
  rw [List.length_map, List.length_map] at hlen
  rw [hlen]
  exact (Outcome.mapM_eq_ok.mp ht).length_eq

/-- Arguments are for the named tensors, in order, as far as the layout goes. -/
theorem args_eq_ok {call : RunCall} {layout : List BindingRole} {tensors : Places Nat}
    {args : List Arg} (h : Run.args call layout tensors = .ok args) :
    args.length = min call.tensors.length layout.length ∧
      ∀ (i : Nat) (arg : Arg), args[i]? = some arg →
        ∃ tid, call.tensors[i]? = some tid ∧ tensors.lookup tid = some arg.slot := by
  have hall := Outcome.mapM_eq_ok.mp h
  refine ⟨by rw [← hall.length_eq, List.length_zip], fun i arg hi => ?_⟩
  obtain ⟨⟨tid, role⟩, hzip, harg⟩ := hall.flip.exists_getElem?_left hi
  obtain ⟨slot, hslot, harg⟩ := Outcome.bind_eq_ok.mp harg
  refine ⟨tid, (List.getElem?_zip_eq_some.mp hzip).1, ?_⟩
  rw [Outcome.okOr_eq_ok.mp hslot]
  cases role <;> cases harg <;> rfl

/-! ## One call -/

/-- **A call that runs**, and isn't cut short, runs whole. -/
theorem Ran.whole {e : PlanEvent B} {w : World B} (h : σ.Ran e r id w) (hs : σ.Sound)
    (hh : σ.Handled fun _ _ _ => True) (hcut : ¬σ.CutShort r id w) : σ.RunsWhole r id w := by
  obtain ⟨hreach, bound, hb, hok⟩ := h
  have hexec := hreach.executed
  have hbinds := hb
  obtain ⟨borrow, hborrow, hhandle⟩ := hb
  obtain ⟨-, run, hrun, hholds, -⟩ := hh r borrow bound hborrow hhandle
  have hnow := hholds.stays (hexec.onward.staysOpen bound.scope)
  rcases hcalls : bound.calls.lookup id with _ | ⟨slot, args⟩
  · rw [Bound.executeCall, hcalls] at hok
    cases hok
  have hexecute : bound.executeCall id w = Scope.execute bound.scope slot args w := by
    rw [Bound.executeCall, hcalls, check_run]
    rfl
  obtain ⟨call, layout, hcall, ⟨scope, hscope, hslot⟩, hargs, -⟩ := hnow.calls id slot args hcalls
  obtain ⟨node, hnode⟩ : ∃ node, w.nodes.lookup call.node = some node := by
    rw [hexec.nodes]
    exact exists_of_mem (hs.node r id call.node ⟨run, call, hrun, hcall, rfl⟩)
  rw [execute_run hscope (boundNode_eq_ok.mpr ⟨hslot, hnode⟩)] at hexecute
  rw [hexecute] at hok
  rcases hcheck : Scope.check w scope node args with _ | e | _ <;> rw [hcheck] at hok hexecute
  · simp only at hok hexecute
    rcases haccess : Scope.access w scope args with bindings | e | _ <;>
      rw [haccess] at hok hexecute
    · obtain ⟨hlen, hnth⟩ := args_eq_ok hargs
      have hslots := check_length hcheck
      -- as many arguments as slots; were they fewer than the tensors, it would be cut short
      have hwhole : node.signature.layout.length = call.tensors.length := by
        by_contra hne
        refine hcut ⟨run, call, node, bound, slot, args, scope, hrun, hcall, hnode, hbinds, hcalls,
          hscope, ?_, hcheck⟩
        omega
      have hall := access_eq_ok.mp haccess
      refine ⟨run, call, node, bound, scope, bindings, hrun, hcall, hnode, hwhole, ?_, ?_, hbinds,
        hscope, hexecute⟩
      · rw [← hall.length_eq, hslots, hwhole]
      · intro i tid htid
        have hi : i < args.length := by
          rw [hslots, hwhole]
          exact (List.getElem?_eq_some_iff.mp htid).1
        obtain ⟨tid', htid', hslot'⟩ := hnth i args[i] (List.getElem?_eq_getElem hi)
        obtain rfl : tid = tid' := Option.some.inj (htid.symm.trans htid')
        obtain ⟨p, hp, scope', hscope', hbuf⟩ := hnow.tensors tid _ hslot'
        obtain rfl : scope = scope' := Option.some.inj (hscope.symm.trans hscope')
        obtain ⟨b, hbi, t, ht, rfl⟩ := hall.exists_getElem?_left (List.getElem?_eq_getElem hi)
        obtain ⟨p', hp', ht⟩ := boundTensor_eq_ok.mp ht
        obtain rfl : p = p' := Option.some.inj (hbuf.symm.trans hp')
        refine ⟨p, t, hp, ht, ?_⟩
        rw [hbi, Option.map_some]
        cases args[i] <;> rfl
    · cases hok
    · cases hok
  · cases hok
  · cases hok

/-! ## Whole sessions -/

theorem CutShort.executed {w : World B} (h : σ.CutShort r id w) (hexec : Executed σ.world w)
    (hh : σ.Handled fun _ _ _ => True) : σ.CutShort r id σ.world := by
  obtain ⟨run, call, node, bound, slot, args, scope, hrun, hcall, hnode, hb, hcalls, hscope, hlt,
    hcheck⟩ := h
  have hbinds := hb
  obtain ⟨borrow, hborrow, hhandle⟩ := hb
  obtain ⟨-, run', hrun', hholds, -⟩ := hh r borrow bound hborrow hhandle
  obtain ⟨_, _, -, ⟨scope₀, hscope₀, -⟩, -⟩ := hholds.calls id slot args hcalls
  obtain ⟨recording, hnow⟩ := hexec.scopes bound.scope scope₀ hscope₀
  obtain rfl := Option.some.inj (hnow.symm.trans hscope)
  rw [hexec.nodes] at hnode
  rw [check_executed hexec.tensors rfl] at hcheck
  exact ⟨run, call, node, bound, slot, args, scope₀, hrun, hcall, hnode, hbinds, hcalls, hscope₀,
    hlt, hcheck⟩

/-- **Every call that runs, runs whole**, in a session in which none is cut short. -/
theorem calls_run_whole [Topology B] {w : World B} {es : List (PlanEvent B)}
    (h : Runs (Where Step NoneCutShort) (init w) es σ) :
    Runs (Where Step AllRunWhole) (init w) es σ := by
  have hall : Runs (Where (Where Step NoneCutShort) AllRunWhole) (init w) es σ := by
    refine h.where_of_invariant (I := fun σ => σ.Sound ∧ σ.Handled fun _ _ _ => True) ?_ ?_
      ⟨.init w, .init w⟩
    · intro σ e σ' hi hs
      exact ⟨hi.1.step hs.1, hi.2.step hs.1 fun _ _ _ _ _ _ _ => trivial⟩
    · intro σ e σ' hi hs r id w' hran
      refine hran.whole hi.1 hi.2 fun hcut => ?_
      refine hs.2 r id ?_ (hcut.executed hran.1.executed hi.2)
      exact hran.1.imp And.left And.left
  exact hall.mono fun _ _ _ hs => ⟨hs.1.1, hs.2⟩

end Session

/-! ## A node with fewer slots -/

namespace Sample

open Backends

/-- A shader with two slots, of `i8`s it writes. -/
def fillBoth : Shader :=
  ⟨⟨"fill_both", [], [.Output .Int8, .Output .Int8], fun _ _ lens => lens,
    Backends.Sample.same_length, (1, 1, 1)⟩, .Native Backends.Sample.sevens⟩

def other : TensorSpec := { bytes with id := 1 }

/-- One call, on two tensors. -/
def twoTensors : RunSpec :=
  ⟨⟨[bytes, other], [⟨2, ⟨fillBoth, [], some (.linear 1), rfl⟩, [0, 1], rfl⟩], by decide,
    by decide⟩, rfl⟩

/-- A node with one slot, assigned in place of the call's. -/
def assigned : Call (World CpuBackend) Error Unit := do
  World.buildNode 0 200 Backends.Sample.fill [] (.linear 1)
  World.dropNode 102
  World.moveNode 200 102

def built : Session CpuBackend := ((PlanAct.build 0 0 twoTensors site).perform (.init opened)).2

def edited : Session CpuBackend := ((PlanAct.edit 0 [0, 1] [2] assigned).perform built).2

def bound : Session CpuBackend := ((PlanAct.bind 0 0 [0, 1] [2]).perform edited).2

def ran : Session CpuBackend := ((PlanAct.executeCall 0 2).perform bound).2

end Sample

open Backends

set_option maxRecDepth 4000

/-- The slots of a call's node, and the tensors the call names. -/
def Sample.sizes (σ : Session CpuBackend) (r id : Nat) : Option (Nat × Nat) := do
  let call ← (← σ.runs.lookup r).calls.lookup id
  let node ← σ.world.nodes.lookup call.node
  return (node.signature.layout.length, call.tensors.length)

theorem Sample.sizes_eq {σ : Session CpuBackend} {r id : Nat} {run : Run} {call : RunCall}
    {node : Node CpuBackend} (hrun : σ.runs.lookup r = some run)
    (hcall : run.calls.lookup id = some call) (hnode : σ.world.nodes.lookup call.node = some node) :
    Sample.sizes σ r id = some (node.signature.layout.length, call.tensors.length) := by
  simp [Sample.sizes, hrun, hcall, hnode]

theorem Sample.run_built : Session.Step (.init Sample.opened)
    ⟨.build 0 0 Sample.twoTensors Sample.site, .ok ()⟩ Sample.built :=
  ⟨⟨rfl, ⟨by decide, by decide⟩, by decide, by decide⟩, rfl⟩

theorem Sample.leaves_assigned :
    Sample.built.Leaves (some 0) (Sample.assigned Sample.built.world).2 := by
  -- there is one run, the one that is edited
  have hone : ∀ r run, Sample.built.runs.lookup r = some run →
      r = 0 ∧ run = builtRun Sample.twoTensors 0 Sample.site (builtTensors Sample.twoTensors
        Sample.site) := by
    intro r run hr
    have hruns : Sample.built.runs.lookup r = if r = 0 then some (builtRun Sample.twoTensors 0
        Sample.site (builtTensors Sample.twoTensors Sample.site)) else (∅ : Places Run).lookup r :=
      AList.lookup_insert_eq _ 0 r _
    rw [hruns] at hr
    split at hr
    · rename_i h
      exact ⟨h, (Option.some.inj hr).symm⟩
    · cases hr
  refine ⟨fun r run hr hne => ?_, fun r run hr hne => ?_, fun r run hr => ?_,
    fun r borrow scope hb => ?_⟩
  · obtain ⟨rfl, -⟩ := hone r run hr
    exact absurd rfl hne
  · obtain ⟨rfl, -⟩ := hone r run hr
    exact absurd rfl hne
  · obtain ⟨-, rfl⟩ := hone r run hr
    refine ⟨by decide, fun p hp => ?_⟩
    obtain ⟨spec, hspec, rfl⟩ := builtTensors_values hp
    revert spec
    decide
  · cases hb

/-- **A call left with a node of one slot runs**, though it names two tensors. -/
theorem misfit_call_runs : ∃ es σ e σ', Runs Session.Step (.init Sample.opened) es σ ∧
    σ.Step e σ' ∧ e.out = .ok () ∧ ¬σ.AllRunWhole e := by
  have hedited : Session.Step Sample.built
      ⟨.edit 0 [0, 1] [2] Sample.assigned, .err (.SlotCount "fill" 1 2)⟩ Sample.edited :=
    ⟨⟨⟨by decide, rfl⟩, Sample.leaves_assigned, _, rfl, by decide, by decide⟩, rfl⟩
  have hbound : Session.Step Sample.edited ⟨.bind 0 0 [0, 1] [2], .ok ()⟩ Sample.bound :=
    ⟨⟨⟨by decide, rfl⟩, by decide, _, rfl, by decide, by decide⟩, rfl⟩
  have hran : Session.Step Sample.bound ⟨.executeCall 0 2, .ok ()⟩ Sample.ran :=
    ⟨⟨_, _, rfl, rfl⟩, rfl⟩
  refine ⟨_, _, _, _, .cons Sample.run_built (.cons hedited (.single hbound)), hran, rfl,
    fun hwhole => ?_⟩
  obtain ⟨run, call, node, _, _, _, hrun, hcall, hnode, hlen, -⟩ :=
    hwhole 0 2 _ ⟨.inl ⟨rfl, rfl⟩, _, ⟨_, rfl, rfl⟩, rfl⟩
  have hsizes : Sample.sizes Sample.bound 0 2 = some (1, 2) := by decide
  rw [Sample.sizes_eq hrun hcall hnode, hlen] at hsizes
  simp only [Option.some.injEq, Prod.mk.injEq] at hsizes
  omega

/-- Left as it was built, the call runs on both its tensors. -/
theorem built_call_runs_whole : ∃ es σ, es.length = 3 ∧
    Runs (Where Session.Step Session.AllRunWhole) (.init Sample.opened) es σ := by
  have hbound : Session.Step Sample.built ⟨.bind 0 0 [0, 1] [2], .ok ()⟩
      ((PlanAct.bind 0 0 [0, 1] [2]).perform Sample.built).2 :=
    ⟨⟨⟨by decide, rfl⟩, by decide, _, rfl, by decide, by decide⟩, rfl⟩
  have hran : Session.Step ((PlanAct.bind 0 0 [0, 1] [2]).perform Sample.built).2
      ⟨.executeCall 0 2, .ok ()⟩ ((PlanAct.executeCall 0 2).perform
        ((PlanAct.bind 0 0 [0, 1] [2]).perform Sample.built).2).2 :=
    ⟨⟨_, _, rfl, rfl⟩, rfl⟩
  refine ⟨_, _, rfl, Session.calls_run_whole (.cons ⟨Sample.run_built, ?_⟩ (.cons ⟨hbound, ?_⟩
    (.single ⟨hran, ?_⟩)))⟩
  · intro r id hact
    rcases hact with hact | hact <;> cases hact
  · intro r id hact
    rcases hact with hact | hact <;> cases hact
  · intro r id hact hcut
    obtain ⟨run, call, node, _, _, _, _, hrun, hcall, hnode, -, -, -, hlt, -⟩ := hcut
    rcases hact with hact | hact <;> cases hact
    have hsizes : Sample.sizes ((PlanAct.bind 0 0 [0, 1] [2]).perform Sample.built).2 0 2 =
        some (2, 2) := by
      decide
    rw [Sample.sizes_eq hrun hcall hnode] at hsizes
    simp only [Option.some.injEq, Prod.mk.injEq] at hsizes
    omega

end Wilupgu.Plan
