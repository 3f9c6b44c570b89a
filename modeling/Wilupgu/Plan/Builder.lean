import Wilupgu.Lib.Lists
import Wilupgu.Lib.Places
import Wilupgu.Lib.Transition
import Wilupgu.Plan.Spec
import Wilupgu.Safe.Spec

/-! # Plans made a step at a time

src/tools/plan/builder.rs, the ids of id.rs, and the specs a program makes by
hand. All ids come from one counter, which wraps around. Threads make specs
side by side: a step is what no other thread can come in between, so a
`PlanBuilder::call` is two of them, one per id. A `RunDesc` put together by
hand stands with the builders. What is dropped stays where it was and isn't
named again. -/

namespace Wilupgu.Plan

open Backend Call Transition

/-! ## Builders -/

structure PlanBuilder where
  tensors : List TensorSpec
  calls : List CallSpec

namespace PlanBuilder

def new : PlanBuilder := ⟨[], []⟩

def ids (p : PlanBuilder) : List Nat := p.tensors.map TensorSpec.id ++ p.calls.map CallSpec.id

def check (p : PlanBuilder) : Outcome Error Unit := checkCalls p.tensors p.calls

def pushTensor (p : PlanBuilder) (spec : TensorSpec) : PlanBuilder :=
  { p with tensors := p.tensors ++ [spec] }

def pushCall (p : PlanBuilder) (spec : CallSpec) : PlanBuilder :=
  { p with calls := p.calls ++ [spec] }

theorem check_cases (p : PlanBuilder) :
    p.check = .ok () ∨ ∃ e, p.check = .err e := by
  refine Outcome.returns_iff.mp (Outcome.returns_forM fun call _ => ?_)
  refine Outcome.returns_bind (Outcome.returns_mapM fun id _ => ?_) fun _ _ =>
    Outcome.returns_bind (Rules.slotKinds_returns _ _) fun _ _ => Rules.notAliased_returns _ _
  cases p.tensors.find? fun t => t.id = id <;> rfl

/-- The tensors that a call names are the plan's, each of its slot's kind, and
what it writes is in one slot only. -/
structure CallFits (p : PlanBuilder) (call : CallSpec) : Prop where
  found : List.Forall₂ (fun id role => ∃ spec ∈ p.tensors, spec.id = id ∧ spec.kind = role.kind)
    call.tensors call.node.shader.signature.layout
  alone : ∀ (slot : Nat) (role : BindingRole) (t : Nat),
    call.node.shader.signature.layout[slot]? = some role → role.isInput = false →
      call.tensors[slot]? = some t → ∀ other, other ≠ slot → call.tensors[other]? ≠ some t

theorem check_eq_ok {p : PlanBuilder} (h : (p.tensors.map TensorSpec.id).Nodup) :
    p.check = .ok () ↔ ∀ call ∈ p.calls, p.CallFits call := by
  refine Outcome.forM_eq_ok.trans (forall₂_congr fun call _ => ?_)
  simp only [Outcome.bind_eq_ok, Outcome.mapM_eq_ok]
  constructor
  · rintro ⟨kinds, hkinds, _, hslots, halias⟩
    refine ⟨?_, Rules.notAliased_eq_ok.mp halias⟩
    rw [← Rules.slotKinds_eq_ok.mp hslots, List.forall₂_map_right_iff] at hkinds
    refine hkinds.imp fun id role ⟨spec, hspec, hkind⟩ => ?_
    obtain ⟨hmem, hid⟩ := (List.find?_key_eq_some h).mp (Outcome.okOr_eq_ok.mp hspec)
    exact ⟨spec, hmem, hid, Outcome.ok.inj hkind⟩
  · rintro ⟨hfound, halone⟩
    refine ⟨_, ?_, (), Rules.slotKinds_eq_ok.mpr rfl, Rules.notAliased_eq_ok.mpr halone⟩
    rw [List.forall₂_map_right_iff]
    refine hfound.imp fun id role ⟨spec, hmem, hid, hkind⟩ => ?_
    have hlook := (List.find?_key_eq_some h).mpr ⟨hmem, hid⟩
    exact ⟨spec, Outcome.okOr_eq_ok.mpr hlook, congrArg _ hkind⟩

end PlanBuilder

/-! ## All there is of plans in a program -/

/-- The counter, the specs on their own, the builders, and what is finished. -/
structure Drafts where
  next : UInt64
  tensors : Places TensorSpec
  nodes : Places NodeSpec
  calls : Places CallSpec
  builders : Places PlanBuilder
  plans : Places PlanBuilder

namespace Drafts

def init : Drafts := ⟨0, ∅, ∅, ∅, ∅, ∅⟩

def tensor (σ : Drafts) (t : Nat) : Outcome Error TensorSpec := .expect (σ.tensors.lookup t)

def node (σ : Drafts) (n : Nat) : Outcome Error NodeSpec := .expect (σ.nodes.lookup n)

def call (σ : Drafts) (c : Nat) : Outcome Error CallSpec := .expect (σ.calls.lookup c)

def builder (σ : Drafts) (b : Nat) : Outcome Error PlanBuilder := .expect (σ.builders.lookup b)

/-- What is made with the next id. None is taken where its checks fail. -/
def withId {α : Type} (make : Nat → Outcome Error α) : Call Drafts Error α where
  run σ :=
    let made := make σ.next.toNat
    (made, if made.isOk then { σ with next := σ.next + 1 } else σ)

def putBuilder (b : Nat) (p : PlanBuilder) : Call Drafts Error Unit :=
  .modify fun σ => { σ with builders := σ.builders.insert b p }

/-- `TensorBuilder::add`. -/
def add (b : Nat) (kind : DataKind) (len : Known Nat) (init : TensorInit) :
    Call Drafts Error Nat := do
  let spec ← withId fun id => TensorSpec.new id kind len init
  putBuilder b ((← (← .get).builder b).pushTensor spec)
  return spec.id

/-- `TensorBuilder::upload`, `zero` and `blank`. Only an upload is to fail. -/
def addTensor (b : Nat) (kind : DataKind) (len : Known Nat) : TensorInit → Call Drafts Error Nat
  | .Upload data => add b kind len (.Upload data)
  | init => do
    match ← (add b kind len init).attempt with
    | .ok id => return id
    | .error _ => (.panic : Outcome Error Nat)

/-- `PlanBuilder::call`, once its node is made. -/
def addCall (b n : Nat) (tensors : List Nat) : Call Drafts Error Nat := do
  let node ← (← .get).node n
  let call ← withId fun id => CallSpec.new id node tensors
  putBuilder b ((← (← .get).builder b).pushCall call)
  return call.id

/-- `PlanBuilder::finish`. The specs are gone if it fails. -/
def finish (b p : Nat) : Call Drafts Error Nat := do
  let desc ← (← .get).builder b
  .modify fun σ => { σ with builders := σ.builders.erase b }
  let id ← withId fun id => do
    desc.check
    return id
  .modify fun σ => { σ with plans := σ.plans.insert p desc }
  return id

end Drafts

/-- What a thread does. The first four are `TensorSpec::new`, `NodeSpec::new`,
`CallSpec::new` and any other use of the counter. A `put` moves a spec into a
`RunDesc`, and `finish` is `RunSpec::new` too. -/
inductive DraftAct where
  | tensor (t : Nat) (kind : DataKind) (len : Known Nat) (init : TensorInit)
  | node (n : Nat) (shader : Shader) (metaSources : List MetaSource) (wg : Known Workgroups)
  | call (c n : Nat) (tensors : List Nat)
  | elsewhere
  | builder (b : Nat)
  | addTensor (b : Nat) (kind : DataKind) (len : Known Nat) (init : TensorInit)
  | addCall (b n : Nat) (tensors : List Nat)
  | putTensor (b t : Nat)
  | putCall (b c : Nat)
  | finish (b p : Nat)

structure DraftEvent where
  act : DraftAct
  out : Outcome Error Nat

namespace DraftAct

/-- New things get new places, and a thread has what it works with. -/
def Allowed (σ : Drafts) : DraftAct → Prop
  | tensor t .. => σ.tensors.Free t
  | node n .. => σ.nodes.Free n
  | call c n _ => σ.calls.Free c ∧ n ∈ σ.nodes
  | elsewhere => True
  | builder b => σ.builders.Free b
  | addTensor b .. => b ∈ σ.builders
  | addCall b n _ => b ∈ σ.builders ∧ n ∈ σ.nodes
  | putTensor b t => b ∈ σ.builders ∧ t ∈ σ.tensors
  | putCall b c => b ∈ σ.builders ∧ c ∈ σ.calls
  | finish b p => b ∈ σ.builders ∧ σ.plans.Free p

/-- Ends with the id of what it makes or moves. -/
def perform : DraftAct → Call Drafts Error Nat
  | tensor t kind len init => do
    let spec ← Drafts.withId fun id => TensorSpec.new id kind len init
    .modify fun σ => { σ with tensors := σ.tensors.insert t spec }
    return spec.id
  | node n shader metaSources wg => do
    let (id, spec) ← Drafts.withId fun id => do
      return (id, ← NodeSpec.new shader metaSources wg)
    .modify fun σ => { σ with nodes := σ.nodes.insert n spec }
    return id
  | call c n tensors => do
    let node ← (← .get).node n
    let spec ← Drafts.withId fun id => CallSpec.new id node tensors
    .modify fun σ => { σ with calls := σ.calls.insert c spec }
    return spec.id
  | elsewhere => Drafts.withId fun id => .ok id
  | builder b => do
    Drafts.putBuilder b .new
    return 0
  | addTensor b kind len init => Drafts.addTensor b kind len init
  | addCall b n tensors => Drafts.addCall b n tensors
  | putTensor b t => do
    let spec ← (← .get).tensor t
    .modify fun σ => { σ with tensors := σ.tensors.erase t }
    Drafts.putBuilder b ((← (← .get).builder b).pushTensor spec)
    return spec.id
  | putCall b c => do
    let spec ← (← .get).call c
    .modify fun σ => { σ with calls := σ.calls.erase c }
    Drafts.putBuilder b ((← (← .get).builder b).pushCall spec)
    return spec.id
  | finish b p => Drafts.finish b p

/-- It takes an id from the counter where it succeeds. -/
def mints : DraftAct → Bool
  | builder _ | putTensor _ _ | putCall _ _ => false
  | _ => true

end DraftAct

/-- It succeeded and has an id of its own. -/
def DraftEvent.minted (e : DraftEvent) : Bool := e.act.mints && e.out.isOk

/-- The tensor that a step adds to `b`, by its id. -/
def DraftEvent.tensorTo (b : Nat) : DraftEvent → List Nat
  | ⟨.addTensor b' .., .ok id⟩ | ⟨.putTensor b' _, .ok id⟩ => if b' = b then [id] else []
  | _ => []

/-- The call that it adds. -/
def DraftEvent.callTo (b : Nat) : DraftEvent → List Nat
  | ⟨.addCall b' .., .ok id⟩ | ⟨.putCall b' _, .ok id⟩ => if b' = b then [id] else []
  | _ => []

namespace Drafts

def Step (σ : Drafts) (e : DraftEvent) (σ' : Drafts) : Prop :=
  e.act.Allowed σ ∧ e.act.perform σ = (e.out, σ')

/-- One id further. -/
def minted (σ : Drafts) : Drafts := { σ with next := σ.next + 1 }

/-- **All that a step can do.** -/
inductive Does (σ : Drafts) : DraftEvent → Drafts → Prop
  | failed {act : DraftAct} {e : Error} : (∀ b k, act ≠ .finish b k) → Does σ ⟨act, .err e⟩ σ
  | unfinished {b k : Nat} {p : PlanBuilder} {e : Error} :
      σ.builders.lookup b = some p → p.check = .err e →
      Does σ ⟨.finish b k, .err e⟩ { σ with builders := σ.builders.erase b }
  | tensor {t : Nat} {kind : DataKind} {len : Known Nat} {init : TensorInit} {spec : TensorSpec} :
      σ.tensors.Free t → TensorSpec.new σ.next.toNat kind len init = .ok spec →
      Does σ ⟨.tensor t kind len init, .ok spec.id⟩
        { σ.minted with tensors := σ.tensors.insert t spec }
  | node {n : Nat} {shader : Shader} {metaSources : List MetaSource} {wg : Known Workgroups}
      {spec : NodeSpec} :
      Does σ ⟨.node n shader metaSources wg, .ok σ.next.toNat⟩
        { σ.minted with nodes := σ.nodes.insert n spec }
  | call {c n : Nat} {tensors : List Nat} {node : NodeSpec} {spec : CallSpec} :
      σ.calls.Free c → CallSpec.new σ.next.toNat node tensors = .ok spec →
      Does σ ⟨.call c n tensors, .ok spec.id⟩ { σ.minted with calls := σ.calls.insert c spec }
  | elsewhere : Does σ ⟨.elsewhere, .ok σ.next.toNat⟩ σ.minted
  | builder {b : Nat} : σ.builders.Free b →
      Does σ ⟨.builder b, .ok 0⟩ { σ with builders := σ.builders.insert b .new }
  | addTensor {b : Nat} {p : PlanBuilder} {kind : DataKind} {len : Known Nat} {init : TensorInit}
      {spec : TensorSpec} :
      σ.builders.lookup b = some p → TensorSpec.new σ.next.toNat kind len init = .ok spec →
      Does σ ⟨.addTensor b kind len init, .ok spec.id⟩
        { σ.minted with builders := σ.builders.insert b (p.pushTensor spec) }
  | addCall {b n : Nat} {p : PlanBuilder} {tensors : List Nat} {node : NodeSpec}
      {spec : CallSpec} :
      σ.builders.lookup b = some p → CallSpec.new σ.next.toNat node tensors = .ok spec →
      Does σ ⟨.addCall b n tensors, .ok spec.id⟩
        { σ.minted with builders := σ.builders.insert b (p.pushCall spec) }
  | putTensor {b t : Nat} {p : PlanBuilder} {spec : TensorSpec} :
      σ.builders.lookup b = some p → σ.tensors.lookup t = some spec →
      Does σ ⟨.putTensor b t, .ok spec.id⟩ { σ with
        tensors := σ.tensors.erase t, builders := σ.builders.insert b (p.pushTensor spec) }
  | putCall {b c : Nat} {p : PlanBuilder} {spec : CallSpec} :
      σ.builders.lookup b = some p → σ.calls.lookup c = some spec →
      Does σ ⟨.putCall b c, .ok spec.id⟩ { σ with
        calls := σ.calls.erase c, builders := σ.builders.insert b (p.pushCall spec) }
  | finish {b k : Nat} {p : PlanBuilder} : σ.builders.lookup b = some p → σ.plans.Free k →
      p.check = .ok () → Does σ ⟨.finish b k, .ok σ.next.toNat⟩ { σ.minted with
        builders := σ.builders.erase b, plans := σ.plans.insert k p }

variable {σ σ' : Drafts} {e : DraftEvent}

theorem withId_run {α : Type} (make : Nat → Outcome Error α) (σ : Drafts) : withId make σ =
    (make σ.next.toNat, if (make σ.next.toNat).isOk then σ.minted else σ) := rfl

theorem tensorSpec_cases (id : Nat) (kind : DataKind) (len : Known Nat) (init : TensorInit) :
    (∃ spec, TensorSpec.new id kind len init = .ok spec ∧ spec.id = id) ∨
      ∃ e data, init = .Upload data ∧ TensorSpec.new id kind len init = .err e := by
  cases init with
  | Blank | Zero => exact .inl ⟨⟨id, kind, len, _, rfl⟩, rfl, rfl⟩
  | Upload data =>
    by_cases hkind : kind = data.kind
    · have hok : TensorInit.check kind (.Upload data) = .ok () := Rules.sameKind_eq_ok.mpr hkind
      exact .inl ⟨⟨id, kind, len, _, hok⟩, Outcome.checked_eq_ok.mpr ⟨hok, rfl⟩, rfl⟩
    · have herr : TensorInit.check kind (.Upload data) = .err _ := if_neg hkind
      exact .inr ⟨_, data, rfl, Outcome.checked_of_err herr⟩

theorem nodeSpec_cases (shader : Shader) (metaSources : List MetaSource) (wg : Known Workgroups) :
    (∃ spec, NodeSpec.new shader metaSources wg = .ok spec) ∨
      ∃ e, NodeSpec.new shader metaSources wg = .err e := by
  rcases Outcome.returns_iff.mp (Rules.metaTypes_returns shader.signature
    (metaSources.map MetaSource.ty)) with hok | ⟨e, herr⟩
  · exact .inl ⟨⟨shader, metaSources, wg, hok⟩, Outcome.checked_eq_ok.mpr ⟨hok, rfl⟩⟩
  · exact .inr ⟨e, Outcome.checked_of_err herr⟩

theorem callSpec_cases (id : Nat) (node : NodeSpec) (tensors : List Nat) :
    (∃ spec, CallSpec.new id node tensors = .ok spec ∧ spec.id = id ∧ spec.tensors = tensors) ∨
      ∃ e, CallSpec.new id node tensors = .err e := by
  by_cases hslots : node.shader.signature.layout.length = tensors.length
  · have hok := Rules.slotCount_eq_ok.mpr hslots
    exact .inl ⟨⟨id, node, tensors, hok⟩, Outcome.checked_eq_ok.mpr ⟨hok, rfl⟩, rfl, rfl⟩
  · exact .inr ⟨_, Outcome.checked_of_err (if_neg hslots)⟩

theorem minted_builder (σ : Drafts) (b : Nat) : σ.minted.builder b = σ.builder b := rfl

theorem builder_of_lookup {b : Nat} {p : PlanBuilder} (h : σ.builders.lookup b = some p) :
    σ.builder b = .ok p := Outcome.expect_eq_ok.mpr h

theorem node_of_lookup {n : Nat} {node : NodeSpec} (h : σ.nodes.lookup n = some node) :
    σ.node n = .ok node := Outcome.expect_eq_ok.mpr h

/-- Adding a tensor to a builder. -/
theorem add_cases {b : Nat} {p : PlanBuilder} (hb : σ.builders.lookup b = some p) (kind : DataKind)
    (len : Known Nat) (init : TensorInit) :
    (∃ spec, TensorSpec.new σ.next.toNat kind len init = .ok spec ∧ add b kind len init σ =
        (.ok spec.id, { σ.minted with builders := σ.builders.insert b (p.pushTensor spec) })) ∨
      ∃ e data, init = .Upload data ∧ add b kind len init σ = (.err e, σ) := by
  rcases tensorSpec_cases σ.next.toNat kind len init with ⟨spec, hspec, -⟩ | ⟨e, data, hup, herr⟩
  · refine .inl ⟨spec, hspec, ?_⟩
    simp only [add, bind_run, withId_run, hspec, Outcome.isOk, if_true, get_run, lift_run,
      minted_builder, builder_of_lookup hb]
    rfl
  · refine .inr ⟨e, data, hup, ?_⟩
    simp only [add, bind_run, withId_run, herr]
    rfl

theorem addTensor_does {b : Nat} {p : PlanBuilder} (hb : σ.builders.lookup b = some p)
    (kind : DataKind) (len : Known Nat) (init : TensorInit) :
    σ.Does ⟨.addTensor b kind len init, (addTensor b kind len init σ).1⟩
      (addTensor b kind len init σ).2 := by
  rcases add_cases hb kind len init with ⟨spec, hspec, hadd⟩ | ⟨e, data, rfl, hadd⟩
  · have hrun : addTensor b kind len init σ = add b kind len init σ := by
      cases init with
      | Upload data => rfl
      | Blank | Zero => exact (bind_of_ok (attempt_eq_ok.mpr hadd)).trans hadd.symm
    rw [hrun, hadd]
    exact .addTensor hb hspec
  · rw [show addTensor b kind len (.Upload data) σ = (.err e, σ) from hadd]
    exact .failed fun _ _ h => by cases h

theorem addCall_does {b n : Nat} {p : PlanBuilder} (hb : σ.builders.lookup b = some p)
    (hn : n ∈ σ.nodes) (tensors : List Nat) :
    σ.Does ⟨.addCall b n tensors, (addCall b n tensors σ).1⟩ (addCall b n tensors σ).2 := by
  obtain ⟨node, hnode⟩ := exists_of_mem hn
  rcases callSpec_cases σ.next.toNat node tensors with ⟨spec, hspec, -⟩ | ⟨e, herr⟩
  · have hrun : addCall b n tensors σ = (.ok spec.id,
        { σ.minted with builders := σ.builders.insert b (p.pushCall spec) }) := by
      simp only [addCall, bind_run, withId_run, hspec, Outcome.isOk, if_true, get_run, lift_run,
        node_of_lookup hnode, minted_builder, builder_of_lookup hb]
      rfl
    rw [hrun]
    exact .addCall hb hspec
  · have hrun : addCall b n tensors σ = (.err e, σ) := by
      simp only [addCall, bind_run, withId_run, herr, get_run, lift_run, node_of_lookup hnode]
      rfl
    rw [hrun]
    exact .failed fun _ _ h => by cases h

theorem finish_does {b k : Nat} {p : PlanBuilder} (hb : σ.builders.lookup b = some p)
    (hfree : σ.plans.Free k) : σ.Does ⟨.finish b k, (finish b k σ).1⟩ (finish b k σ).2 := by
  rcases p.check_cases with hok | ⟨e, herr⟩
  · have hrun : finish b k σ = (.ok σ.next.toNat, { σ.minted with
        builders := σ.builders.erase b, plans := σ.plans.insert k p }) := by
      simp only [finish, bind_run, withId_run, hok, get_run, lift_run, builder_of_lookup hb,
        modify_run]
      rfl
    rw [hrun]
    exact .finish hb hfree hok
  · have hrun : finish b k σ = (.err e, { σ with builders := σ.builders.erase b }) := by
      simp only [finish, bind_run, withId_run, herr, get_run, lift_run, builder_of_lookup hb,
        modify_run]
      rfl
    rw [hrun]
    exact .unfinished hb herr

theorem Step.does (h : σ.Step e σ') : σ.Does e σ' := by
  rcases e with ⟨act, out⟩
  obtain ⟨ha, hp⟩ := h
  obtain rfl : (act.perform σ).1 = out := congrArg Prod.fst hp
  obtain rfl : (act.perform σ).2 = σ' := congrArg Prod.snd hp
  clear hp
  cases act with
  | tensor t kind len init =>
    rcases tensorSpec_cases σ.next.toNat kind len init with ⟨spec, hspec, -⟩ | ⟨e, data, rfl, herr⟩
    · have hrun : (DraftAct.tensor t kind len init).perform σ =
          (.ok spec.id, { σ.minted with tensors := σ.tensors.insert t spec }) := by
        simp only [DraftAct.perform, bind_run, withId_run, hspec]
        rfl
      rw [hrun]
      exact .tensor ha hspec
    · have hrun : (DraftAct.tensor t kind len (.Upload data)).perform σ = (.err e, σ) := by
        simp only [DraftAct.perform, bind_run, withId_run, herr]
        rfl
      rw [hrun]
      exact .failed fun _ _ h => by cases h
  | node n shader metaSources wg =>
    rcases nodeSpec_cases shader metaSources wg with ⟨spec, hspec⟩ | ⟨e, herr⟩
    · have hrun : (DraftAct.node n shader metaSources wg).perform σ =
          (.ok σ.next.toNat, { σ.minted with nodes := σ.nodes.insert n spec }) := by
        simp only [DraftAct.perform, bind_run, withId_run, hspec]
        rfl
      rw [hrun]
      exact .node
    · have hrun : (DraftAct.node n shader metaSources wg).perform σ = (.err e, σ) := by
        simp only [DraftAct.perform, bind_run, withId_run, herr]
        rfl
      rw [hrun]
      exact .failed fun _ _ h => by cases h
  | call c n tensors =>
    obtain ⟨node, hnode⟩ := exists_of_mem ha.2
    rcases callSpec_cases σ.next.toNat node tensors with ⟨spec, hspec, -⟩ | ⟨e, herr⟩
    · have hrun : (DraftAct.call c n tensors).perform σ =
          (.ok spec.id, { σ.minted with calls := σ.calls.insert c spec }) := by
        simp only [DraftAct.perform, bind_run, withId_run, hspec, get_run, lift_run,
          node_of_lookup hnode]
        rfl
      rw [hrun]
      exact .call ha.1 hspec
    · have hrun : (DraftAct.call c n tensors).perform σ = (.err e, σ) := by
        simp only [DraftAct.perform, bind_run, withId_run, herr, get_run, lift_run,
          node_of_lookup hnode]
        rfl
      rw [hrun]
      exact .failed fun _ _ h => by cases h
  | elsewhere => exact .elsewhere
  | builder b => exact .builder ha
  | addTensor b kind len init =>
    obtain ⟨p, hb⟩ := exists_of_mem ha
    exact addTensor_does hb kind len init
  | addCall b n tensors =>
    obtain ⟨p, hb⟩ := exists_of_mem ha.1
    exact addCall_does hb ha.2 tensors
  | putTensor b t =>
    obtain ⟨p, hb⟩ := exists_of_mem ha.1
    obtain ⟨spec, hspec⟩ := exists_of_mem ha.2
    have hrun : (DraftAct.putTensor b t).perform σ = (.ok spec.id, { σ with
        tensors := σ.tensors.erase t, builders := σ.builders.insert b (p.pushTensor spec) }) := by
      simp only [DraftAct.perform, bind_run, get_run, lift_run, modify_run, tensor, hspec, builder,
        hb, Outcome.expect]
      rfl
    rw [hrun]
    exact .putTensor hb hspec
  | putCall b c =>
    obtain ⟨p, hb⟩ := exists_of_mem ha.1
    obtain ⟨spec, hspec⟩ := exists_of_mem ha.2
    have hrun : (DraftAct.putCall b c).perform σ = (.ok spec.id, { σ with
        calls := σ.calls.erase c, builders := σ.builders.insert b (p.pushCall spec) }) := by
      simp only [DraftAct.perform, bind_run, get_run, lift_run, modify_run, call, hspec, builder,
        hb, Outcome.expect]
      rfl
    rw [hrun]
    exact .putCall hb hspec
  | finish b k =>
    obtain ⟨p, hb⟩ := exists_of_mem ha.1
    exact finish_does hb ha.2

/-! ## Ids -/

/-- The ids of all specs, wherever they are. -/
def ids (σ : Drafts) : List Nat :=
  σ.tensors.values.flatMap (fun spec => [spec.id]) ++ σ.calls.values.flatMap (fun spec => [spec.id])
    ++ σ.builders.values.flatMap PlanBuilder.ids ++ σ.plans.values.flatMap PlanBuilder.ids

theorem tensorSpec_id {id : Nat} {kind : DataKind} {len : Known Nat} {init : TensorInit}
    {spec : TensorSpec} (h : TensorSpec.new id kind len init = .ok spec) : spec.id = id := by
  obtain ⟨_, rfl⟩ := Outcome.checked_eq_ok.mp h
  rfl

theorem callSpec_id {id : Nat} {node : NodeSpec} {tensors : List Nat} {spec : CallSpec}
    (h : CallSpec.new id node tensors = .ok spec) : spec.id = id ∧ spec.tensors = tensors := by
  obtain ⟨_, rfl⟩ := Outcome.checked_eq_ok.mp h
  exact ⟨rfl, rfl⟩

theorem count_pushTensor (p : PlanBuilder) (spec : TensorSpec) (x : Nat) :
    (p.pushTensor spec).ids.count x = [spec.id].count x + p.ids.count x := by
  simp only [PlanBuilder.ids, PlanBuilder.pushTensor, List.map_append, List.map_cons, List.map_nil,
    List.count_append]
  omega

theorem count_pushCall (p : PlanBuilder) (spec : CallSpec) (x : Nat) :
    (p.pushCall spec).ids.count x = [spec.id].count x + p.ids.count x := by
  simp only [PlanBuilder.ids, PlanBuilder.pushCall, List.map_append, List.map_cons, List.map_nil,
    List.count_append]
  omega

theorem Does.next (h : σ.Does e σ') : σ'.next = if e.minted then σ.next + 1 else σ.next := by
  cases h with
  | failed _ => simp [DraftEvent.minted, Outcome.isOk]
  | _ => rfl

/-- The ids of what stands where, counted. -/
theorem count_ids (σ : Drafts) (x : Nat) : σ.ids.count x =
    (σ.tensors.values.flatMap fun spec => [spec.id]).count x +
      (σ.calls.values.flatMap fun spec => [spec.id]).count x +
      (σ.builders.values.flatMap PlanBuilder.ids).count x +
      (σ.plans.values.flatMap PlanBuilder.ids).count x := by
  simp only [ids, List.count_append]

/-- A step adds no id but the one it takes from the counter. -/
theorem Does.count (h : σ.Does e σ') (x : Nat) : σ'.ids.count x ≤
    σ.ids.count x + if e.minted then [σ.next.toNat].count x else 0 := by
  rw [count_ids, count_ids]
  cases h with
  | failed _ => exact Nat.le_add_right _ _
  | unfinished hb herr =>
    rw [AList.count_of_lookup _ x hb]
    simp only
    omega
  | tensor hfree hspec =>
    have hid := tensorSpec_id hspec
    simp only [DraftEvent.minted, DraftAct.mints, Outcome.isOk, minted,
      AList.count_insert_of_free _ x hfree, hid, Bool.and_self, if_true]
    omega
  | node | elsewhere => exact Nat.le_add_right _ _
  | call hfree hspec =>
    obtain ⟨hid, -⟩ := callSpec_id hspec
    simp only [DraftEvent.minted, DraftAct.mints, Outcome.isOk, minted,
      AList.count_insert_of_free _ x hfree, hid, Bool.and_self, if_true]
    omega
  | builder hfree =>
    rw [AList.count_insert_of_free _ x hfree]
    simp only [PlanBuilder.ids, PlanBuilder.new, List.map_nil, List.append_nil, List.count_nil]
    omega
  | addTensor hb hspec =>
    have hid := tensorSpec_id hspec
    rw [AList.count_of_lookup _ x hb]
    simp only [DraftEvent.minted, DraftAct.mints, Outcome.isOk, minted, AList.count_insert,
      count_pushTensor, hid, Bool.and_self, if_true]
    omega
  | addCall hb hspec =>
    obtain ⟨hid, -⟩ := callSpec_id hspec
    rw [AList.count_of_lookup _ x hb]
    simp only [DraftEvent.minted, DraftAct.mints, Outcome.isOk, minted, AList.count_insert,
      count_pushCall, hid, Bool.and_self, if_true]
    omega
  | putTensor hb ht =>
    rw [AList.count_of_lookup _ x hb, AList.count_of_lookup _ x ht]
    simp only [AList.count_insert, count_pushTensor]
    omega
  | putCall hb hc =>
    rw [AList.count_of_lookup _ x hb, AList.count_of_lookup _ x hc]
    simp only [AList.count_insert, count_pushCall]
    omega
  | finish hb hfree hok =>
    rw [AList.count_of_lookup _ x hb]
    simp only [minted, AList.count_insert_of_free _ x hfree]
    omega

theorem Does.returns (h : σ.Does e σ') : e.out.returns = true := by
  cases h <;> rfl

/-- After `k` ids were taken from the counter. -/
structure Sound (k : Nat) (σ : Drafts) : Prop where
  next : σ.next.toNat = k % 2 ^ 64
  below : ∀ x ∈ σ.ids, x < k
  nodup : σ.ids.Nodup
  checked : ∀ n p, σ.plans.lookup n = some p → p.check = .ok ()

theorem sound_init : init.Sound 0 := ⟨rfl, nofun, .nil, nofun⟩

theorem Does.checked (h : σ.Does e σ') (hs : ∀ n p, σ.plans.lookup n = some p → p.check = .ok ()) :
    ∀ n p, σ'.plans.lookup n = some p → p.check = .ok () := by
  cases h with
  | finish hb hfree hok =>
    intro n p hp
    simp only [AList.lookup_insert_eq] at hp
    split at hp
    · cases hp
      exact hok
    · exact hs n p hp
  | _ => exact hs

theorem Sound.step {k : Nat} (h : σ.Sound k) (hs : σ.Does e σ')
    (hfew : k + (if e.minted then 1 else 0) ≤ 2 ^ 64) :
    σ'.Sound (k + if e.minted then 1 else 0) := by
  have hcount := hs.count
  have hnext := hs.next
  cases hm : e.minted <;>
    simp only [hm, if_true, if_false, Bool.false_eq_true] at hcount hnext hfew ⊢
  · refine ⟨hnext ▸ h.next, fun x hx => ?_, List.nodup_iff_count_le_one.mpr fun x => ?_,
      hs.checked h.checked⟩
    · exact h.below x (List.count_pos_iff.mp ((List.count_pos_iff.mpr hx).trans_le (hcount x)))
    · exact (hcount x).trans (List.nodup_iff_count_le_one.mp h.nodup x)
  · have hk : σ.next.toNat = k := h.next.trans (Nat.mod_eq_of_lt hfew)
    refine ⟨?_, fun x hx => ?_, List.nodup_iff_count_le_one.mpr fun x => ?_, hs.checked h.checked⟩
    · rw [hnext, UInt64.toNat_add, hk]
      rfl
    · have hpos := (List.count_pos_iff.mpr hx).trans_le (hcount x)
      by_cases hold : x ∈ σ.ids
      · exact Nat.lt_succ_of_lt (h.below x hold)
      · rw [List.count_eq_zero_of_not_mem hold, zero_add, List.count_pos_iff, hk] at hpos
        exact Nat.lt_succ_of_le (List.mem_singleton.mp hpos).le
    · have hle := hcount x
      by_cases hx : x = k
      · have hnot : x ∉ σ.ids := fun hx' => absurd (h.below x hx') (hx ▸ lt_irrefl _)
        rw [List.count_eq_zero_of_not_mem hnot, zero_add] at hle
        exact hle.trans List.count_le_length
      · have hnot : x ∉ [σ.next.toNat] := fun hx' => hx ((List.mem_singleton.mp hx').trans hk)
        rw [List.count_eq_zero_of_not_mem hnot] at hle
        exact hle.trans (List.nodup_iff_count_le_one.mp h.nodup x)

/-- As long as the counter hasn't wrapped around. -/
theorem Sound.runs {k : Nat} {es : List DraftEvent} (h : σ.Sound k) (hr : Runs Step σ es σ')
    (hfew : k + es.countP DraftEvent.minted ≤ 2 ^ 64) :
    σ'.Sound (k + es.countP DraftEvent.minted) := by
  induction hr generalizing k with
  | nil => exact h
  | cons hs _ ih =>
    rw [List.countP_cons, Nat.add_comm (List.countP _ _), ← Nat.add_assoc] at hfew ⊢
    exact ih (h.step hs.does ((Nat.le_add_right _ _).trans hfew)) hfew

/-- An id is in one builder only, and there once. -/
theorem Sound.builder {k b : Nat} {p : PlanBuilder} (h : σ.Sound k)
    (hb : σ.builders.lookup b = some p) : p.ids.Nodup ∧
      ∀ b' p', σ.builders.lookup b' = some p' → b' ≠ b → p.ids.Disjoint p'.ids := by
  have hcount : ∀ x, p.ids.count x + ((σ.builders.erase b).values.flatMap PlanBuilder.ids).count x
      ≤ 1 := by
    intro x
    have hx := List.nodup_iff_count_le_one.mp h.nodup x
    rw [count_ids, AList.count_of_lookup _ x hb] at hx
    omega
  refine ⟨List.nodup_iff_count_le_one.mpr fun x => (Nat.le_add_right _ _).trans (hcount x), ?_⟩
  intro b' p' hb' hne x hx hx'
  have hother : (σ.builders.erase b).lookup b' = some p' := by
    rw [AList.lookup_erase_ne hne, hb']
  have hle := hcount x
  rw [AList.count_of_lookup _ x hother] at hle
  have := List.count_pos_iff.mpr hx
  have := List.count_pos_iff.mpr hx'
  omega

theorem Sound.plan {k n : Nat} {p : PlanBuilder} (h : σ.Sound k)
    (hp : σ.plans.lookup n = some p) : p.ids.Nodup := by
  refine List.nodup_iff_count_le_one.mpr fun x => ?_
  have hx := List.nodup_iff_count_le_one.mp h.nodup x
  rw [count_ids, AList.count_of_lookup _ x hp] at hx
  omega

/-- What a builder with its ids apart makes. -/
theorem exists_desc {p : PlanBuilder} (h : p.ids.Nodup) :
    ∃ desc : RunDesc, desc.tensors = p.tensors ∧ desc.calls = p.calls ∧ desc.check = p.check :=
  ⟨⟨p.tensors, p.calls, h.of_append_left, h.of_append_right⟩, rfl, rfl, rfl⟩

/-- **Every plan has its own ids.** However threads make specs side by side, no
two specs share an id while the counter hasn't wrapped around, and nothing
panics. So a builder is a `RunDesc`, whose ids no other one names, and it makes
a `RunSpec` exactly if each call fits the builder's own tensors. -/
theorem plans_have_their_own_ids {es : List DraftEvent} (hr : Runs Step init es σ)
    (hfew : es.countP DraftEvent.minted ≤ 2 ^ 64) :
    σ.ids.Nodup ∧ (∀ e σ', σ.Step e σ' → e.out.returns = true) ∧
    (∀ b p, σ.builders.lookup b = some p →
      (∃ desc : RunDesc, desc.tensors = p.tensors ∧ desc.calls = p.calls) ∧
      (∀ b' p', σ.builders.lookup b' = some p' → b' ≠ b → p.ids.Disjoint p'.ids) ∧
      ∀ k out σ', σ.Step ⟨.finish b k, out⟩ σ' → σ'.builders.lookup b = none ∧
        (out.isOk = true ↔ ∀ call ∈ p.calls, p.CallFits call) ∧
        (out.isOk = true → σ'.plans.lookup k = some p) ∧ (out.isOk = false → σ'.plans = σ.plans)) ∧
    ∀ k p, σ.plans.lookup k = some p →
      ∃ plan : RunSpec, plan.tensors = p.tensors ∧ plan.calls = p.calls := by
  have hsound := sound_init.runs hr (by omega)
  refine ⟨hsound.nodup, fun e σ' hs => hs.does.returns, fun b p hb => ?_, fun k p hp => ?_⟩
  · obtain ⟨hnodup, hapart⟩ := hsound.builder hb
    obtain ⟨desc, htensors, hcalls, -⟩ := exists_desc hnodup
    refine ⟨⟨desc, htensors, hcalls⟩, hapart, fun k out σ' hs => ?_⟩
    have hcheck := PlanBuilder.check_eq_ok (p := p) hnodup.of_append_left
    cases hs.does with
    | failed hne => exact absurd rfl (hne b k)
    | unfinished hb' herr =>
      obtain rfl := Option.some.inj (hb.symm.trans hb')
      refine ⟨AList.lookup_erase b _, ?_, nofun, fun _ => rfl⟩
      rw [← hcheck, herr]
      exact ⟨nofun, nofun⟩
    | finish hb' hfree hok =>
      obtain rfl := Option.some.inj (hb.symm.trans hb')
      exact ⟨AList.lookup_erase b _, ⟨fun _ => hcheck.mp hok, fun _ => rfl⟩,
        fun _ => AList.lookup_insert _, nofun⟩
  · obtain ⟨desc, htensors, hcalls, hcheck⟩ := exists_desc (hsound.plan hp)
    exact ⟨⟨desc, hcheck.trans (hsound.checked k p hp)⟩, htensors, hcalls⟩

/-! ## What a builder holds -/

variable {b : Nat}

/-- `b` has what it had, and what the step added. -/
def Extends (b : Nat) (σ : Drafts) (tensors calls : List Nat) (σ' : Drafts) : Prop :=
  ∀ p, σ.builders.lookup b = some p → ∃ p', σ'.builders.lookup b = some p' ∧
    p'.tensors.map TensorSpec.id = p.tensors.map TensorSpec.id ++ tensors ∧
    p'.calls.map CallSpec.id = p.calls.map CallSpec.id ++ calls

theorem extends_self (h : σ'.builders.lookup b = σ.builders.lookup b) :
    Extends b σ [] [] σ' :=
  fun p hp => ⟨p, h.trans hp, (List.append_nil _).symm, (List.append_nil _).symm⟩

/-- When one of the builders has changed. -/
theorem extends_insert {b' : Nat} {p p' : PlanBuilder} (hb : σ.builders.lookup b' = some p)
    (h : σ'.builders = σ.builders.insert b' p') {tensors calls : List Nat}
    (ht : p'.tensors.map TensorSpec.id = p.tensors.map TensorSpec.id ++ tensors)
    (hc : p'.calls.map CallSpec.id = p.calls.map CallSpec.id ++ calls) :
    Extends b σ (if b' = b then tensors else []) (if b' = b then calls else []) σ' := by
  intro q hq
  rw [h, AList.lookup_insert_eq]
  by_cases hbb : b' = b
  · subst hbb
    obtain rfl := Option.some.inj (hb.symm.trans hq)
    simp only [if_true]
    exact ⟨p', rfl, ht, hc⟩
  · rw [if_neg (Ne.symm hbb), if_neg hbb, if_neg hbb]
    exact ⟨q, hq, (List.append_nil _).symm, (List.append_nil _).symm⟩

theorem extends_tensor {b' : Nat} {p : PlanBuilder} {spec : TensorSpec}
    (hb : σ.builders.lookup b' = some p)
    (h : σ'.builders = σ.builders.insert b' (p.pushTensor spec)) :
    Extends b σ (if b' = b then [spec.id] else []) [] σ' := by
  have hadds : Extends b σ (if b' = b then [spec.id] else []) (if b' = b then [] else []) σ' :=
    extends_insert hb h List.map_append (List.append_nil _).symm
  rwa [ite_self] at hadds

theorem extends_call {b' : Nat} {p : PlanBuilder} {spec : CallSpec}
    (hb : σ.builders.lookup b' = some p)
    (h : σ'.builders = σ.builders.insert b' (p.pushCall spec)) :
    Extends b σ [] (if b' = b then [spec.id] else []) σ' := by
  have hadds : Extends b σ (if b' = b then [] else []) (if b' = b then [spec.id] else []) σ' :=
    extends_insert hb h (List.append_nil _).symm List.map_append
  rwa [ite_self] at hadds

theorem Does.extends (h : σ.Does e σ') (hb : b ∈ σ.builders) (hne : ∀ k, e.act ≠ .finish b k) :
    Extends b σ (e.tensorTo b) (e.callTo b) σ' := by
  have herase : ∀ b' k, DraftAct.finish b' k ≠ .finish b k →
      (σ.builders.erase b').lookup b = σ.builders.lookup b := fun b' k hne' =>
    AList.lookup_erase_ne fun h => hne' (by rw [h])
  cases h with
  | @failed act err _ => cases act <;> exact extends_self rfl
  | unfinished hb' herr => exact extends_self (herase _ _ (hne _))
  | finish hb' hfree hok => exact extends_self (herase _ _ (hne _))
  | tensor hfree hspec => exact extends_self rfl
  | node | elsewhere => exact extends_self rfl
  | call hfree hspec => exact extends_self rfl
  | builder hfree =>
    refine extends_self (AList.lookup_insert_ne fun h => ?_)
    exact AList.free_iff.mp hfree (h ▸ hb)
  | addTensor hb' hspec => exact extends_tensor hb' rfl
  | addCall hb' hspec => exact extends_call hb' rfl
  | putTensor hb' ht => exact extends_tensor hb' rfl
  | putCall hb' hc => exact extends_call hb' rfl

/-- While it isn't finished. -/
theorem extends_runs {es : List DraftEvent} (hr : Runs Step σ es σ') (hb : b ∈ σ.builders)
    (hne : ∀ e ∈ es, ∀ k, e.act ≠ .finish b k) :
    Extends b σ (es.flatMap (DraftEvent.tensorTo b)) (es.flatMap (DraftEvent.callTo b)) σ' := by
  induction hr with
  | nil => exact extends_self rfl
  | cons hs _ ih =>
    intro p hp
    obtain ⟨p₁, hp₁, ht₁, hc₁⟩ := hs.does.extends hb (hne _ List.mem_cons_self) p hp
    have hmem := AList.lookup_isSome.mp (Option.isSome_iff_exists.mpr ⟨_, hp₁⟩)
    obtain ⟨p₂, hp₂, ht₂, hc₂⟩ := ih hmem (fun e he => hne e (List.mem_cons_of_mem _ he)) p₁ hp₁
    rw [List.flatMap_cons, List.flatMap_cons, ← List.append_assoc, ← List.append_assoc, ← ht₁,
      ← hc₁]
    exact ⟨p₂, hp₂, ht₂, hc₂⟩

/-- A finished plan stays. -/
theorem Does.plans (h : σ.Does e σ') {k : Nat} {p : PlanBuilder}
    (hp : σ.plans.lookup k = some p) : σ'.plans.lookup k = some p := by
  cases h with
  | @finish b' k' p' hb hfree hok =>
    refine (AList.lookup_insert_ne fun hk => ?_).trans hp
    subst hk
    cases hfree.symm.trans hp
  | _ => exact hp

namespace Sample

/-- It writes its one tensor. -/
def touch : Shader :=
  ⟨⟨"touch", [], [.Output .Int8], fun _ _ lens => lens, fun _ _ _ => rfl, (1, 1, 1)⟩, .Wgsl ""⟩

/-- The second builder's call names the first one's tensor. An upload of
another kind adds nothing. -/
def adding : List DraftEvent :=
  [⟨.builder 1, .ok 0⟩, ⟨.addTensor 0 .Int8 (some 4) .Zero, .ok 0⟩,
    ⟨.addTensor 0 .Int8 (some 1) (.Upload (.F32 [0])), .err (.KindMismatch .Int8 .F32)⟩,
    ⟨.node 0 touch [] (some (.linear 1)), .ok 1⟩, ⟨.addCall 0 0 [0], .ok 2⟩,
    ⟨.node 1 touch [] (some (.linear 1)), .ok 3⟩, ⟨.addCall 1 1 [0], .ok 4⟩,
    ⟨.finish 1 1, .err (.NotInPlan "tensor")⟩]

end Sample

theorem Sample.run_adding : ∃ σ, Runs Step init
    (⟨.builder 0, .ok 0⟩ :: Sample.adding ++ ⟨.finish 0 0, .ok 5⟩ :: []) σ := by
  have hmem : ∀ {α : Type} {s : Places α} {k : Nat}, (s.lookup k).isSome = true → k ∈ s :=
    AList.lookup_isSome.mp
  exact ⟨_, .cons ⟨rfl, rfl⟩ (.cons ⟨rfl, rfl⟩ (.cons ⟨hmem rfl, rfl⟩ (.cons ⟨hmem rfl, rfl⟩
    (.cons ⟨rfl, rfl⟩ (.cons ⟨⟨hmem rfl, hmem rfl⟩, rfl⟩ (.cons ⟨rfl, rfl⟩
      (.cons ⟨⟨hmem rfl, hmem rfl⟩, rfl⟩ (.cons ⟨⟨hmem rfl, rfl⟩, rfl⟩
        (.cons ⟨⟨hmem rfl, rfl⟩, rfl⟩ (.nil _))))))))))⟩

theorem samples_have_their_own_ids : ∃ σ, Runs Step init
    (⟨.builder 0, .ok 0⟩ :: Sample.adding ++ ⟨.finish 0 0, .ok 5⟩ :: []) σ ∧ σ.ids.Nodup := by
  obtain ⟨σ, hr⟩ := Sample.run_adding
  exact ⟨σ, hr, (plans_have_their_own_ids hr (by decide)).1⟩

end Drafts

end Wilupgu.Plan
