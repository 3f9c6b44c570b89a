import Wilupgu.Plan.Apply

/-! # The calls a plan describes

What a plan says is to happen, with no scope, no slot and no address in it: a
reference interpreter that holds each tensor's contents by the tensor's id,
and runs the described calls one after the other. -/

namespace Wilupgu.Plan

open Backend Call

/-- Each tensor's contents, what the `Dynamic`s were at the last
`apply_dynamics`, and what they are now. -/
structure Reference where
  contents : Nat → List UInt8
  applied : Nat → UInt32
  dynamics : Dynamics

/-- A field's value: the one that is known once, or its `Dynamic`'s. -/
def MetaSource.described (applied : Nat → UInt32) : MetaSource → MetaValue
  | Uint r => .Uint (r.getD 0)
  | Float r => .Float (r.getD 0)
  | UintPerRun d => .Uint (applied d)
  | FloatPerRun d => .Float (applied d)

/-- The length of the tensor built from the spec with this id. -/
def RunSpec.tensorLen (plan : RunSpec) (id : Nat) : Nat :=
  match plan.tensors.find? fun spec => spec.id = id with
  | some spec => wholeWords spec.kind (spec.len.getD 0)
  | none => 0

/-- The `Dynamic`s that some field of some call is read from. -/
def RunSpec.perRunDynamics (plan : RunSpec) : List Nat :=
  plan.calls.flatMap fun call => call.node.metaSources.filterMap MetaSource.dynamic

namespace CallSpec

def signature (call : CallSpec) : Signature := call.node.shader.signature

def native (call : CallSpec) : Option Native :=
  match call.node.shader.binary with
  | .Native code => some code
  | _ => none

/-- Some field of its meta is per-run. -/
def isPerRun (call : CallSpec) : Bool := call.node.metaSources.any MetaSource.isPerRun

/-- Its meta. -/
def words (call : CallSpec) (applied : Nat → UInt32) : List UInt32 :=
  call.node.metaSources.map fun source => (source.described applied).word

/-- How long it needs its tensors. -/
def needs (call : CallSpec) (applied : Nat → UInt32) : List Nat :=
  match call.node.workgroups with
  | some wg => minLens call.signature (call.words applied) wg
  | none => []

/-- The tensor in each slot. -/
def slots (call : CallSpec) : List (Nat × BindingRole) := call.tensors.zip call.signature.layout

/-- What its native code gets. -/
def bindings (call : CallSpec) (contents : Nat → List UInt8) : List NativeBinding :=
  call.slots.map fun (id, role) =>
    if role.isInput then .Read (contents id) else .Write (contents id)

/-- Is each tensor as long as its slot needs? -/
def longEnough (call : CallSpec) (plan : RunSpec) (applied : Nat → UInt32) : Outcome Error Unit :=
  (call.tensors.zip (call.needs applied)).zipIdx.forM fun ((id, needs), slot) =>
    Rules.longEnough call.signature slot needs (plan.tensorLen id)

end CallSpec

/-- The contents, once native code has left `ends` in the slots. -/
def store (contents : Nat → List UInt8) :
    List (Nat × BindingRole) → List (List UInt8) → Nat → List UInt8
  | (id, role) :: slots, bytes :: ends =>
    store (if role.isInput then contents else Function.update contents id bytes) slots ends
  | _, _ => contents

namespace Reference

def runNative (call : CallSpec) (code : Native) : Call Reference Error Unit where
  run ρ :=
    let fin := code.code (call.words ρ.applied) (call.bindings ρ.contents)
    (if fin.panicked then .panic else .ok (),
      { ρ with contents := store ρ.contents call.slots fin.slots })

def runCall (plan : RunSpec) (call : CallSpec) : Call Reference Error Unit := do
  call.longEnough plan (← .get).applied
  runNative call (← (.expect call.native : Outcome Error _))

/-- Calls with their places in the plan, one after the other. -/
def runCalls (plan : RunSpec) (calls : List (CallSpec × Nat)) : Call Reference Error Unit :=
  calls.forM fun (call, index) => (runCall plan call).mapErr (.InCall index)

/-- Every described call, in the plan's order. -/
def execute (plan : RunSpec) : Call Reference Error Unit := runCalls plan plan.calls.zipIdx

def executeCall (plan : RunSpec) (id : Nat) : Call Reference Error Unit := do
  let call ← (.okOr (.NotInPlan "call") (plan.calls.find? fun call => call.id = id) :
    Outcome Error _)
  runCall plan call

def applyDynamics (plan : RunSpec) : Call Reference Error Unit where
  run ρ :=
    if plan.perRunDynamics.any fun d => ρ.dynamics d = none then (.err .DynamicUnset, ρ)
    else (.ok (), { ρ with applied := fun d => (ρ.dynamics d).getD 0 })

def setDynamic (ρ : Reference) (d : Nat) (value : UInt32) : Reference :=
  { ρ with dynamics := Function.update ρ.dynamics d (some value) }

variable {B : Type} [Storage B] [Dispatch B] [Capturable B] [Areable B]

/-- What a step of a program that uses a run of the plan is here. What else the
program does leaves the tensors alone. -/
def Step (plan : RunSpec) (ρ : Reference) (e : PlanEvent B) (ρ' : Reference) : Prop :=
  match e.act with
  | .execute _ => execute plan ρ = (e.out, ρ')
  | .executeCall _ id => executeCall plan id ρ = (e.out, ρ')
  | .applyDynamics _ => applyDynamics plan ρ = (e.out, ρ')
  | .setDynamic d value => ρ' = ρ.setDynamic d value
  | _ => ρ' = ρ

/-! ## How it ends -/

/-- After a call's native code. -/
def after (ρ : Reference) (call : CallSpec) : Reference :=
  match call.native with
  | some code => (runNative call code ρ).2
  | none => ρ

/-- After that of the first `k` calls. -/
def afterFirst (plan : RunSpec) (k : Nat) (ρ : Reference) : Reference :=
  (plan.calls.take k).foldl after ρ

/-- Every tensor is as long as it was. -/
def SizedAs (ρ first : Reference) : Prop :=
  ∀ id, (ρ.contents id).length = (first.contents id).length

/-- Native code returns, run on what its check lets through. -/
def Returns (plan : RunSpec) (first : Reference) : Prop :=
  ∀ call ∈ plan.calls, ∀ code, call.native = some code → ∀ ρ : Reference, ρ.SizedAs first →
    call.longEnough plan ρ.applied = .ok () →
      (code.code (call.words ρ.applied) (call.bindings ρ.contents)).panicked = false

/-- The checks of a call without a per-run field pass, and its native code is
there and returns. -/
structure Runnable (plan : RunSpec) (first : Reference) : Prop where
  native : ∀ call ∈ plan.calls, ∃ code, call.native = some code
  returns : Returns plan first
  longEnough : ∀ call ∈ plan.calls, call.isPerRun = false →
    ∀ applied, call.longEnough plan applied = .ok ()

/-- **How `execute` ends**: every call has run, or a check of a call with a
per-run field failed, and the calls before it have run and no other. -/
def Explained (plan : RunSpec) (ρ : Reference) (e : PlanEvent B) : Prop :=
  ∀ r, e.act = .execute r →
    (e.out = .ok () ∧ (execute plan ρ).2 = afterFirst plan plan.calls.length ρ) ∨
    ∃ i call slot needs holds, plan.calls[i]? = some call ∧ call.isPerRun = true ∧
      e.out = .err (.InCall i (.TooShort call.signature.name slot needs holds)) ∧
      (execute plan ρ).2 = afterFirst plan i ρ

/-- The step runs or applies something of the plan, and nothing that isn't in it. -/
def Uses (plan : RunSpec) (e : PlanEvent B) : Prop :=
  ∃ r, e.act = .execute r ∨ e.act = .applyDynamics r ∨
    ∃ id ∈ plan.calls.map CallSpec.id, e.act = .executeCall r id

/-- All there is to say of how a step ends. -/
structure Ends (plan : RunSpec) (ρ : Reference) (e : PlanEvent B) : Prop where
  explained : Explained plan ρ e
  succeeds : (∀ call ∈ plan.calls, call.isPerRun = false) → Uses plan e → e.out = .ok ()

end Reference

theorem MetaSource.described_of_not_perRun {source : MetaSource} (h : source.isPerRun = false)
    (applied applied' : Nat → UInt32) : source.described applied = source.described applied' := by
  cases source with
  | Uint r | Float r => rfl
  | UintPerRun d | FloatPerRun d => cases h

/-- So the other calls' checks are the same all along. -/
theorem CallSpec.longEnough_of_not_perRun {call : CallSpec} (h : call.isPerRun = false)
    (plan : RunSpec) (applied applied' : Nat → UInt32) :
    call.longEnough plan applied = call.longEnough plan applied' := by
  have hwords : call.words applied = call.words applied' := by
    refine List.map_congr_left fun source hsource => ?_
    have hnot := List.any_eq_false.mp h source hsource
    rw [MetaSource.described_of_not_perRun (by simpa using hnot) applied applied']
  rw [longEnough, longEnough, needs, needs, hwords]

theorem CallSpec.longEnough_cases (call : CallSpec) (plan : RunSpec) (applied : Nat → UInt32) :
    call.longEnough plan applied = .ok () ∨ ∃ slot needs holds,
      call.longEnough plan applied = .err (.TooShort call.signature.name slot needs holds) := by
  have hreturns : (call.longEnough plan applied).returns = true :=
    Outcome.returns_forM fun _ _ => Rules.longEnough_returns _ _ _ _
  have hfails : (call.longEnough plan applied).Fails fun e => ∃ slot needs holds,
      e = .TooShort call.signature.name slot needs holds := by
    refine Outcome.fails_forM fun ⟨⟨id, needs⟩, slot⟩ _ => ?_
    simp only [Rules.longEnough]
    split
    · exact Outcome.fails_ok _
    · exact Outcome.fails_err ⟨_, _, _, rfl⟩
  rcases Outcome.returns_iff.mp hreturns with hok | ⟨e, he⟩
  · exact .inl hok
  · obtain ⟨slot, needs, holds, rfl⟩ := hfails e he
    exact .inr ⟨slot, needs, holds, he⟩

namespace Reference

variable {plan : RunSpec} {call : CallSpec} {ρ first : Reference}

theorem after_applied (ρ : Reference) (call : CallSpec) : (ρ.after call).applied = ρ.applied := by
  unfold after
  split <;> rfl

/-! ## Tensors stay as long as they are -/

theorem frame_sizedAs : Frame fun ρ ρ' : Reference => ρ'.SizedAs ρ where
  refl _ _ := rfl
  trans h h' id := (h' id).trans (h id)

theorem length_store {slots : List (Nat × BindingRole)} {ends : List (List UInt8)}
    {contents : Nat → List UInt8} {len : Nat → Nat}
    (h : List.Forall₂ (fun slot bytes => bytes.length = len slot.1) slots ends)
    (hlen : ∀ id, (contents id).length = len id) (id : Nat) :
    (store contents slots ends id).length = len id := by
  induction h generalizing contents with
  | nil => exact hlen id
  | @cons slot bytes slots ends hbytes _ ih =>
    rw [store]
    refine ih fun id' => ?_
    split
    · exact hlen id'
    · by_cases he : id' = slot.1
      · rw [he, Function.update_self, hbytes]
      · rw [Function.update_of_ne he, hlen]

theorem runNative_sized (call : CallSpec) (code : Native) :
    Keeps (fun ρ ρ' : Reference => ρ'.SizedAs ρ) (runNative call code) := by
  intro ρ id
  have hkeeps := code.keeps (call.words ρ.applied) (call.bindings ρ.contents)
  rw [CallSpec.bindings, List.forall₂_map_left_iff] at hkeeps
  refine length_store (hkeeps.imp fun slot bytes hslot => ?_) (fun _ => rfl) id
  rcases slot with ⟨tid, role⟩
  simp only at hslot
  split at hslot
  · exact congrArg List.length (hslot : bytes = _)
  · exact hslot

section Keeps

variable {R : Reference → Reference → Prop} (hR : Frame R)
  (hnative : ∀ call code, Keeps R (runNative call code))
include hR hnative

/-- What native code keeps, a call does. -/
theorem runCall_keeps (plan : RunSpec) (call : CallSpec) : Keeps R (runCall plan call) :=
  hR.get_bind fun _ => hR.check_bind fun _ _ => hR.check_bind fun code _ => hnative call code

theorem execute_keeps (plan : RunSpec) : Keeps R (execute plan) :=
  hR.forM fun x _ => keeps_mapErr (runCall_keeps hR hnative plan x.1)

theorem executeCall_keeps (plan : RunSpec) (id : Nat) : Keeps R (executeCall plan id) :=
  hR.check_bind fun call _ => runCall_keeps hR hnative plan call

end Keeps

theorem execute_dynamics (plan : RunSpec) (ρ : Reference) :
    (execute plan ρ).2.dynamics = ρ.dynamics :=
  execute_keeps (frame_eq Reference.dynamics) (fun _ _ _ => rfl) plan ρ

theorem executeCall_dynamics (plan : RunSpec) (id : Nat) (ρ : Reference) :
    (executeCall plan id ρ).2.dynamics = ρ.dynamics :=
  executeCall_keeps (frame_eq Reference.dynamics) (fun _ _ _ => rfl) plan id ρ

theorem applyDynamics_dynamics (plan : RunSpec) (ρ : Reference) :
    (applyDynamics plan ρ).2.dynamics = ρ.dynamics := by
  simp only [applyDynamics]
  split <;> rfl

theorem after_sized (ρ : Reference) (call : CallSpec) : (ρ.after call).SizedAs ρ := by
  unfold after
  split
  · exact runNative_sized call _ ρ
  · exact frame_sizedAs.refl ρ

/-! ## Calls, and runs of them -/

/-- The call that an id is of. -/
theorem executeCall_eq (hcall : call ∈ plan.calls) :
    executeCall plan call.id = runCall plan call := by
  have hfound := (List.find?_key_eq_some plan.nodup_calls).mpr ⟨hcall, rfl⟩
  rw [executeCall, hfound]
  rfl

/-- A call runs if its tensors are long enough. -/
theorem runCall_of_runnable (h : Runnable plan first) (hcall : call ∈ plan.calls)
    (hsized : ρ.SizedAs first) :
    runCall plan call ρ =
      match call.longEnough plan ρ.applied with
      | .ok () => (.ok (), ρ.after call)
      | .err e => (.err e, ρ)
      | .panic => (.panic, ρ) := by
  obtain ⟨code, hcode⟩ := h.native call hcall
  have hreturns := h.returns call hcall code hcode ρ hsized
  rw [runCall, bind_of_ok (get_run ρ), check_run]
  rcases hlong : call.longEnough plan ρ.applied with _ | e | _
  · simp only [after, hcode]
    rw [check_run]
    simp only [Outcome.expect, runNative, hreturns hlong]
    rfl
  · rfl
  · rfl

theorem runCalls_cons (plan : RunSpec) (call : CallSpec) (index : Nat)
    (rest : List (CallSpec × Nat)) : runCalls plan ((call, index) :: rest) =
      ((runCall plan call).mapErr (.InCall index) >>= fun _ => runCalls plan rest) := rfl

/-- Calls run one after the other, up to the first that has a tensor too short. -/
theorem runCalls_cases (h : Runnable plan first) {calls : List CallSpec}
    (hsub : ∀ call ∈ calls, call ∈ plan.calls) (start : Nat) (hsized : ρ.SizedAs first) :
    runCalls plan (calls.zipIdx start) ρ = (.ok (), calls.foldl after ρ) ∨
      ∃ i call e, calls[i]? = some call ∧ call.longEnough plan ρ.applied = .err e ∧
        runCalls plan (calls.zipIdx start) ρ =
          (.err (.InCall (start + i) e), (calls.take i).foldl after ρ) := by
  induction calls generalizing start ρ with
  | nil => exact .inl rfl
  | cons call rest ih =>
    have hrun := runCall_of_runnable h (hsub call List.mem_cons_self) hsized
    have hrest := ih (fun c hc => hsub c (List.mem_cons_of_mem call hc)) (start + 1)
      (frame_sizedAs.trans hsized (after_sized ρ call))
    rw [after_applied] at hrest
    rw [List.zipIdx_cons, runCalls_cons]
    rcases call.longEnough_cases plan ρ.applied with hok | ⟨slot, needs, holds, herr⟩
    · rw [hok] at hrun
      rw [bind_of_ok (mapErr_eq_ok.mpr hrun)]
      rcases hrest with hall | ⟨i, c, e, hi, hc, hfirst⟩
      · exact .inl hall
      · refine .inr ⟨i + 1, c, e, hi, hc, ?_⟩
        rw [hfirst, Nat.add_assoc, Nat.add_comm 1 i]
        rfl
    · refine .inr ⟨0, call, _, rfl, herr, ?_⟩
      rw [herr] at hrun
      rw [bind_run, mapErr_run, hrun]
      rfl

variable {B : Type} [Storage B] [Dispatch B] [Capturable B] [Areable B] {e : PlanEvent B}
  {ρ' : Reference}

/-- **The checks of `execute`** fail for per-run fields only. -/
theorem Step.explained (hs : Step plan ρ e ρ') (h : Runnable plan first)
    (hsized : ρ.SizedAs first) : Explained plan ρ e := by
  intro r hact
  simp only [Step, hact] at hs
  have hcases := runCalls_cases h (fun _ hc => hc) 0 hsized
  rw [← execute, hs] at hcases
  rcases hcases with hall | ⟨i, call, err, hi, hlong, hfirst⟩
  · refine .inl ⟨congrArg Prod.fst hall, ?_⟩
    rw [hs, afterFirst, List.take_length]
    exact congrArg Prod.snd hall
  · rcases call.longEnough_cases plan ρ.applied with hok | ⟨slot, needs, holds, herr⟩
    · cases hok.symm.trans hlong
    · obtain rfl := Outcome.err.inj (hlong.symm.trans herr)
      refine .inr ⟨i, call, slot, needs, holds, hi, ?_, ?_, ?_⟩
      · by_contra hnot
        have hok := h.longEnough call (List.mem_of_getElem? hi) (by simpa using hnot) ρ.applied
        cases hok.symm.trans hlong
      · exact (congrArg Prod.fst hfirst).trans (by rw [Nat.zero_add])
      · rw [hs, afterFirst]
        exact congrArg Prod.snd hfirst

/-- Where no field is per-run, there is no `Dynamic` to be set. -/
theorem perRunDynamics_eq_nil (h : ∀ call ∈ plan.calls, call.isPerRun = false) :
    plan.perRunDynamics = [] := by
  rw [RunSpec.perRunDynamics, List.flatMap_eq_nil_iff]
  intro call hcall
  rw [List.filterMap_eq_nil_iff]
  intro source hsource
  rcases hd : source.dynamic with _ | d
  · rfl
  · have hany := List.any_eq_true.mpr ⟨source, hsource, MetaSource.isPerRun_iff.mpr ⟨d, hd⟩⟩
    cases (h call hcall).symm.trans hany

/-- Every step leaves the tensors as long as they are. -/
theorem Step.sized (hs : Step plan ρ e ρ') (hsized : ρ.SizedAs first) : ρ'.SizedAs first := by
  suffices h : ρ'.SizedAs ρ from frame_sizedAs.trans hsized h
  rcases e with ⟨act, out⟩
  cases act with
  | execute r =>
    obtain rfl : (execute plan ρ).2 = ρ' := congrArg Prod.snd hs
    exact execute_keeps frame_sizedAs runNative_sized plan ρ
  | executeCall r id =>
    obtain rfl : (executeCall plan id ρ).2 = ρ' := congrArg Prod.snd hs
    exact executeCall_keeps frame_sizedAs runNative_sized plan id ρ
  | applyDynamics r =>
    obtain rfl : (applyDynamics plan ρ).2 = ρ' := congrArg Prod.snd hs
    simp only [applyDynamics]
    split <;> exact fun _ => rfl
  | setDynamic d value =>
    obtain rfl : ρ' = ρ.setDynamic d value := hs
    exact fun _ => rfl
  | _ =>
    obtain rfl : ρ' = ρ := hs
    exact fun _ => rfl

/-- **A plan with no per-run field never fails.** -/
theorem Step.succeeds (hs : Step plan ρ e ρ') (h : Runnable plan first)
    (hsized : ρ.SizedAs first) (hnone : ∀ call ∈ plan.calls, call.isPerRun = false)
    (huses : Uses plan e) : e.out = .ok () := by
  obtain ⟨r, hact | hact | ⟨id, hid, hact⟩⟩ := huses
  · rcases hs.explained h hsized r hact with ⟨hok, -⟩ | ⟨i, call, _, _, _, hi, hper, -⟩
    · exact hok
    · cases (hnone call (List.mem_of_getElem? hi)).symm.trans hper
  · simp only [Step, hact, applyDynamics, perRunDynamics_eq_nil hnone] at hs
    exact (congrArg Prod.fst hs).symm
  · simp only [Step, hact] at hs
    obtain ⟨call, hcall, rfl⟩ := List.mem_map.mp hid
    rw [executeCall_eq hcall, runCall_of_runnable h hcall hsized,
      h.longEnough call hcall (hnone call hcall)] at hs
    exact (congrArg Prod.fst hs).symm

theorem Step.ends (hs : Step plan ρ e ρ') (h : Runnable plan first) (hsized : ρ.SizedAs first) :
    Ends plan ρ e :=
  ⟨hs.explained h hsized, hs.succeeds h hsized⟩

end Reference

end Wilupgu.Plan
