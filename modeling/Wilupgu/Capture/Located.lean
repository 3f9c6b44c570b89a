import Wilupgu.Safe.Spec

/-! # Finding recorded calls again

`replay` finds each recorded node and buffer by its address among what is
bound in the scope. What stands at these addresses by then is for the modules
that use this one. -/

namespace Wilupgu.Capture

open Backend

variable {B : Type} [Storage B] [Dispatch B] [Capturable B] [Areable B] {w : World B}
  {scope : Scope} {call : RecordedCall}

/-- The first tensor bound in the scope whose buffer is at `address` is its `i`th. -/
def FirstAt (w : World B) (scope : Scope) (address i : Nat) : Prop :=
  (∃ p t, scope.bufs[i]? = some p ∧ w.tensors.lookup p = some t ∧
    Storage.address t.raw = address) ∧
  ∀ j p t, j < i → scope.bufs[j]? = some p → w.tensors.lookup p = some t →
    Storage.address t.raw ≠ address

theorem findIdx?_address {address i : Nat} :
    (scope.bufs.findIdx? fun p => (w.tensors.lookup p).any fun t =>
      Storage.address t.raw = address) = some i ↔ FirstAt w scope address i := by
  rw [List.findIdx?_eq_some_iff_getElem]
  constructor
  · rintro ⟨hi, hfirst, hbefore⟩
    obtain ⟨t, ht, ha⟩ := (Option.any_eq_true _ _).mp hfirst
    refine ⟨⟨_, t, List.getElem?_eq_getElem hi, ht, of_decide_eq_true ha⟩, ?_⟩
    rintro j p t' hj hp ht' ha'
    obtain ⟨hj', rfl⟩ := List.getElem?_eq_some_iff.mp hp
    exact hbefore j hj ((Option.any_eq_true _ _).mpr ⟨t', ht', decide_eq_true ha'⟩)
  · rintro ⟨⟨p, t, hp, ht, ha⟩, hbefore⟩
    obtain ⟨hi, rfl⟩ := List.getElem?_eq_some_iff.mp hp
    refine ⟨hi, (Option.any_eq_true _ _).mpr ⟨t, ht, decide_eq_true ha⟩, fun j hj hany => ?_⟩
    obtain ⟨t', ht', ha'⟩ := (Option.any_eq_true _ _).mp hany
    exact hbefore j _ t' hj (List.getElem?_eq_getElem (Nat.lt_trans hj hi)) ht'
      (of_decide_eq_true ha')

/-- **A call is found again** exactly if its node's address is bound and each
argument's address is one of a bound tensor's buffer. -/
theorem locate_eq_ok {node : Node B} {args : List Arg} :
    Scope.locate w scope call = .ok (node, args) ↔
      call.node ∈ scope.nodes ∧ w.nodes.lookup call.node = some node ∧
      List.Forall₂ (fun arg arg' => ∃ i, FirstAt w scope arg.address i ∧ arg' = arg.arg i)
        call.args args := by
  simp only [Scope.locate, Outcome.bind_eq_ok, Outcome.okOr_eq_ok, Outcome.mapM_eq_ok,
    Outcome.pure_def, Outcome.ok.injEq, Prod.mk.injEq, findIdx?_address]
  constructor
  · rintro ⟨i, hi, ⟨address, node'⟩, hb, args', hargs, rfl, rfl⟩
    obtain ⟨hi', hnode, -⟩ := List.findIdx?_eq_some_iff_getElem.mp hi
    obtain ⟨ha, hl⟩ := boundNode_eq_ok.mp hb
    obtain ⟨_, rfl⟩ := List.getElem?_eq_some_iff.mp ha
    have he : scope.nodes[i] = call.node := of_decide_eq_true hnode
    rw [he] at hl
    refine ⟨he ▸ List.getElem_mem hi', hl, hargs.imp ?_⟩
    rintro arg arg' ⟨j, hj, rfl⟩
    exact ⟨j, hj, rfl⟩
  · rintro ⟨hm, hl, hargs⟩
    have hex : ∃ a, a ∈ scope.nodes ∧ decide (a = call.node) = true :=
      ⟨call.node, hm, decide_eq_true rfl⟩
    have hi := List.findIdx?_eq_some_of_exists hex
    obtain ⟨hi', hnode, -⟩ := List.findIdx?_eq_some_iff_getElem.mp hi
    have he : scope.nodes[scope.nodes.findIdx fun a => decide (a = call.node)] = call.node :=
      of_decide_eq_true hnode
    refine ⟨_, hi, ⟨call.node, node⟩, boundNode_eq_ok.mpr ⟨?_, hl⟩, args, hargs.imp ?_, rfl, rfl⟩
    · rw [List.getElem?_eq_getElem hi', he]
    · rintro arg arg' ⟨j, hj, rfl⟩
      exact ⟨j, hj, rfl⟩

/-- **A replay's checks pass** exactly if each recorded call is found again
and passes the checks of an `execute`. -/
theorem checkRecorded_eq_ok {recording : Recording B} :
    Scope.checkRecorded w scope recording = .ok () ↔
      scope.dev = recording.dev ∧ scope.recording = none ∧
      ∀ call ∈ recording.calls, ∃ node args,
        Scope.locate w scope call = .ok (node, args) ∧
        Scope.check w scope node args = .ok () := by
  rw [Scope.checkRecorded, Outcome.check_bind_eq_ok, Rules.sameDevice_eq_ok]
  refine and_congr_right fun _ => ?_
  rcases scope.recording with _ | calls
  · simp only [Option.isSome_none, Bool.false_eq_true, if_false, true_and]
    refine Outcome.forM_eq_ok.trans (forall₂_congr fun call _ => ?_)
    rw [Outcome.bind_eq_ok, Prod.exists]
  · simp

/-- A replay that returns made its checks, and they passed. -/
theorem checked_of_replay {s r : Nat} {recording : Recording B}
    (hs : w.scopes.lookup s = some scope) (hr : w.recordings.lookup r = some recording)
    (h : (Scope.replay s r w).1 = .ok ()) : Scope.checkRecorded w scope recording = .ok () := by
  rw [replay_run hs hr] at h
  split at h
  · assumption
  · cases h
  · cases h

end Wilupgu.Capture
