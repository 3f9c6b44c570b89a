import Wilupgu.Plan.Followed
import Wilupgu.Plan.Undone

/-! # Plans make calls of the safe layer

A program that builds, fills, binds, runs and drops plans makes calls of the
safe layer, and only such as the borrow checker lets through. So whatever holds
in every world that these calls lead to, holds with plans too. -/

namespace Wilupgu.Plan

open Backend Call Transition

variable {B : Type} [Storage B] [Dispatch B] [Capturable B] [Areable B] {w w' : World B}

/-! ## What is bound where -/

/-- The tensor at `p` is bound in the scope `s`. -/
def TensorIn (w : World B) (s p : Nat) : Prop := ∃ scope ∈ w.scopes.lookup s, p ∈ scope.bufs

/-- The node at `a` is. -/
def NodeIn (w : World B) (s a : Nat) : Prop := ∃ scope ∈ w.scopes.lookup s, a ∈ scope.nodes

theorem tensorBound_iff {p : Nat} : w.TensorBound p ↔ ∃ s, TensorIn w s p := by
  constructor
  · rintro ⟨scope, hscope, hp⟩
    obtain ⟨s, hs⟩ := AList.mem_values.mp hscope
    exact ⟨s, scope, hs, hp⟩
  · rintro ⟨s, scope, hs, hp⟩
    exact ⟨scope, AList.mem_values.mpr ⟨s, hs⟩, hp⟩

theorem nodeBound_iff {a : Nat} : w.NodeBound a ↔ ∃ s, NodeIn w s a := by
  constructor
  · rintro ⟨scope, hscope, ha⟩
    obtain ⟨s, hs⟩ := AList.mem_values.mp hscope
    exact ⟨s, scope, hs, ha⟩
  · rintro ⟨s, scope, hs, ha⟩
    exact ⟨scope, AList.mem_values.mpr ⟨s, hs⟩, ha⟩

/-- Nothing is bound anew but what `P` and `A` say, in the scopes they say. -/
structure BindsOnly (P A : Nat → Nat → Prop) (w w' : World B) : Prop where
  tensor : ∀ s p, TensorIn w' s p → TensorIn w s p ∨ P s p
  node : ∀ s a, NodeIn w' s a → NodeIn w s a ∨ A s a

section Binds

variable {P A P' A' : Nat → Nat → Prop}

theorem frame_bindsOnly (P A : Nat → Nat → Prop) : Frame (BindsOnly (B := B) P A) where
  refl _ := ⟨fun _ _ => .inl, fun _ _ => .inl⟩
  trans h h' := by
    refine ⟨fun s p hp => ?_, fun s a ha => ?_⟩
    · rcases h'.tensor s p hp with hp | hp
      · exact h.tensor s p hp
      · exact .inr hp
    · rcases h'.node s a ha with ha | ha
      · exact h.node s a ha
      · exact .inr ha

theorem BindsOnly.mono (h : BindsOnly P A w w') (hP : ∀ s p, P s p → P' s p)
    (hA : ∀ s a, A s a → A' s a) : BindsOnly P' A' w w' :=
  ⟨fun s p hp => (h.tensor s p hp).imp_right (hP s p),
    fun s a ha => (h.node s a ha).imp_right (hA s a)⟩

/-- Scopes that are bound in no more than before. -/
theorem bindsOnly_of_scopes (h : ∀ s scope', w'.scopes.lookup s = some scope' →
    ∃ scope, w.scopes.lookup s = some scope ∧ scope'.bufs = scope.bufs ∧
      scope'.nodes = scope.nodes) : BindsOnly P A w w' := by
  refine ⟨fun s p hp => ?_, fun s a ha => ?_⟩
  · obtain ⟨scope', hs', hp⟩ := hp
    obtain ⟨scope, hs, hbufs, -⟩ := h s scope' hs'
    exact .inl ⟨scope, hs, hbufs ▸ hp⟩
  · obtain ⟨scope', hs', ha⟩ := ha
    obtain ⟨scope, hs, -, hnodes⟩ := h s scope' hs'
    exact .inl ⟨scope, hs, hnodes ▸ ha⟩

theorem bindsOnly_of_same (h : w'.scopes = w.scopes) : BindsOnly P A w w' :=
  bindsOnly_of_scopes fun _ scope' hs' => ⟨scope', h ▸ hs', rfl, rfl⟩

/-- A scope with more in it. -/
theorem bindsOnly_setScope {s : Nat} {scope scope' : Scope} (h : w.scopes.lookup s = some scope)
    (hP : ∀ p ∈ scope'.bufs, p ∈ scope.bufs ∨ P s p)
    (hA : ∀ a ∈ scope'.nodes, a ∈ scope.nodes ∨ A s a) : BindsOnly P A w (w.setScope s scope') := by
  refine ⟨fun s' p hp => ?_, fun s' a ha => ?_⟩
  · obtain ⟨other, hother, hp⟩ := hp
    simp only [World.setScope_scopes, AList.lookup_insert_eq] at hother
    split at hother
    · subst s'
      cases hother
      exact (hP p hp).imp_left fun hp => ⟨scope, h, hp⟩
    · exact .inl ⟨other, hother, hp⟩
  · obtain ⟨other, hother, ha⟩ := ha
    simp only [World.setScope_scopes, AList.lookup_insert_eq] at hother
    split at hother
    · subst s'
      cases hother
      exact (hA a ha).imp_left fun ha => ⟨scope, h, ha⟩
    · exact .inl ⟨other, hother, ha⟩

theorem scopeBind_binds (s p : Nat) :
    Keeps (BindsOnly (fun s' q => s' = s ∧ q = p) fun _ _ => False) (Scope.bind (B := B) s p) := by
  intro w
  have hF := frame_bindsOnly (B := B) (fun s' q => s' = s ∧ q = p) fun _ _ => False
  rw [Scope.bind, bind_of_ok (get_run w)]
  refine hF.check_bind_at fun scope hscope => hF.check_bind_at fun t _ =>
    hF.check_bind_at fun _ _ => ?_
  refine bindsOnly_setScope (Outcome.expect_eq_ok.mp hscope) (fun q hq => ?_) fun _ => .inl
  exact (List.mem_append.mp hq).imp_right fun hq => ⟨rfl, List.mem_singleton.mp hq⟩

theorem scopeBindNode_binds (s a : Nat) :
    Keeps (BindsOnly (fun _ _ => False) fun s' b => s' = s ∧ b = a)
      (Scope.bindNode (B := B) s a) := by
  intro w
  have hF := frame_bindsOnly (B := B) (fun _ _ => False) fun s' b => s' = s ∧ b = a
  rw [Scope.bindNode, bind_of_ok (get_run w)]
  refine hF.check_bind_at fun scope hscope => hF.check_bind_at fun node _ =>
    hF.check_bind_at fun _ _ => ?_
  refine bindsOnly_setScope (Outcome.expect_eq_ok.mp hscope) (fun _ => .inl) fun b hb => ?_
  exact (List.mem_append.mp hb).imp_right fun hb => ⟨rfl, List.mem_singleton.mp hb⟩

end Binds

/-! ## Calls -/

section Calls

variable [Topology B] {P A P' A' : Nat → Nat → Prop}

/-- The call binds nothing but what `P` and `A` say. -/
def BindsIn (P A : Nat → Nat → Prop) : Act B → Prop
  | .scope (.bind s p) => P s p
  | .scope (.bindNode s a) => A s a
  | _ => True

/-- **A step** binds what it says. -/
theorem step_binds {e : Wilupgu.Event B} (hw : w.Valid) (hs : w.Step e w')
    (h : BindsIn P A e.act) : BindsOnly P A w w' := by
  obtain ⟨ha, hr⟩ := hs
  rcases e with ⟨act, out⟩
  obtain rfl : (act.perform w).2 = w' := congrArg Prod.snd hr
  cases act with
  | tensor act => exact bindsOnly_of_same (TensorAct.keeps frame_any tensors_any act w).1.scopes
  | memory act => exact bindsOnly_of_same (MemoryAct.keeps frame_any memory_any act w).1.scopes
  | node act => exact bindsOnly_of_same (NodeAct.keeps frame_any nodes_any act w).1.scopes
  | run act =>
    refine bindsOnly_of_scopes fun s scope' hs' => ?_
    obtain ⟨scope, hscope, hsame, -⟩ := RunAct.scopes ha hw hs'
    exact ⟨scope, hscope, hsame.2.1, hsame.2.2⟩
  | scope act =>
    cases act with
    | openOn s d =>
      -- nothing is bound in a new scope
      have hopen {s' : Nat} {scope : Scope}
          (hs' : (w.setScope s (Scope.new d)).scopes.lookup s' = some scope) :
          w.scopes.lookup s' = some scope ∨ scope = Scope.new d := by
        rw [World.setScope_scopes, AList.lookup_insert_eq] at hs'
        split at hs'
        · exact .inr (Option.some.inj hs').symm
        · exact .inl hs'
      refine ⟨fun s' p hp => ?_, fun s' a ha => ?_⟩
      · obtain ⟨scope, hs', hp⟩ := hp
        rcases hopen hs' with hs' | rfl
        · exact .inl ⟨scope, hs', hp⟩
        · cases hp
      · obtain ⟨scope, hs', ha⟩ := ha
        rcases hopen hs' with hs' | rfl
        · exact .inl ⟨scope, hs', ha⟩
        · cases ha
    | close s =>
      obtain ⟨scope, hscope, -⟩ := ha
      rw [Act.perform, ScopeAct.run, silent_world, close_run hscope]
      refine bindsOnly_of_scopes fun s' scope' hs' => ⟨scope', ?_, rfl, rfl⟩
      change (w.scopes.erase s).lookup s' = some scope' at hs'
      rw [AList.lookup_erase_eq] at hs'
      split at hs'
      · cases hs'
      · exact hs'
    | bind s p =>
      rw [Act.perform, ScopeAct.run, giving!_world]
      refine (scopeBind_binds s p w).mono ?_ fun _ _ => False.elim
      rintro _ _ ⟨rfl, rfl⟩
      exact h
    | bindNode s a =>
      rw [Act.perform, ScopeAct.run, giving!_world]
      refine (scopeBindNode_binds s a w).mono (fun _ _ => False.elim) ?_
      rintro _ _ ⟨rfl, rfl⟩
      exact h

/-- Such calls lead from one world to the other. -/
def Calls (P A : Nat → Nat → Prop) (w w' : World B) : Prop :=
  ∃ es, Runs (Where World.Step fun _ e => BindsIn P A e.act) w es w'

theorem frame_calls (P A : Nat → Nat → Prop) : Frame (Calls (B := B) P A) where
  refl w := ⟨[], .nil w⟩
  trans h h' := by
    obtain ⟨es, hes⟩ := h
    obtain ⟨es', hes'⟩ := h'
    exact ⟨es ++ es', hes.append hes'⟩

theorem Calls.reachable (h : Calls P A w w') : Reachable World.Step w w' := by
  obtain ⟨es, hes⟩ := h
  exact ⟨es, hes.of_where⟩

omit [Dispatch B] [Capturable B] [Areable B] [Topology B] in
theorem BindsIn.mono {act : Act B} (h : BindsIn P A act) (hP : ∀ s p, P s p → P' s p)
    (hA : ∀ s a, A s a → A' s a) : BindsIn P' A' act := by
  unfold BindsIn at h ⊢
  split at h
  · exact hP _ _ h
  · exact hA _ _ h
  · exact trivial

theorem Calls.mono (h : Calls P A w w') (hP : ∀ s p, P s p → P' s p)
    (hA : ∀ s a, A s a → A' s a) : Calls P' A' w w' := by
  obtain ⟨es, hes⟩ := h
  exact ⟨es, hes.mono fun _ _ _ hs => ⟨hs.1, hs.2.mono hP hA⟩⟩

/-- And such steps. -/
theorem Calls.binds (h : Calls P A w w') (hw : w.Valid) : BindsOnly P A w w' := by
  obtain ⟨es, hes⟩ := h
  induction hes with
  | nil w => exact (frame_bindsOnly P A).refl w
  | cons hs _ ih => exact (frame_bindsOnly P A).trans (step_binds hw hs.1 hs.2) (ih (hw.step hs.1))

/-- A call that gives nothing back is one. -/
theorem calls_of_silent (act : Act B) {c : Call (World B) Error Unit} (ha : act.Allowed w)
    (hperform : act.perform = silent c) (hbinds : BindsIn P A act) : Calls P A w (c w).2 := by
  refine ⟨[⟨act, (silent c w).1⟩], .single ⟨⟨ha, ?_⟩, hbinds⟩⟩
  rw [hperform]
  exact Prod.ext rfl (silent_world c w)

/-- So is one that gives a slot. -/
theorem calls_of_giving (act : Act B) {c : Call (World B) Error Nat} (ha : act.Allowed w)
    (hperform : act.perform = giving! c) (hbinds : BindsIn P A act) : Calls P A w (c w).2 := by
  refine ⟨[⟨act, (giving! c w).1⟩], .single ⟨⟨ha, ?_⟩, hbinds⟩⟩
  rw [hperform]
  exact Prod.ext rfl (giving!_world c w)

theorem Acts.reachable {P A : Nat → Prop} (h : Acts P A w w') : Reachable World.Step w w' := by
  obtain ⟨es, hes⟩ := h
  exact ⟨es, hes.of_where⟩

end Calls

/-! ## A run's calls -/

section RunCalls

variable [Topology B] {P A : Nat → Nat → Prop} {run : Run} {s : Nat}

omit [Topology B] in
theorem holdsTensor_kept {p : Nat} (h : w.HoldsTensor p) (hp : p ∈ w.tensors → p ∈ w'.tensors)
    (hbinds : BindsOnly P A w w') (hnot : ∀ s, ¬P s p) : w'.HoldsTensor p := by
  refine ⟨hp h.1, fun hbound => h.2 ?_⟩
  obtain ⟨s, hs⟩ := tensorBound_iff.mp hbound
  exact tensorBound_iff.mpr ⟨s, (hbinds.tensor s p hs).resolve_right (hnot s)⟩

omit [Topology B] in
theorem holdsNode_kept {a : Nat} (h : w.HoldsNode a) (ha : a ∈ w.nodes → a ∈ w'.nodes)
    (hbinds : BindsOnly P A w w') (hnot : ∀ s, ¬A s a) : w'.HoldsNode a := by
  refine ⟨ha h.1, fun hbound => h.2 ?_⟩
  obtain ⟨s, hs⟩ := nodeBound_iff.mp hbound
  exact nodeBound_iff.mpr ⟨s, (hbinds.node s a hs).resolve_right (hnot s)⟩

omit [Topology B] in
theorem Onward.scope_mem (h : Onward w w') (hs : s ∈ w.scopes) : s ∈ w'.scopes := by
  obtain ⟨scope, hscope⟩ := exists_of_mem hs
  obtain ⟨scope', hscope', -⟩ := h.scopes s scope hscope
  exact AList.lookup_isSome.mp (by rw [hscope']; rfl)

omit [Topology B] in
theorem bindTensors_onward (run : Run) (s : Nat) (ids : List Nat) (tensors : Places Nat) :
    Keeps Onward (run.bindTensors (B := B) s ids tensors) := by
  have hF := frame_onward (B := B)
  induction ids generalizing tensors with
  | nil => exact hF.pure tensors
  | cons id rest ih =>
    exact hF.lift_bind fun _ => hF.lift_bind fun p =>
      hF.bind (scopeBind_onward s p) fun slot => ih (tensors.insert id slot)

/-- Binding the tensors of a run that the program has to itself. -/
theorem bindTensors_calls {ids : List Nat} {tensors : Places Nat} (hs : s ∈ w.scopes)
    (hheld : ∀ id ∈ ids, ∀ p, run.tensors.lookup id = some (.Live p) → w.HoldsTensor p)
    (honce : ∀ id id' p, run.tensors.lookup id = some (.Live p) →
      run.tensors.lookup id' = some (.Live p) → id = id') (hnodup : ids.Nodup)
    (hP : ∀ id p, run.tensors.lookup id = some (.Live p) → P s p) :
    Calls P A w (run.bindTensors s ids tensors w).2 := by
  have hF := frame_calls (B := B) P A
  induction ids generalizing tensors w with
  | nil => exact hF.refl w
  | cons id rest ih =>
    obtain ⟨hnot, hnodup⟩ := List.nodup_cons.mp hnodup
    rw [Run.bindTensors]
    refine hF.check_bind_at fun tensor htensor => hF.check_bind_at fun p hlive => ?_
    obtain rfl : tensor = .Live p := by
      cases tensor with
      | Live q =>
        cases hlive
        rfl
      | Hollow _ => cases hlive
    have hp := Outcome.okOr_eq_ok.mp htensor
    have hfirst : Calls P A w (Scope.bind s p w).2 :=
      calls_of_giving (.scope (.bind s p)) ⟨hs, hheld id List.mem_cons_self p hp⟩ rfl (hP id p hp)
    have hbinds := scopeBind_binds s p w
    have honward := scopeBind_onward s p w
    rw [bind_run]
    rcases hb : Scope.bind s p w with ⟨slot | e | _, w₁⟩ <;> rw [hb] at hfirst hbinds honward
    · refine hF.trans hfirst (ih (honward.scope_mem hs) (fun id' hid' q hq => ?_) hnodup)
      refine holdsTensor_kept (hheld id' (List.mem_cons_of_mem id hid') q hq)
        (honward.tensors ▸ fun h => h) hbinds ?_
      rintro _ ⟨-, rfl⟩
      exact hnot (honce id id' q hp hq ▸ hid')
    · exact hfirst
    · exact hfirst

omit [Topology B] in
theorem bindCall_onward (run : Run) (id : Nat) (bound : Bound) :
    Keeps Onward (run.bindCall (B := B) id bound) := by
  have hF := frame_onward (B := B)
  exact hF.lift_bind fun call => hF.get_bind fun _ => hF.lift_bind fun node =>
    hF.lift_bind fun args => hF.bind (scopeBindNode_onward bound.scope call.node) fun slot =>
      hF.pure _

omit [Topology B] in
theorem bindCall_binds (run : Run) (id : Nat) (bound : Bound) :
    Keeps (BindsOnly (fun _ _ => False) fun _ a => ∃ call ∈ run.calls.lookup id, call.node = a)
      (run.bindCall (B := B) id bound) := by
  have hF := frame_bindsOnly (B := B) (fun _ _ => False) fun _ a =>
    ∃ call ∈ run.calls.lookup id, call.node = a
  refine hF.check_bind fun call hcall => hF.get_bind fun _ => hF.lift_bind fun node =>
    hF.lift_bind fun args => hF.bind (fun w => ?_) fun slot => hF.pure _
  refine (scopeBindNode_binds bound.scope call.node w).mono (fun _ _ => False.elim) ?_
  rintro _ _ ⟨-, rfl⟩
  exact ⟨call, Outcome.okOr_eq_ok.mp hcall, rfl⟩

omit [Topology B] in
theorem bindCall_scope {id : Nat} {bound bound' : Bound}
    (h : run.bindCall id bound w = (.ok bound', w')) : bound'.scope = bound.scope := by
  rw [Run.bindCall, Call.check_eq_ok] at h
  obtain ⟨call, -, h⟩ := h
  rw [bind_of_ok (get_run w), Call.check_eq_ok] at h
  obtain ⟨node, -, h⟩ := h
  rw [Call.check_eq_ok] at h
  obtain ⟨args, -, h⟩ := h
  obtain ⟨slot, w₁, -, h⟩ := bind_eq_ok.mp h
  cases h
  rfl

/-- Binding a node of such a run. -/
theorem bindCall_calls {id : Nat} {bound : Bound} (hs : bound.scope ∈ w.scopes)
    (hheld : ∀ call, run.calls.lookup id = some call → w.HoldsNode call.node)
    (hA : ∀ call, run.calls.lookup id = some call → A bound.scope call.node) :
    Calls P A w (run.bindCall id bound w).2 := by
  have hF := frame_calls (B := B) P A
  rw [Run.bindCall]
  refine hF.check_bind_at fun call hcall => ?_
  have hid := Outcome.okOr_eq_ok.mp hcall
  rw [bind_of_ok (get_run w)]
  refine hF.check_bind_at fun node _ => hF.check_bind_at fun args _ => ?_
  have hfirst : Calls P A w (Scope.bindNode bound.scope call.node w).2 :=
    calls_of_giving (.scope (.bindNode bound.scope call.node)) ⟨hs, hheld call hid⟩ rfl
      (hA call hid)
  rw [bind_run]
  rcases hb : Scope.bindNode bound.scope call.node w with ⟨slot | e | _, w₁⟩ <;>
    rw [hb] at hfirst <;> exact hfirst

/-- And all of them. -/
theorem bindCalls_calls {ids : List Nat} {bound : Bound} (hs : bound.scope ∈ w.scopes)
    (hheld : ∀ id ∈ ids, ∀ call, run.calls.lookup id = some call → w.HoldsNode call.node)
    (honce : ∀ id id' call call', run.calls.lookup id = some call →
      run.calls.lookup id' = some call' → call.node = call'.node → id = id') (hnodup : ids.Nodup)
    (hA : ∀ id call, run.calls.lookup id = some call → A bound.scope call.node) :
    Calls P A w (run.bindCalls ids bound w).2 := by
  have hF := frame_calls (B := B) P A
  induction ids generalizing bound w with
  | nil => exact hF.refl w
  | cons id rest ih =>
    obtain ⟨hnot, hnodup⟩ := List.nodup_cons.mp hnodup
    have hfirst : Calls P A w (run.bindCall id bound w).2 :=
      bindCall_calls hs (hheld id List.mem_cons_self) (hA id)
    have hbinds := bindCall_binds run id bound w
    have honward := bindCall_onward run id bound w
    rw [Run.bindCalls, bind_run]
    rcases hb : run.bindCall id bound w with ⟨bound' | e | _, w₁⟩ <;>
      rw [hb] at hfirst hbinds honward
    · have hscope := bindCall_scope hb
      rw [← hscope] at hs hA
      refine hF.trans hfirst (ih (honward.scope_mem hs) (fun id' hid' call hcall => ?_) hnodup hA)
      refine holdsNode_kept (hheld id' (List.mem_cons_of_mem id hid') call hcall)
        (honward.nodes call.node) hbinds ?_
      rintro - ⟨other, hother, he⟩
      exact hnot (honce id id' other call hother hcall he ▸ hid')
    · exact hfirst
    · exact hfirst

/-- **Binding a run** that the program has to itself. -/
theorem bind_calls {ts cs : List Nat} (hw : w.Valid) (hs : s ∈ w.scopes) (hrun : run.Owned w)
    (hts : ts.Nodup) (hcs : cs.Nodup)
    (hP : ∀ id p, run.tensors.lookup id = some (.Live p) → P s p)
    (hA : ∀ id call, run.calls.lookup id = some call → A s call.node) :
    Calls P A w (run.bind s ts cs w).2 := by
  have hF := frame_calls (B := B) P A
  have hfirst : Calls P (fun _ _ => False) w (run.bindTensors s ts ∅ w).2 :=
    bindTensors_calls hs (fun id _ => hrun.tensor id) hrun.tensor_once hts hP
  have honward := bindTensors_onward run s ts ∅ w
  have hbinds := hfirst.binds hw
  have hfirst' : Calls P A w _ := hfirst.mono (fun _ _ h => h) fun _ _ => False.elim
  rw [Run.bind, bind_run]
  rcases hb : run.bindTensors s ts ∅ w with ⟨tensors | e | _, w₁⟩ <;>
    rw [hb] at hfirst' honward hbinds
  · refine hF.trans hfirst' (bindCalls_calls (honward.scope_mem hs) (fun id _ call hcall => ?_)
      hrun.node_once hcs hA)
    exact holdsNode_kept (hrun.node id call hcall) (honward.nodes call.node) hbinds
      fun _ => not_false
  · exact hfirst'
  · exact hfirst'

section Handles

variable {Copy : RunCall → List MetaValue → Prop} {bound : Bound}

/-- A handle's call is of slots of its scope. -/
theorem executeCall_calls (h : bound.Holds Copy run w) (id : Nat) :
    Calls P A w (bound.executeCall id w).2 := by
  have hF := frame_calls (B := B) P A
  refine hF.check_bind_at fun call hcall => ?_
  obtain ⟨slot, args⟩ := call
  obtain ⟨call, layout, -, ⟨scope, hscope, hslot⟩, hargs, -⟩ :=
    h.calls id slot args (Outcome.okOr_eq_ok.mp hcall)
  refine calls_of_silent (.run (.execute bound.scope slot args)) ⟨scope, hscope, ?_, ?_⟩ rfl trivial
  · exact (List.getElem?_eq_some_iff.mp hslot).1
  · intro arg harg
    obtain ⟨i, hi⟩ := List.mem_iff_getElem?.mp harg
    obtain ⟨tid, -, htid⟩ := (Session.args_eq_ok hargs).2 i arg hi
    obtain ⟨p, -, scope', hscope', hp⟩ := h.tensors tid arg.slot htid
    obtain rfl := Option.some.inj (hscope.symm.trans hscope')
    exact (List.getElem?_eq_some_iff.mp hp).1

/-- So is each of a whole run. -/
theorem execute_calls (h : bound.Holds Copy run w) : Calls P A w (bound.execute w).2 := by
  have hF := (frame_calls (B := B) P A).under fun w => bound.Holds Copy run w
  have hall : Keeps (fun w w' => bound.Holds Copy run w → Calls P A w w' ∧ bound.Holds Copy run w')
      (bound.execute (B := B)) := by
    refine hF.forM fun call _ => keeps_mapErr fun w hholds => ⟨executeCall_calls hholds call.1, ?_⟩
    exact hholds.stays ((executeCall_executed bound call.1 w).onward.staysOpen bound.scope)
  exact (hall w h).1

/-- And each update of a meta. -/
theorem applyDynamics_calls (h : bound.Holds Copy run w) (dynamics : Dynamics) :
    Calls P A w (bound.applyDynamics dynamics w).2 := by
  have hF := (frame_calls (B := B) P A).under fun w => bound.Holds Copy run w
  have hall : Keeps (fun w w' => bound.Holds Copy run w → Calls P A w w' ∧ bound.Holds Copy run w')
      (bound.applyDynamics (B := B) dynamics) := by
    refine hF.check_bind fun metas hmetas => hF.forM fun update hupdate w hholds => ⟨?_, ?_⟩
    · obtain ⟨entry, hentry, hread⟩ :=
        (Outcome.mapM_eq_ok.mp hmetas).exists_of_mem_right hupdate
      obtain ⟨vals, -, hread⟩ := Outcome.bind_eq_ok.mp hread
      cases hread
      obtain ⟨_, call, -, ⟨scope, hscope, hslot⟩, -⟩ := hholds.perRun entry hentry
      exact calls_of_silent (.node (.scopeUpdateMeta bound.scope entry.node vals))
        ⟨scope, hscope, (List.getElem?_eq_some_iff.mp hslot).1⟩ rfl trivial
    · exact hholds.stays
        ((scopeUpdateMeta_onward bound.scope update.1 update.2 w).staysOpen bound.scope)
  exact (hall w h).1

end Handles

end RunCalls

/-! ## Programs with plans -/

namespace Session

/-- What a piece of the program outside the plan layer has done: calls of the
safe layer, that leave nothing of a run bound which wasn't before. -/
structure Outside [Topology B] (σ : Session B) (w : World B) : Prop where
  calls : Reachable World.Step σ.world w
  binds : BindsOnly (fun _ p => ∀ r id, ¬σ.OwnsTensor r id p)
    (fun _ a => ∀ r id, ¬σ.OwnsNode r id a) σ.world w

/-- The run at `r` is borrowed for the scope `s`. -/
def LentTo (σ : Session B) (r s : Nat) : Prop := ∃ borrow ∈ σ.borrows.lookup r, borrow.scope = s

/-- **What a run owns** is bound only in the scope that the run is borrowed for. -/
structure Lent (σ : Session B) : Prop where
  tensor : ∀ r id p s, σ.OwnsTensor r id p → TensorIn σ.world s p → σ.LentTo r s
  node : ∀ r id a s, σ.OwnsNode r id a → NodeIn σ.world s a → σ.LentTo r s

/-- Dropping the run at `r`. -/
def dropRun [Topology B] (r : Nat) (order : List Nat → List Nat) : Call (Session B) Error Unit := do
  let run ← (← .get).run r
  .modify fun σ => { σ with runs := σ.runs.erase r }
  onWorld (run.drop order)

end Session

/-- What a program does that uses plans, and drops them. -/
inductive ClientAct (B : Type) [Storage B] [Dispatch B] [Capturable B] [Areable B] where
  | plan (act : PlanAct B)
  | dropRun (r : Nat) (order : List Nat → List Nat)

section Clients

variable [Topology B]

/-- The rest of the program is one of the safe layer, and no scope ends inside
its own `capture`. -/
def PlanAct.Outside (σ : Session B) : PlanAct B → Prop
  | edit _ _ _ f | elsewhere f => σ.Outside (f σ.world).2
  | closeScope s => ∃ scope ∈ σ.world.scopes.lookup s, scope.inCapture = false
  | _ => True

def ClientAct.Allowed (σ : Session B) : ClientAct B → Prop
  | plan act => act.Allowed σ ∧ act.Outside σ
  | dropRun r order => σ.Owns r ∧ ∀ ids, (order ids).Perm ids

def ClientAct.perform : ClientAct B → Call (Session B) Error Unit
  | plan act => act.perform
  | dropRun r order => Session.dropRun r order

structure ClientEvent (B : Type) [Storage B] [Dispatch B] [Capturable B] [Areable B] where
  act : ClientAct B
  out : Outcome Error Unit

/-- One step of such a program. -/
def Session.ClientStep (σ : Session B) (e : ClientEvent B) (σ' : Session B) : Prop :=
  e.act.Allowed σ ∧ e.act.perform σ = (e.out, σ')

end Clients

/-! ## What stays bound only where it is lent -/

namespace Session

variable {σ : Session B} {P A : Nat → Nat → Prop} {r : Nat} {run : Run}

theorem Lent.init (w : World B) : (init w).Lent := by
  refine ⟨fun r id p s h => ?_, fun r id a s h => ?_⟩
  · obtain ⟨run, hr, -⟩ := h
    cases hr
  · obtain ⟨run, call, hr, -⟩ := h
    cases hr

/-- A call on the world that binds nothing that is owned. -/
theorem Lent.onWorld (h : σ.Lent) (hbinds : BindsOnly P A σ.world w)
    (hP : ∀ s p, P s p → ∀ r id, ¬σ.OwnsTensor r id p)
    (hA : ∀ s a, A s a → ∀ r id, ¬σ.OwnsNode r id a) : Lent { σ with world := w } := by
  refine ⟨fun r id p s ho hp => ?_, fun r id a s ho ha => ?_⟩
  · rcases hbinds.tensor s p hp with hp | hnew
    · exact h.tensor r id p s ho hp
    · exact absurd ho (hP s p hnew r id)
  · rcases hbinds.node s a ha with ha | hnew
    · exact h.node r id a s ho ha
    · exact absurd ho (hA s a hnew r id)

theorem Lent.unbound (h : σ.Lent)
    (hbinds : BindsOnly (fun _ _ => False) (fun _ _ => False) σ.world w) :
    Lent { σ with world := w } :=
  h.onWorld hbinds (fun _ _ => False.elim) fun _ _ => False.elim

/-- A new run, of which nothing is bound. -/
theorem Lent.put (h : σ.Lent) {c : Call (World B) Error Run}
    (hscopes : (c σ.world).2.scopes = σ.world.scopes)
    (hnew : ∀ run w, c σ.world = (.ok run, w) →
      (∀ id p, run.tensors.lookup id = some (.Live p) → ¬σ.world.TensorBound p) ∧
        ∀ id call, run.calls.lookup id = some call → ¬σ.world.NodeBound call.node) :
    (Session.put r c σ).2.Lent := by
  have hsame := h.unbound (bindsOnly_of_same hscopes)
  rw [put_run]
  rcases hc : c σ.world with ⟨run | e | _, w⟩ <;> rw [hc] at hsame hscopes
  · obtain ⟨htensors, hnodes⟩ := hnew run w hc
    refine ⟨fun r' id p s ho hp => ?_, fun r' id a s ho ha => ?_⟩
    · obtain ⟨run', hr', hid⟩ := ho
      simp only [AList.lookup_insert_eq] at hr'
      split at hr'
      · cases hr'
        refine absurd (tensorBound_iff.mpr ⟨s, ?_⟩) (htensors id p hid)
        rwa [TensorIn, ← hscopes]
      · exact hsame.tensor r' id p s ⟨run', hr', hid⟩ hp
    · obtain ⟨run', call, hr', hcall, hid⟩ := ho
      simp only [AList.lookup_insert_eq] at hr'
      split at hr'
      · cases hr'
        subst hid
        refine absurd (nodeBound_iff.mpr ⟨s, ?_⟩) (hnodes id call hcall)
        rwa [NodeIn, ← hscopes]
      · exact hsame.node r' id a s ⟨run', call, hr', hcall, hid⟩ ha
  · exact hsame
  · exact hsame

/-- Tensors change hands between runs that the program has to itself. -/
theorem Lent.fillFrom (h : σ.Lent) {source : Nat} {from' : Run} (hr : σ.runs.lookup r = some run)
    (hs : σ.runs.lookup source = some from') (hne : r ≠ source) (hfree : σ.borrows.Free source)
    (id : Nat) : (Session.fillFrom r source id σ).2.Lent := by
  have hsame : ∀ runs, (∀ r, runs.lookup r = σ.runs.lookup r) → Lent { σ with runs } := by
    intro runs hruns
    refine ⟨fun r id p s ho hp => h.tensor r id p s ?_ hp, fun r id a s ho ha =>
      h.node r id a s ?_ ha⟩
    · rwa [OwnsTensor, hruns] at ho
    · rwa [OwnsNode, hruns] at ho
  rw [fillFrom_run hr hs]
  rcases hf : run.fills from' σ.world id with ⟨place, live⟩ | e | _
  · obtain ⟨-, hplace, hlive, hollow, p, t, rfl, rfl, -⟩ := fills_eq_ok.mp hf
    refine ⟨fun r' id' q s ho hq => ?_, fun r' id' a s ho ha =>
      h.node r' id' a s ((filled_ownsNode hr hs).mp ho) ha⟩
    rcases (filled_ownsTensor hr hs hne hplace).mp ho with ⟨rfl, rfl, rfl⟩ | ⟨hold, -⟩
    · -- it is bound nowhere
      obtain ⟨borrow, hborrow, -⟩ := h.tensor source id' q s ⟨from', hs, hlive⟩ hq
      cases hfree.symm.trans hborrow
    · exact h.tensor r' id' q s hold hq
  · exact hsame _ (unchanged_lookup hr hs)
  · exact hsame _ (unchanged_lookup hr hs)

/-- A run is lent. -/
theorem Lent.bind (h : σ.Lent) (hsound : σ.Sound) {s : Nat} {borrows : Places Borrow}
    (hbinds : BindsOnly (fun s' p => s' = s ∧ ∃ id, σ.OwnsTensor r id p)
      (fun s' a => s' = s ∧ ∃ id, σ.OwnsNode r id a) σ.world w)
    (hfree : σ.borrows.Free r) (hothers : ∀ r', r' ≠ r → borrows.lookup r' = σ.borrows.lookup r')
    (hr : ∃ borrow ∈ borrows.lookup r, borrow.scope = s) :
    Lent { σ with world := w, borrows } := by
  have hold {r' s' : Nat} (hlent : σ.LentTo r' s') :
      LentTo { σ with world := w, borrows } r' s' := by
    obtain ⟨borrow, hborrow, hs'⟩ := hlent
    refine ⟨borrow, (hothers r' ?_).trans hborrow, hs'⟩
    rintro rfl
    cases hfree.symm.trans hborrow
  refine ⟨fun r' id p s' ho hp => ?_, fun r' id a s' ho ha => ?_⟩
  · rcases hbinds.tensor s' p hp with hp | ⟨rfl, id', hp⟩
    · exact hold (h.tensor r' id p s' ho hp)
    · obtain ⟨rfl, -⟩ := hsound.tensor_once r' id r id' p ho hp
      exact hr
  · rcases hbinds.node s' a ha with ha | ⟨rfl, id', ha⟩
    · exact hold (h.node r' id a s' ho ha)
    · obtain ⟨rfl, -⟩ := hsound.node_once r' id r id' a ho ha
      exact hr

/-- What is lent to a scope is back when it ends. -/
theorem Lent.close (h : σ.Lent) {s : Nat}
    (hbinds : BindsOnly (fun _ _ => False) (fun _ _ => False) σ.world w)
    (hclosed : w.scopes.Free s) :
    Lent { σ with world := w, borrows := σ.borrows.keep fun borrow => borrow.scope ≠ s } := by
  have horder {r s' : Nat} (hlent : σ.LentTo r s') (hopen : s' ∈ w.scopes) :
      LentTo { σ with world := w, borrows := σ.borrows.keep fun borrow => borrow.scope ≠ s }
        r s' := by
    obtain ⟨borrow, hborrow, rfl⟩ := hlent
    refine ⟨borrow, AList.lookup_keep.mpr ⟨hborrow, ?_⟩, rfl⟩
    refine decide_eq_true ?_
    rintro rfl
    exact AList.free_iff.mp hclosed hopen
  refine ⟨fun r id p s' ho hp => horder ((h.unbound hbinds).tensor r id p s' ho hp) ?_,
    fun r id a s' ho ha => horder ((h.unbound hbinds).node r id a s' ho ha) ?_⟩
  · obtain ⟨scope, hscope, -⟩ := hp
    exact AList.lookup_isSome.mp (by rw [hscope]; rfl)
  · obtain ⟨scope, hscope, -⟩ := ha
    exact AList.lookup_isSome.mp (by rw [hscope]; rfl)

/-! ## A step of such a program -/

/-- What is known of every session that such a program gets to. -/
structure Orderly (σ : Session B) : Prop where
  valid : σ.world.Valid
  sound : σ.Sound
  handled : σ.Handled fun _ _ _ => True
  lent : σ.Lent

theorem Orderly.init (hw : w.Valid) : (init w).Orderly :=
  ⟨hw, .init w, .init w, .init w⟩

/-- A run that isn't borrowed is the program's own. -/
theorem Orderly.owned (h : σ.Orderly) (hr : σ.Owns r) (hrun : σ.runs.lookup r = some run) :
    run.Owned σ.world := by
  refine ⟨fun id p hp => ⟨?_, fun hbound => ?_⟩, fun id call hcall => ⟨?_, fun hbound => ?_⟩,
    fun id id' p hp hp' => ?_, fun id id' call call' hcall hcall' he => ?_⟩
  · exact h.sound.tensor r id p ⟨run, hrun, hp⟩
  · obtain ⟨s, hs⟩ := tensorBound_iff.mp hbound
    obtain ⟨borrow, hborrow, -⟩ := h.lent.tensor r id p s ⟨run, hrun, hp⟩ hs
    cases hr.2.symm.trans hborrow
  · exact h.sound.node r id call.node ⟨run, call, hrun, hcall, rfl⟩
  · obtain ⟨s, hs⟩ := nodeBound_iff.mp hbound
    obtain ⟨borrow, hborrow, -⟩ := h.lent.node r id call.node s ⟨run, call, hrun, hcall, rfl⟩ hs
    cases hr.2.symm.trans hborrow
  · exact (h.sound.tensor_once r id r id' p ⟨run, hrun, hp⟩ ⟨run, hrun, hp'⟩).2
  · exact (h.sound.node_once r id r id' call.node ⟨run, call, hrun, hcall, rfl⟩
      ⟨run, call', hrun, hcall', he.symm⟩).2

variable [Topology B] {σ' : Session B}

omit [Topology B] in
theorem put_world (r : Nat) (c : Call (World B) Error Run) (σ : Session B) :
    (Session.put r c σ).2.world = (c σ.world).2 := by
  rw [put_run]
  rcases c σ.world with ⟨_ | _ | _, w⟩ <;> rfl

/-- **A step of the plan layer** is calls of the safe one. -/
theorem Orderly.plan (h : σ.Orderly) {act : PlanAct B} (ha : act.Allowed σ) (ho : act.Outside σ) :
    Reachable World.Step σ.world (act.perform σ).2.world ∧ (act.perform σ).2.Lent := by
  have hnone {w : World B} (hcalls : Calls (fun _ _ => False) (fun _ _ => False) σ.world w) :
      Reachable World.Step σ.world w ∧ Lent { σ with world := w } :=
    ⟨hcalls.reachable, h.lent.unbound (hcalls.binds h.valid)⟩
  cases act with
  | build r d plan site =>
    obtain ⟨-, hv⟩ := ha
    change Reachable World.Step σ.world (Session.put r (plan.build d site) σ).2.world ∧
      (Session.put r (plan.build d site) σ).2.Lent
    rw [put_world]
    refine ⟨(build_acts h.valid hv).1.reachable,
      h.lent.put (build_within plan d site σ.world).scopes fun run w hb => ?_⟩
    obtain ⟨rfl, -⟩ := build_ok hv hb
    refine ⟨fun id p hp => ?_, fun id call hcall => ?_⟩
    · obtain ⟨spec, hspec, -, rfl⟩ := builtTensors_lookup.mp hp
      exact (tensorRoom_of_free h.valid (hv.place spec hspec)).2
    · obtain ⟨spec, hspec, -, rfl⟩ := builtCalls_lookup.mp hcall
      exact (nodeRoom_of_free h.valid (hv.address spec hspec)).2
  | buildHollow r d plan site =>
    obtain ⟨-, hv⟩ := ha
    change Reachable World.Step σ.world (Session.put r (plan.buildHollow d site) σ).2.world ∧
      (Session.put r (plan.buildHollow d site) σ).2.Lent
    rw [put_world]
    refine ⟨(buildHollow_acts h.valid hv).1.reachable,
      h.lent.put (buildHollow_within plan d site σ.world).scopes fun run w hb => ?_⟩
    obtain ⟨tensors, hhollow, rfl, -⟩ := buildHollow_ok hv hb
    refine ⟨fun id p hp => ?_, fun id call hcall => ?_⟩
    · obtain ⟨_, -, -, _, -, he⟩ := (hollowTensors_lookup hhollow).mp hp
      cases he
    · obtain ⟨spec, hspec, -, rfl⟩ := builtCalls_lookup.mp hcall
      exact (nodeRoom_of_free h.valid (hv.address spec hspec)).2
  | fillFrom r source id =>
    obtain ⟨hne, hr, hs⟩ := ha
    obtain ⟨run, hrun⟩ := exists_of_mem hr.1
    obtain ⟨from', hfrom⟩ := exists_of_mem hs.1
    refine ⟨?_, h.lent.fillFrom hrun hfrom hne hs.2 id⟩
    change Reachable World.Step σ.world (Session.fillFrom r source id σ).2.world
    rw [fillFrom_run hrun hfrom]
    rcases run.fills from' σ.world id with ⟨place, live⟩ | e | _ <;> exact .refl
  | edit r ts cs f =>
    obtain ⟨-, -, run, hrun, -⟩ := ha
    have hbinds : BindsOnly _ _ σ.world (f σ.world).2 := Outside.binds ho
    rw [PlanAct.perform, bind_of_ok (get_run σ), Session.run, hrun, check_run]
    simp only [Outcome.expect, Session.onWorld, zoom_run, edit_world]
    exact ⟨Outside.calls ho, h.lent.onWorld hbinds (fun _ _ hp => hp) fun _ _ ha => ha⟩
  | bind r s ts cs =>
    obtain ⟨hr, hs, run, hrun, hts, hcs⟩ := ha
    have hcalls : Calls (fun s' p => s' = s ∧ ∃ id, σ.OwnsTensor r id p)
        (fun s' a => s' = s ∧ ∃ id, σ.OwnsNode r id a) σ.world (run.bind s ts cs σ.world).2 :=
      bind_calls h.valid hs (h.owned hr hrun) (hts.nodup_iff.mpr run.tensors.keys_nodup)
        (hcs.nodup_iff.mpr run.calls.keys_nodup) (fun id p hp => ⟨rfl, id, run, hrun, hp⟩)
        fun id call hcall => ⟨rfl, id, run, call, hrun, hcall, rfl⟩
    have hlent {borrows : Places Borrow}
        (hothers : ∀ r', r' ≠ r → borrows.lookup r' = σ.borrows.lookup r')
        (hborrow : ∃ borrow ∈ borrows.lookup r, borrow.scope = s) :=
      h.lent.bind h.sound (hcalls.binds h.valid) hr.2 hothers hborrow
    change Reachable World.Step σ.world (Session.bind r s ts cs σ).2.world ∧
      (Session.bind r s ts cs σ).2.Lent
    rw [bind_session_run hrun]
    rcases hb : run.bind s ts cs σ.world with ⟨bound | e | _, w⟩ <;> rw [hb] at hcalls hlent
    · refine ⟨hcalls.reachable, hlent (fun r' he => ?_) ⟨_, AList.lookup_insert _, rfl⟩⟩
      rw [AList.lookup_insert_ne he, AList.lookup_insert_ne he]
    all_goals exact ⟨hcalls.reachable,
      hlent (fun r' he => AList.lookup_insert_ne he) ⟨_, AList.lookup_insert _, rfl⟩⟩
  | execute r =>
    obtain ⟨bound, hb⟩ := ha
    obtain ⟨borrow, hborrow, hhandle⟩ := hb
    obtain ⟨-, run, -, hholds, -⟩ := h.handled r borrow bound hborrow hhandle
    have hrun := bound_run ⟨borrow, hborrow, hhandle⟩ fun _ bound => bound.execute
    exact hrun ▸ hnone (execute_calls hholds)
  | executeCall r id =>
    obtain ⟨bound, hb⟩ := ha
    obtain ⟨borrow, hborrow, hhandle⟩ := hb
    obtain ⟨-, run, -, hholds, -⟩ := h.handled r borrow bound hborrow hhandle
    have hrun := bound_run ⟨borrow, hborrow, hhandle⟩ fun _ bound => bound.executeCall id
    exact hrun ▸ hnone (executeCall_calls hholds id)
  | applyDynamics r =>
    obtain ⟨bound, hb⟩ := ha
    obtain ⟨borrow, hborrow, hhandle⟩ := hb
    obtain ⟨-, run, -, hholds, -⟩ := h.handled r borrow bound hborrow hhandle
    have hrun := bound_run ⟨borrow, hborrow, hhandle⟩ fun dynamics bound =>
      bound.applyDynamics dynamics
    exact hrun ▸ hnone (applyDynamics_calls hholds σ.dynamics)
  | setDynamic d value => exact ⟨.refl, h.lent.tensor, h.lent.node⟩
  | closeScope s =>
    obtain ⟨scope, hscope, hc⟩ := ho
    have hcalls : Calls (fun _ _ => False) (fun _ _ => False) σ.world (Scope.close s σ.world).2 :=
      calls_of_silent (.scope (.close s)) ⟨scope, hscope, hc⟩ rfl trivial
    rw [PlanAct.perform, closeScope_run s ha]
    refine ⟨hcalls.reachable, h.lent.close (hcalls.binds h.valid) ?_⟩
    rw [close_run hscope]
    exact AList.lookup_erase s σ.world.scopes
  | elsewhere f =>
    have hbinds : BindsOnly _ _ σ.world (f σ.world).2 := Outside.binds ho
    exact ⟨Outside.calls ho, h.lent.onWorld hbinds (fun _ _ hp => hp) fun _ _ ha => ha⟩

omit [Topology B] in
/-- **A run that is dropped** leaves the others as they are. -/
theorem Orderly.dropped (h : σ.Orderly) (hr : σ.Owns r) (hrun : σ.runs.lookup r = some run)
    {w : World B} (hw : w.Valid) (hwithin : Within (fun p => .Live p ∈ run.tensors.values)
      (fun a => ∃ call ∈ run.calls.values, call.node = a) σ.world w) :
    Orderly { σ with world := w, runs := σ.runs.erase r } := by
  -- what is owned after was another run's before
  have htensor {r' id p : Nat}
      (ho : OwnsTensor { σ with world := w, runs := σ.runs.erase r } r' id p) :
      σ.OwnsTensor r' id p ∧ w.tensors.lookup p = σ.world.tensors.lookup p := by
    obtain ⟨other, hr', hp⟩ := ho
    simp only [AList.lookup_erase_eq] at hr'
    split at hr'
    · cases hr'
    · refine ⟨⟨other, hr', hp⟩, hwithin.tensors p fun hmem => ?_⟩
      obtain ⟨id', hid'⟩ := AList.mem_values.mp hmem
      exact absurd (h.sound.tensor_once r' id r id' p ⟨other, hr', hp⟩ ⟨run, hrun, hid'⟩).1 ‹_›
  have hnode {r' id a : Nat} (ho : OwnsNode { σ with world := w, runs := σ.runs.erase r } r' id a) :
      σ.OwnsNode r' id a ∧ w.nodes.lookup a = σ.world.nodes.lookup a := by
    obtain ⟨other, call, hr', hcall, rfl⟩ := ho
    simp only [AList.lookup_erase_eq] at hr'
    split at hr'
    · cases hr'
    · refine ⟨⟨other, call, hr', hcall, rfl⟩, hwithin.nodes _ fun hmem => ?_⟩
      obtain ⟨call', hmem, he⟩ := hmem
      obtain ⟨id', hid'⟩ := AList.mem_values.mp hmem
      exact absurd (h.sound.node_once r' id r id' call.node ⟨other, call, hr', hcall, rfl⟩
        ⟨run, call', hrun, hid', he⟩).1 ‹_›
  have hlent := h.lent.unbound (w := w) (bindsOnly_of_same hwithin.scopes)
  refine ⟨hw, ⟨fun r' id a ho => ?_, fun r' id p ho => ?_, fun r₁ id₁ r₂ id₂ a ho ho' =>
    h.sound.node_once r₁ id₁ r₂ id₂ a (hnode ho).1 (hnode ho').1, fun r₁ id₁ r₂ id₂ p ho ho' =>
    h.sound.tensor_once r₁ id₁ r₂ id₂ p (htensor ho).1 (htensor ho').1⟩, ?_,
    fun r' id p s ho hp => hlent.tensor r' id p s (htensor ho).1 hp,
    fun r' id a s ho ha => hlent.node r' id a s (hnode ho).1 ha⟩
  · rw [← AList.lookup_isSome, (hnode ho).2, AList.lookup_isSome]
    exact h.sound.node r' id a (hnode ho).1
  · rw [← AList.lookup_isSome, (htensor ho).2, AList.lookup_isSome]
    exact h.sound.tensor r' id p (htensor ho).1
  · refine h.handled.stays (fun _ _ hb => hb) (fun r' other hb hr' => ?_) fun _ borrow _ scope hs =>
      ⟨scope, ?_, .refl scope⟩
    · refine (AList.lookup_erase_ne ?_).trans hr'
      rintro rfl
      exact AList.free_iff.mp hr.2 hb
    · exact (congrArg (AList.lookup borrow.scope) hwithin.scopes).trans hs

theorem dropRun_run (hrun : σ.runs.lookup r = some run) (order : List Nat → List Nat) :
    dropRun r order σ = ((run.drop order σ.world).1,
      { σ with world := (run.drop order σ.world).2, runs := σ.runs.erase r }) := by
  rw [dropRun, bind_of_ok (get_run σ), Session.run, hrun, check_run]
  rfl

/-- **Step rule.** Every step of a program with plans is calls of the safe
layer, and leaves what is known of its sessions true. -/
theorem Orderly.step {e : ClientEvent B} (h : σ.Orderly) (hs : σ.ClientStep e σ') :
    Reachable World.Step σ.world σ'.world ∧ σ'.Orderly := by
  obtain ⟨ha, hp⟩ := hs
  rcases e with ⟨act, out⟩
  cases act with
  | plan act =>
    obtain ⟨ha, ho⟩ := ha
    have hstep : σ.Step ⟨act, out⟩ σ' := ⟨ha, hp⟩
    have hplan := h.plan ha ho
    obtain rfl : (act.perform σ).2 = σ' := congrArg Prod.snd hp
    obtain ⟨⟨fs, hfs⟩, hlent⟩ := hplan
    exact ⟨⟨fs, hfs⟩, h.valid.run hfs, h.sound.step hstep,
      h.handled.step hstep fun _ _ _ _ _ _ _ => trivial, hlent⟩
  | dropRun r order =>
    obtain ⟨hr, hperm⟩ := ha
    obtain ⟨run, hrun⟩ := exists_of_mem hr.1
    obtain ⟨hacts, -⟩ := (h.owned hr hrun).drop hperm (P := fun p => .Live p ∈ run.tensors.values)
      (A := fun a => ∃ call ∈ run.calls.values, call.node = a) (fun _ hp => hp)
      fun call hcall => ⟨call, hcall, rfl⟩
    obtain ⟨fs, hfs⟩ := hacts.reachable
    change dropRun r order σ = _ at hp
    rw [dropRun_run hrun] at hp
    obtain rfl := congrArg Prod.snd hp
    exact ⟨⟨fs, hfs⟩, h.dropped hr hrun (h.valid.run hfs) hacts.within.1⟩

/-- **Plans add nothing to what a program can do.** Whatever a program builds,
fills, edits, binds, applies, runs and drops of plans, in whatever order and
scopes, and whatever else it does meanwhile, it comes to a world that calls of
the safe layer lead to. What a run owns still stands then, is no other run's,
and is bound in no scope but the one that the run is borrowed for. -/
theorem plans_are_safe_calls {w₀ : World B} (hw : w₀.Valid) {es : List (ClientEvent B)}
    (h : Runs ClientStep (Session.init w₀) es σ) :
    Reachable World.Step w₀ σ.world ∧ σ.Sound ∧ σ.Lent := by
  have hall := h.preserves (I := fun σ => Reachable World.Step w₀ σ.world ∧ σ.Orderly) ?_
    ⟨.refl, .init hw⟩
  · exact ⟨hall.1, hall.2.sound, hall.2.lent⟩
  · rintro σ e σ' ⟨hreach, horder⟩ hs
    obtain ⟨⟨fs, hfs⟩, horder'⟩ := horder.step hs
    exact ⟨hreach.trans hfs, horder'⟩

end Session

/-! ## A run that is used and dropped -/

section Cpu

open Backends

/-- Acts of the plan layer that can be played are steps of a program with plans. -/
theorem runs_of_outside {σ : Session CpuBackend} {as : List (PlanAct CpuBackend)}
    (h : Session.Plays (fun σ e => e.act.Outside σ) σ as) :
    ∃ es, Runs Session.ClientStep σ es (σ.after as) := by
  have hsteps : ∃ τ, Runs Session.ClientStep σ
      ((σ.events as).map fun e => ⟨.plan e.act, e.out⟩) τ ∧ σ.after as = τ := by
    refine (Session.runs_of_plays h).simulates (R := fun σ σ' => σ = σ') ?_ rfl
    rintro σ e σ' _ rfl ⟨⟨ha, hp⟩, ho⟩
    exact ⟨σ', ⟨⟨ha, ho⟩, hp⟩, rfl⟩
  obtain ⟨_, hes, rfl⟩ := hsteps
  exact ⟨_, hes⟩

namespace Sample

/-- The run is built, used in a scope, and the scope is closed. -/
def usedOnce : List (PlanAct CpuBackend) :=
  .build 0 0 filling site :: filledTwice ++ [.closeScope 0]

/-- Then it is dropped. -/
def dropped : Session CpuBackend := (Session.dropRun 0 id (start.after usedOnce)).2

end Sample

set_option maxRecDepth 4000

theorem Sample.plays_usedOnce :
    Session.Plays (fun σ e => e.act.Outside σ) Sample.start Sample.usedOnce := by
  obtain ⟨hleaves, -, hbind, -, hset, -, happly, -, hexecute, -, hset', -, happly', -,
    hexecute', -⟩ := Sample.plays_filledTwice
  -- opening a scope is a call of the safe layer that binds nothing
  have hopens : Sample.filled.Outside (Scope.openOn 0 0 Sample.filled.world).2 := by
    have hcalls : Calls (fun _ p => ∀ r id, ¬Sample.filled.OwnsTensor r id p)
        (fun _ a => ∀ r id, ¬Sample.filled.OwnsNode r id a) Sample.filled.world
        (Scope.openOn 0 0 Sample.filled.world).2 :=
      calls_of_silent (.scope (.openOn 0 0)) rfl rfl trivial
    have horder := (Session.Orderly.init (World.Valid.init CpuBackend.attach fun _ => 0)).step
      (e := ⟨.plan _, _⟩) ⟨⟨Sample.run_filled.1, trivial⟩, Sample.run_filled.2⟩
    exact ⟨hcalls.reachable, hcalls.binds horder.2.valid⟩
  exact ⟨Sample.run_filled.1, trivial, hleaves, hopens, hbind, trivial, hset, trivial, happly,
    trivial, hexecute, trivial, hset', trivial, happly', trivial, hexecute', trivial,
    AList.lookup_isSome.mp rfl, ⟨_, rfl, rfl⟩, trivial⟩

/-- The world after it is one that calls of the safe layer lead to, and nothing stands in it. -/
theorem dropped_run_was_safe_calls :
    Reachable World.Step Sample.start.world Sample.dropped.world ∧
      Sample.dropped.world.tensors = ∅ ∧ Sample.dropped.world.nodes = ∅ := by
  obtain ⟨es, hes⟩ := runs_of_outside Sample.plays_usedOnce
  have hdrop : Session.ClientStep (Sample.start.after Sample.usedOnce) ⟨.dropRun 0 id, .ok ()⟩
      Sample.dropped :=
    ⟨⟨⟨by decide, rfl⟩, fun _ => .rfl⟩, rfl⟩
  have hall := hes.append (.single hdrop)
  exact ⟨(Session.plans_are_safe_calls (World.Valid.init CpuBackend.attach fun _ => 0) hall).1,
    rfl, rfl⟩

end Cpu

end Wilupgu.Plan
