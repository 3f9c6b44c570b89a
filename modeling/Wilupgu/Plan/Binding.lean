import Wilupgu.Plan.Followed

/-! # Binding a run

A run that nothing else has hold of can be bound in any scope of its device that
isn't capturing, whatever is bound there already. -/

namespace Wilupgu.Plan

open Backend Backends Call Memory

variable {plan : RunSpec} {d : Nat} {site : Site CpuBackend} {held : Nat → Tensor CpuBackend}
  {w w' : World CpuBackend} {ρ : Reference} {call : CallSpec} {s : Nat} {scope : Scope}

/-! ## The run -/

/-- The run that was built of a plan, none of it hollow. -/
abbrev liveRun (plan : RunSpec) (d : Nat) (site : Site CpuBackend) : Run :=
  builtRun plan d site (builtTensors plan site)

theorem anyTensor_live {spec : TensorSpec} (h : spec ∈ plan.tensors) :
    (liveRun plan d site).anyTensor spec.id = .ok (.Live (site.place spec.id)) :=
  Outcome.okOr_eq_ok.mpr (builtTensors_lookup.mpr ⟨spec, h, rfl, rfl⟩)

theorem call_live (h : call ∈ plan.calls) : (liveRun plan d site).call call.id =
    .ok ⟨site.address call.id, call.tensors, call.node.metaSources⟩ :=
  Outcome.okOr_eq_ok.mpr ((AList.lookup_ofList (h := plan.callIds)).mpr ⟨call, h, rfl, rfl⟩)

theorem mem_liveRun {spec : TensorSpec} (h : spec ∈ plan.tensors) :
    spec.id ∈ (liveRun plan d site).tensors := by
  have hlook : (liveRun plan d site).tensors.lookup spec.id = some (.Live (site.place spec.id)) :=
    builtTensors_lookup.mpr ⟨spec, h, rfl, rfl⟩
  exact AList.lookup_isSome.mp (by rw [hlook]; rfl)

/-- A handle of a run has slots for all the tensors that were bound. -/
theorem bindTensors_mem {run : Run} {s : Nat} {ids : List Nat} {tensors tensors' : Places Nat}
    (h : run.bindTensors s ids tensors w = (.ok tensors', w')) (id : Nat) :
    id ∈ tensors' ↔ id ∈ ids ∨ id ∈ tensors := by
  induction ids generalizing tensors w with
  | nil =>
    cases h
    simp
  | cons first rest ih =>
    rw [Run.bindTensors, Call.check_eq_ok] at h
    obtain ⟨tensor, -, h⟩ := h
    rw [Call.check_eq_ok] at h
    obtain ⟨p, -, h⟩ := h
    obtain ⟨slot, w₁, -, h⟩ := bind_eq_ok.mp h
    rw [ih h, AList.mem_insert, List.mem_cons]
    tauto

theorem bindCalls_tensors {run : Run} {ids : List Nat} {bound bound' : Bound}
    (h : run.bindCalls ids bound w = (.ok bound', w')) : bound'.tensors = bound.tensors := by
  induction ids generalizing bound w with
  | nil =>
    cases h
    rfl
  | cons id rest ih =>
    obtain ⟨bound₁, w₁, hcall, hrest⟩ := bind_eq_ok.mp h
    rw [Run.bindCall, Call.check_eq_ok] at hcall
    obtain ⟨call, -, hcall⟩ := hcall
    rw [bind_of_ok (get_run w), Call.check_eq_ok] at hcall
    obtain ⟨node, -, hcall⟩ := hcall
    rw [Call.check_eq_ok] at hcall
    obtain ⟨args, -, hcall⟩ := hcall
    obtain ⟨slot, w₂, -, hcall⟩ := bind_eq_ok.mp hcall
    rw [ih hrest]
    cases hcall
    rfl

theorem bind_mem {run : Run} {s : Nat} {ts cs : List Nat} {bound : Bound}
    (h : run.bind s ts cs w = (.ok bound, w')) (id : Nat) : id ∈ bound.tensors ↔ id ∈ ts := by
  obtain ⟨tensors, w₁, htensors, h⟩ := bind_eq_ok.mp h
  rw [bindCalls_tensors h, bindTensors_mem htensors]
  simp

theorem bind_holds {run : Run} {ts cs : List Nat} {bound : Bound}
    (h : run.bind s ts cs w = (.ok bound, w')) : bound.scope = s ∧
      bound.Holds (fun _ _ => True) run w' ∧ ∀ id, id ∈ bound.calls ↔ id ∈ cs :=
  bind_ok h fun _ _ _ _ => trivial

/-! ## Open scopes -/

/-- A scope of the device that isn't capturing, with tensors of the device bound. -/
structure OpenFor (d : Nat) (w : World CpuBackend) (scope : Scope) : Prop where
  dev : scope.dev = d
  recording : scope.recording = none
  bufs : ∀ p ∈ scope.bufs, ∃ t, w.tensors.lookup p = some t ∧ t.dev = d

/-- So is every open scope of the device. -/
def ScopesOpen (d : Nat) (w : World CpuBackend) : Prop :=
  ∀ s scope, w.scopes.lookup s = some scope → scope.dev = d → OpenFor d w scope

theorem OpenFor.new (d : Nat) (w : World CpuBackend) : OpenFor d w (Scope.new d) :=
  ⟨rfl, rfl, fun _ hp => absurd hp List.not_mem_nil⟩

theorem OpenFor.same (h : OpenFor d w scope) (ht : w'.tensors = w.tensors) : OpenFor d w' scope :=
  ⟨h.dev, h.recording, ht ▸ h.bufs⟩

/-- Only scope `s` may be another. -/
def OnlyScope (s : Nat) (w w' : World CpuBackend) : Prop :=
  ∃ scopes, w' = w.setScopes scopes ∧ ∀ s', s' ≠ s → scopes.lookup s' = w.scopes.lookup s'

theorem frame_onlyScope (s : Nat) : Frame (OnlyScope s) where
  refl w := ⟨w.scopes, rfl, fun _ _ => rfl⟩
  trans h h' := by
    obtain ⟨scopes, rfl, hs⟩ := h
    obtain ⟨scopes', rfl, hs'⟩ := h'
    exact ⟨scopes', rfl, fun s' hne => (hs' s' hne).trans (hs s' hne)⟩

theorem onlyScope_setScope (s : Nat) (scope : Scope) (w : World CpuBackend) :
    OnlyScope s w (w.setScope s scope) :=
  ⟨_, rfl, fun _ hne => AList.lookup_insert_ne hne⟩

theorem Stands.onlyScope (h : Stands plan d site held w ρ) (hs : OnlyScope s w w') :
    Stands plan d site held w' ρ := by
  obtain ⟨scopes, rfl, -⟩ := hs
  exact h.same (fun _ _ => rfl) (fun _ _ => rfl) rfl

/-- Scope `s` is another, and still open for a run. -/
structure BoundIn (d s : Nat) (w w' : World CpuBackend) : Prop where
  only : OnlyScope s w w'
  opened : ∃ scope, w'.scopes.lookup s = some scope ∧ OpenFor d w' scope

theorem BoundIn.refl (hscope : w.scopes.lookup s = some scope) (hopen : OpenFor d w scope) :
    BoundIn d s w w :=
  ⟨(frame_onlyScope s).refl w, scope, hscope, hopen⟩

theorem BoundIn.trans {w'' : World CpuBackend} (h : OnlyScope s w w') (h' : BoundIn d s w' w'') :
    BoundIn d s w w'' :=
  ⟨(frame_onlyScope s).trans h h'.only, h'.opened⟩

/-- Binding leaves the device's scopes open for runs. -/
theorem ScopesOpen.bound (h : ScopesOpen d w) (hb : BoundIn d s w w') : ScopesOpen d w' := by
  obtain ⟨⟨scopes, rfl, hothers⟩, scope, hscope, hopen⟩ := hb
  intro s' scope' hs' hdev
  by_cases he : s' = s
  · subst he
    obtain rfl := Option.some.inj (hscope.symm.trans hs')
    exact hopen
  · exact (h s' scope' ((hothers s' he).symm.trans hs') hdev).same rfl

/-! ## One more -/

section More

variable (hscope : w.scopes.lookup s = some scope) (hopen : OpenFor d w scope)
include hscope hopen

/-- **A tensor of the device** can be bound. -/
theorem scopeBind_returns {p : Nat} {t : Tensor CpuBackend} (ht : w.tensors.lookup p = some t)
    (hdev : t.dev = d) : ∃ slot w', Scope.bind s p w = (.ok slot, w') ∧ BoundIn d s w w' := by
  have hbind := scopeBind_run hscope ht
  rw [if_pos (hopen.dev.trans hdev.symm)] at hbind
  refine ⟨_, _, hbind, onlyScope_setScope s _ w, _, AList.lookup_insert _, hopen.dev,
    hopen.recording, fun q hq => ?_⟩
  rcases List.mem_append.mp hq with hq | hq
  · exact hopen.bufs q hq
  · rw [List.mem_singleton.mp hq]
    exact ⟨t, ht, hdev⟩

/-- So can a node. -/
theorem scopeBindNode_returns {a : Nat} {node : Node CpuBackend}
    (hn : w.nodes.lookup a = some node) (hdev : node.dev = d) :
    ∃ slot w', Scope.bindNode s a w = (.ok slot, w') ∧ BoundIn d s w w' := by
  have hbind := scopeBindNode_run hscope hn
  rw [if_pos (hopen.dev.trans hdev.symm)] at hbind
  exact ⟨_, _, hbind, onlyScope_setScope s _ w, _, AList.lookup_insert _, hopen.dev,
    hopen.recording, hopen.bufs⟩

end More

/-! ## All of a run -/

section Bind

variable (h : Stands plan d site held w ρ) (hscope : w.scopes.lookup s = some scope)
  (hopen : OpenFor d w scope)
include h hscope hopen

theorem bindTensors_returns (hh : Holding plan d site held) {ids : List Nat}
    (hids : ∀ id ∈ ids, id ∈ (liveRun plan d site).tensors) (tensors : Places Nat) :
    ∃ tensors' w', (liveRun plan d site).bindTensors s ids tensors w = (.ok tensors', w') ∧
      BoundIn d s w w' := by
  induction ids generalizing w scope tensors with
  | nil => exact ⟨tensors, w, rfl, .refl hscope hopen⟩
  | cons id rest ih =>
    obtain ⟨t, ht⟩ := exists_of_mem (hids id List.mem_cons_self)
    obtain ⟨spec, hspec, rfl, rfl⟩ := (AList.lookup_ofList (h := plan.tensorIds)).mp ht
    obtain ⟨slot, w₁, hbind, honly, scope₁, hscope₁, hopen₁⟩ := scopeBind_returns hscope hopen
      (h.tensors spec hspec) (hh.built spec hspec).dev
    obtain ⟨tensors', w', hrest, hbound⟩ := ih (h.onlyScope honly) hscope₁ hopen₁
      (fun id hid => hids id (List.mem_cons_of_mem _ hid)) (tensors.insert spec.id slot)
    refine ⟨tensors', w', ?_, .trans honly hbound⟩
    rw [Run.bindTensors, anyTensor_live hspec, check_run]
    simp only [AnyTensor.live]
    rw [check_run]
    simp only
    rw [bind_of_ok hbind]
    exact hrest

omit hscope in
theorem bindCall_returns (hcall : call ∈ plan.calls) {bound : Bound}
    (hscope : w.scopes.lookup bound.scope = some scope)
    (hall : ∀ spec ∈ plan.tensors, spec.id ∈ bound.tensors) :
    ∃ bound' w', (liveRun plan d site).bindCall call.id bound w = (.ok bound', w') ∧
      bound'.scope = bound.scope ∧ bound'.tensors = bound.tensors ∧
      BoundIn d bound.scope w w' := by
  obtain ⟨node, hnode, hn⟩ := h.nodes call hcall
  obtain ⟨args, hargs⟩ : ∃ args, Run.args
      ⟨site.address call.id, call.tensors, call.node.metaSources⟩ node.signature.layout
        bound.tensors = .ok args := by
    suffices hall : ∀ x ∈ call.tensors.zip node.signature.layout, ∃ arg : Arg, (do
        let slot ← .okOr (.NotInPlan "tensor") (bound.tensors.lookup x.1)
        return if x.2.isInput then .Read slot else .Write slot : Outcome Error Arg) = .ok arg by
      obtain ⟨args, hargs⟩ := List.Forall₂.exists_of_forall hall
      exact ⟨args, Outcome.mapM_eq_ok.mpr hargs⟩
    intro x hx
    rw [hn.signature] at hx
    obtain ⟨spec, hspec, hid, -⟩ := slots_specs hcall hx
    obtain ⟨slot, hslot⟩ := exists_of_mem (hall spec hspec)
    refine ⟨if x.2.isInput then .Read slot else .Write slot, ?_⟩
    rw [← hid, hslot]
    rfl
  obtain ⟨slot, w', hbind, hbound⟩ := scopeBindNode_returns hscope hopen hnode hn.dev
  let perRun := if call.node.metaSources.any MetaSource.isPerRun then
      bound.perRun ++ [⟨slot, node.metaVals, call.node.metaSources⟩]
    else bound.perRun
  refine ⟨{ bound with calls := bound.calls.insert call.id (slot, args), perRun }, w', ?_, rfl, rfl,
    hbound⟩
  rw [Run.bindCall, call_live hcall, check_run]
  simp only
  rw [bind_of_ok (get_run w), node_of_lookup hnode, check_run]
  simp only
  rw [hargs, check_run]
  simp only
  rw [bind_of_ok hbind]
  rfl

omit hscope in
theorem bindCalls_returns {ids : List Nat} (hids : ∀ id ∈ ids, id ∈ (liveRun plan d site).calls)
    {bound : Bound} (hscope : w.scopes.lookup bound.scope = some scope)
    (hall : ∀ spec ∈ plan.tensors, spec.id ∈ bound.tensors) :
    ∃ bound' w', (liveRun plan d site).bindCalls ids bound w = (.ok bound', w') ∧
      BoundIn d bound.scope w w' := by
  induction ids generalizing w bound scope with
  | nil => exact ⟨bound, w, rfl, .refl hscope hopen⟩
  | cons id rest ih =>
    obtain ⟨rc, hrc⟩ := exists_of_mem (hids id List.mem_cons_self)
    obtain ⟨call, hcall, rfl, -⟩ := (AList.lookup_ofList (h := plan.callIds)).mp hrc
    obtain ⟨bound₁, w₁, hfirst, hsame, htensors, honly, scope₁, hscope₁, hopen₁⟩ :=
      bindCall_returns h hopen hcall hscope hall
    rw [← hsame] at honly hscope₁
    obtain ⟨bound₂, w₂, hrest, hbound⟩ := ih (h.onlyScope honly) hopen₁
      (fun id hid => hids id (List.mem_cons_of_mem _ hid)) hscope₁ (htensors ▸ hall)
    rw [← hsame]
    refine ⟨bound₂, w₂, ?_, .trans honly hbound⟩
    rw [Run.bindCalls, bind_of_ok hfirst, hrest]

/-- **Binding succeeds**, and changes nothing but the scope. -/
theorem bind_returns (hh : Holding plan d site held) {ts cs : List Nat}
    (hts : ts.Perm (liveRun plan d site).tensors.keys)
    (hcs : cs.Perm (liveRun plan d site).calls.keys) :
    ∃ bound w', (liveRun plan d site).bind s ts cs w = (.ok bound, w') ∧ BoundIn d s w w' := by
  obtain ⟨tensors, w₁, htensors, honly, scope₁, hscope₁, hopen₁⟩ := bindTensors_returns h hscope
    hopen hh (fun id hid => AList.mem_keys.mpr (hts.mem_iff.mp hid)) ∅
  have hall : ∀ spec ∈ plan.tensors, spec.id ∈ tensors := by
    intro spec hspec
    rw [bindTensors_mem htensors, hts.mem_iff]
    exact .inl (AList.mem_keys.mp (mem_liveRun hspec))
  let bare : Bound := ⟨s, tensors, ∅, [], (liveRun plan d site).order⟩
  have hbare : w₁.scopes.lookup bare.scope = some scope₁ := hscope₁
  obtain ⟨bound, w₂, hcalls, hbound⟩ := bindCalls_returns (h.onlyScope honly) hopen₁
    (fun id hid => AList.mem_keys.mpr (hcs.mem_iff.mp hid)) hbare hall
  refine ⟨bound, w₂, ?_, .trans honly hbound⟩
  rw [Run.bind, bind_of_ok htensors, hcalls]

end Bind

end Wilupgu.Plan
