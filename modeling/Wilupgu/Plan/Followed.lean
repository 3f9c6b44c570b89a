import Wilupgu.Plan.Described
import Wilupgu.Plan.Steps

/-! # A run follows its plan

A run that was built on a CPU device, and isn't edited, does in every step of
the program what the reference interpreter does: its tensors hold the
contents that the described calls leave, whatever scopes it is bound in. -/

namespace Wilupgu.Plan

open Backend Backends Call Memory Transition

variable {plan : RunSpec} {d : Nat} {site : Site CpuBackend} {held : Nat → Tensor CpuBackend}
  {w w' : World CpuBackend} {ρ : Reference} {run : Run}

/-! ## As it is built -/

/-- What a `Dynamic` is taken to be before it is first applied is what its
field is built with. -/
theorem MetaSource.described_of_buildValue {source : MetaSource} {v : MetaValue}
    (h : source.buildValue = .ok v) : source.described (fun _ => 0) = v := by
  cases source with
  | Uint r | Float r =>
    obtain ⟨u, hu, hv⟩ := Outcome.bind_eq_ok.mp h
    cases hv
    rw [Outcome.okOr_eq_ok.mp hu]
    rfl
  | UintPerRun d | FloatPerRun d =>
    cases h
    rfl

theorem nodeBuild_nodeOf {spec : NodeSpec} {a : Nat} (h : spec.build d a w = (.ok (), w')) :
    ∃ node, w'.nodes.lookup a = some node ∧
      ∀ call : CallSpec, call.node = spec → NodeOf call d (fun _ => 0) node := by
  rw [NodeSpec.build, Call.check_eq_ok] at h
  obtain ⟨vals, hvals, h⟩ := h
  rw [Call.check_eq_ok] at h
  obtain ⟨wg, hwg, h⟩ := h
  rw [buildNode_run] at h
  rcases hnode : ComputeDevice.node d w.nextUid spec.shader vals wg (w.devices d) with
    ⟨node | e | _, dev⟩ <;> rw [hnode] at h <;> cases h
  refine ⟨node, AList.lookup_insert _, ?_⟩
  rintro call rfl
  obtain ⟨words, raw, hwords, hraw, -, rfl⟩ := deviceNode_ok hnode
  have hagrees : Node.Agrees (⟨raw, _, vals, d, w.nextUid⟩ : Node CpuBackend) :=
    agrees_of_build hwords hraw
  have hmeta : vals = call.node.metaSources.map (MetaSource.described fun _ => 0) := by
    have hall := Outcome.mapM_eq_ok.mp hvals
    have hmap := hall.map_eq_map (f := MetaSource.described fun _ => 0) (g := id)
      fun _ _ => MetaSource.described_of_buildValue
    rw [hmap, List.map_id]
  simp only [Dispatch.buildNode, CpuBackend.buildNode] at hraw
  split at hraw
  · rename_i code hcode
    obtain rfl := Outcome.ok.inj (congrArg Prod.fst hraw)
    refine ⟨rfl, rfl, ?_, ?_, hagrees, hmeta⟩
    · rw [CallSpec.native, hcode]
    · exact Outcome.okOr_eq_ok.mp hwg
  · cases hraw

/-- The nodes of a plan that was built. -/
theorem build_nodes (hv : Session.Vacant w plan site) (h : plan.build d site w = (.ok run, w')) :
    ∀ call ∈ plan.calls, ∃ node, w'.nodes.lookup (site.address call.id) = some node ∧
      NodeOf call d (fun _ => 0) node := by
  obtain ⟨-, w₁, -, hnodes⟩ := build_parts h
  intro call hcall
  obtain ⟨node, hnode, hn⟩ := buildNodes_ok hv.toNodesVacant
    (fun _ _ _ _ => nodeBuild_nodeOf) hnodes call hcall
  exact ⟨node, hnode, hn call rfl⟩

/-- The reference interpreter, given the contents that a built run's tensors have. -/
def Reference.start (site : Site CpuBackend) (w : World CpuBackend) (dynamics : Dynamics) :
    Reference :=
  ⟨fun id => bytesAt w (site.place id), fun _ => 0, dynamics⟩

/-- The tensor that a site puts under an id, and one of no bytes where there is none. -/
def heldAt (site : Site CpuBackend) (w : World CpuBackend) (id : Nat) : Tensor CpuBackend :=
  (w.tensors.lookup (site.place id)).getD ⟨.Alloc ⟨.Owned dangling 0, 0⟩, .Int8, 0, 0⟩

theorem heldAt_eq {id : Nat} {t : Tensor CpuBackend}
    (h : w.tensors.lookup (site.place id) = some t) : heldAt site w id = t := by
  rw [heldAt, h]
  rfl

section Start

variable {poolBytes : Nat → Nat} {es : List (Wilupgu.Event CpuBackend)}
  (hes : Runs (Capture.Solo d) (World.init CpuBackend.attach poolBytes) es w)
  (hclosed : ∀ scope ∈ w.scopes.values, scope.dev ≠ d) (hv : Session.Vacant w plan site)
  (h : plan.build d site w = (.ok run, w'))
include hes hclosed hv h

/-- A build leaves the device's memory laid out, and the device at rest. -/
theorem build_rests : Laid w' ∧ w'.Valid ∧ Capture.recordingOf w' d = ⟨none, false⟩ := by
  have hvalid : w.Valid := World.Valid.run (.init _ _) hes.of_where
  obtain ⟨es', hes'⟩ := build_byCalls hv h hvalid
  have hscopes := (build_within plan d site w).scopes
  rw [h] at hscopes
  have hsolo : Runs (Capture.Solo d) w es' w' := by
    refine hes'.mono fun _ e _ hs => ⟨hs.1, fun hcrowds => ?_⟩
    rcases he : e.act with _ | _ | _ | ⟨s, d'⟩ | _ <;> rw [he] at hcrowds <;>
      first | exact hcrowds | exact hs.2 s d' he
  have halone : Capture.Alone w' d :=
    (Capture.Alone.init poolBytes d).run (.init _ _) (hes.append hsolo)
  refine ⟨laid ⟨_, (hes.append hsolo).of_where⟩, hvalid.run hes'.of_where, ?_⟩
  exact halone.idle_of_closed (hscopes ▸ hclosed)

/-- **As it is built**, a run stands as the reference interpreter starts. -/
theorem build_stands (dynamics : Dynamics) : Holding plan d site (heldAt site w') ∧
    Stands plan d site (heldAt site w') w' (Reference.start site w' dynamics) := by
  obtain ⟨hlaid, hvalid, hrecording⟩ := build_rests hes hclosed hv h
  obtain ⟨-, -, htensors, -⟩ := build_ok hv h
  have hheld : ∀ spec ∈ plan.tensors, w'.tensors.lookup (site.place spec.id) =
      some (heldAt site w' spec.id) ∧ BuiltTensor spec d (heldAt site w' spec.id) := by
    intro spec hspec
    obtain ⟨t, ht, hbuilt⟩ := htensors spec hspec
    rw [heldAt_eq ht]
    exact ⟨ht, hbuilt⟩
  refine ⟨⟨fun spec hspec => (hheld spec hspec).2, fun spec hspec => ?_,
    fun spec hspec spec' hspec' hne => ?_, hv.places⟩, ⟨fun spec hspec => (hheld spec hspec).1,
    build_nodes hv h, hrecording, hlaid.owners.device d, fun spec hspec => ?_⟩⟩
  · obtain ⟨ht, hbuilt⟩ := hheld spec hspec
    exact (hlaid.owners.tensor _ (AList.mem_values.mpr ⟨_, ht⟩)).trans hbuilt.dev
  · obtain ⟨ht, hbuilt⟩ := hheld spec hspec
    obtain ⟨ht', hbuilt'⟩ := hheld spec' hspec'
    refine hlaid.disjoint hvalid (fun he => hne ?_) ht ht' (hbuilt.dev.trans hbuilt'.dev.symm)
    rw [List.inj_on_of_nodup_map hv.places hspec hspec' he]
  · obtain ⟨ht, hbuilt⟩ := hheld spec hspec
    have hbytes := bytesAt_of_lookup ht
    rw [hbuilt.dev] at hbytes
    exact hbytes.symm

omit hes hclosed in
/-- **What was checked as it was built** need not be checked again but for
per-run fields. -/
theorem build_runnable {first : Reference} (hreturns : Reference.Returns plan first) :
    Reference.Runnable plan first := by
  have hnodes := build_nodes hv h
  obtain ⟨rfl, -, htensors, hlong⟩ := build_ok hv h
  refine ⟨fun call hcall => ?_, hreturns, fun call hcall hnot applied => ?_⟩
  · obtain ⟨node, -, hn⟩ := hnodes call hcall
    exact ⟨_, hn.code⟩
  · rw [CallSpec.longEnough_of_not_perRun hnot plan applied fun _ => 0]
    obtain ⟨node, hnode, hn⟩ := hnodes call hcall
    have hlens : node.lens = call.needs fun _ => 0 := hn.lens
    have hbuilt : (builtCalls plan site).lookup call.id =
        some ⟨site.address call.id, call.tensors, call.node.metaSources⟩ :=
      AList.lookup_ofList.mpr ⟨call, hcall, rfl, rfl⟩
    have hmem : call.id ∈ site.order (builtCalls plan site).keys := by
      rw [(site.perm _).mem_iff, ← AList.mem_keys, ← AList.lookup_isSome, hbuilt]
      rfl
    have hchecked := Outcome.forM_eq_ok.mp hlong call.id hmem
    obtain ⟨rc, hrc, hchecked⟩ := Outcome.bind_eq_ok.mp hchecked
    obtain rfl := Option.some.inj (hbuilt.symm.trans (Outcome.okOr_eq_ok.mp hrc))
    obtain ⟨node', hnode', hchecked⟩ := Outcome.bind_eq_ok.mp hchecked
    obtain rfl := Option.some.inj (hnode.symm.trans (Outcome.expect_eq_ok.mp hnode'))
    rw [hlens, hn.signature] at hchecked
    refine Outcome.forM_eq_ok.mpr fun x hx => ?_
    have hone := Outcome.forM_eq_ok.mp hchecked x hx
    rcases x with ⟨⟨id, needs⟩, slot⟩
    obtain ⟨tensor, htensor, hone⟩ := Outcome.bind_eq_ok.mp hone
    obtain ⟨len, hlen, hone⟩ := Outcome.bind_eq_ok.mp hone
    have hfound : (builtTensors plan site).lookup id = some tensor := Outcome.okOr_eq_ok.mp htensor
    obtain ⟨spec, hspec, rfl, rfl⟩ :=
      (AList.lookup_ofList (h := plan.tensorIds)).mp hfound
    obtain ⟨t, ht, hlen⟩ := Outcome.bind_eq_ok.mp hlen
    cases hlen
    obtain ⟨t', ht', hspecTensor⟩ := htensors spec hspec
    obtain rfl := Option.some.inj (ht'.symm.trans (Outcome.expect_eq_ok.mp ht))
    simp only [plan.tensorLen_eq hspec hspecTensor]
    exact hone

end Start

/-! ## Metas that are applied -/

/-- All that setting its meta leaves of a node. -/
structure SameCode (node node' : Node CpuBackend) : Prop where
  dev : node'.dev = node.dev
  signature : node'.signature = node.signature
  code : CpuNode.code node'.raw = CpuNode.code node.raw
  workgroups : node'.workgroups = node.workgroups

/-- Nothing has changed but nodes' metas. -/
structure OnlyMetas (w w' : World CpuBackend) : Prop where
  tensors : w'.tensors = w.tensors
  scopes : w'.scopes = w.scopes
  devices : w'.devices = w.devices
  nodes : ∀ a node, w.nodes.lookup a = some node →
    ∃ node', w'.nodes.lookup a = some node' ∧ SameCode node node'

theorem frame_onlyMetas : Frame OnlyMetas where
  refl _ := ⟨rfl, rfl, rfl, fun _ node h => ⟨node, h, rfl, rfl, rfl, rfl⟩⟩
  trans h h' := by
    refine ⟨h'.tensors.trans h.tensors, h'.scopes.trans h.scopes, h'.devices.trans h.devices,
      fun a node hnode => ?_⟩
    obtain ⟨node₁, hnode₁, hs⟩ := h.nodes a node hnode
    obtain ⟨node₂, hnode₂, hs'⟩ := h'.nodes a node₁ hnode₁
    exact ⟨node₂, hnode₂, hs'.dev.trans hs.dev, hs'.signature.trans hs.signature,
      hs'.code.trans hs.code, hs'.workgroups.trans hs.workgroups⟩

theorem nodeUpdateMeta_sameCode (vals : List MetaValue) (dev : ComputeDevice CpuBackend)
    (node : Node CpuBackend) : (Node.updateMeta vals (dev, node)).2.1 = dev ∧
      SameCode node (Node.updateMeta vals (dev, node)).2.2 := by
  rw [nodeUpdateMeta_run]
  split
  · rename_i words _
    have hraw : Dispatch.updateMeta node.raw words dev.raw =
        if words.length = (CpuNode.metaWords node.raw).length
        then (.ok { (node.raw : CpuNode) with metaWords := words }, dev.raw)
        else (.panic, dev.raw) := rfl
    by_cases hlen : words.length = (CpuNode.metaWords node.raw).length
    · rw [if_pos hlen] at hraw
      simp only [hraw]
      exact ⟨trivial, rfl, rfl, rfl, rfl⟩
    · rw [if_neg hlen] at hraw
      simp only [hraw]
      exact ⟨trivial, rfl, rfl, rfl, rfl⟩
  all_goals exact ⟨rfl, rfl, rfl, rfl, rfl⟩

theorem updateMeta_onlyMetas (a : Nat) (vals : List MetaValue) :
    Keeps OnlyMetas (World.updateMeta a vals) := by
  intro w
  rcases hnode : w.nodes.lookup a with _ | node
  · rw [World.updateMeta, bind_of_ok (get_run w), World.node, hnode, check_run]
    exact frame_onlyMetas.refl w
  · obtain ⟨hdev, hsame⟩ := nodeUpdateMeta_sameCode vals (w.devices node.dev) node
    rw [updateMeta_run hnode, hdev]
    refine ⟨rfl, rfl, Function.update_eq_self _ _, fun b node' hnode' => ?_⟩
    simp only [World.setNodes_nodes, AList.lookup_insert_eq]
    by_cases hb : b = a
    · subst hb
      obtain rfl := Option.some.inj (hnode.symm.trans hnode')
      exact ⟨_, if_pos rfl, hsame⟩
    · exact ⟨node', (if_neg hb).trans hnode', rfl, rfl, rfl, rfl⟩

theorem applyDynamics_onlyMetas (bound : Bound) (dynamics : Dynamics) :
    Keeps OnlyMetas (bound.applyDynamics (B := CpuBackend) dynamics) :=
  frame_onlyMetas.lift_bind fun _ => frame_onlyMetas.forM fun entry _ =>
    frame_onlyMetas.get_bind fun _ => frame_onlyMetas.lift_bind fun _ =>
      frame_onlyMetas.lift_bind fun node => updateMeta_onlyMetas node.1 entry.2

/-- Fields that are as they were built but for the `Dynamic`s' values, which
have been applied, are what the reference interpreter has. -/
theorem Applied.described {dynamics : Dynamics} {sources : List MetaSource}
    {now : List MetaValue} (h : Applied dynamics sources now)
    (hb : AsBuilt sources (sources.map (MetaSource.described fun _ => 0)) now) :
    now = sources.map (MetaSource.described fun d => (dynamics d).getD 0) := by
  refine List.ext_getElem? fun i => ?_
  rw [List.getElem?_map]
  rcases hi : sources[i]? with _ | source
  · rw [List.getElem?_eq_none (hb.now_length ▸ List.getElem?_eq_none_iff.mp hi)]
    rfl
  · rcases hd : source.dynamic with _ | d
    · rw [hb.kept i source hi hd, List.getElem?_map, hi]
      refine congrArg some (MetaSource.described_of_not_perRun ?_ _ _)
      by_contra hper
      obtain ⟨d, hd'⟩ := MetaSource.isPerRun_iff.mp (by simpa using hper)
      cases hd.symm.trans hd'
    · obtain ⟨v, hv, hnow⟩ := h i source d hi hd
      rw [hnow, Option.map_some]
      cases source <;> cases hd <;> simp [MetaSource.valueOf, MetaSource.described, hv]

/-! ## One step -/

theorem Stands.same (h : Stands plan d site held w ρ)
    (ht : ∀ spec ∈ plan.tensors,
      w'.tensors.lookup (site.place spec.id) = w.tensors.lookup (site.place spec.id))
    (hn : ∀ call ∈ plan.calls,
      w'.nodes.lookup (site.address call.id) = w.nodes.lookup (site.address call.id))
    (hd : w'.devices d = w.devices d) : Stands plan d site held w' ρ := by
  refine ⟨fun spec hspec => (ht spec hspec).trans (h.tensors spec hspec), fun call hcall => ?_, ?_,
    ?_, ?_⟩
  · obtain ⟨node, hnode, hn'⟩ := h.nodes call hcall
    exact ⟨node, (hn call hcall).trans hnode, hn'⟩
  · rw [Capture.recordingOf, hd]
    exact h.recording
  · rw [hd]
    exact h.owner
  · rw [memOf, hd]
    exact h.contents

theorem Stands.nodesFit (h : Stands plan d site held w ρ) : NodesFit plan d site w := by
  intro call hcall
  obtain ⟨node, hnode, hn⟩ := h.nodes call hcall
  exact ⟨node, hnode, hn.signature, hn.dev⟩

/-- Binding changes scopes only. -/
def OnlyScopes (w w' : World CpuBackend) : Prop :=
  w'.tensors = w.tensors ∧ w'.nodes = w.nodes ∧ w'.devices = w.devices

theorem bind_onlyScopes (run : Run) (s : Nat) (ts cs : List Nat) :
    Keeps OnlyScopes (run.bind (B := CpuBackend) s ts cs) := by
  have hF : Frame OnlyScopes :=
    (frame_eq World.tensors).and ((frame_eq World.nodes).and (frame_eq World.devices))
  refine bind_keeps hF (fun s p => ?_) (fun s a => ?_) run s ts cs
  all_goals exact hF.get_bind fun _ => hF.lift_bind fun _ => hF.lift_bind fun _ =>
    hF.lift_bind fun _ => hF.bind (keeps_modify fun _ => ⟨rfl, rfl, rfl⟩) fun _ => hF.pure _

namespace Session

/-- The step uses the run at `r`, or it leaves device `d` as it is. -/
def OnlyUses (r d : Nat) (σ : Session CpuBackend) (e : PlanEvent CpuBackend) : Prop :=
  match e.act with
  | .bind r' _ _ _ | .execute r' | .executeCall r' _ | .applyDynamics r' => r' = r
  | .setDynamic _ _ | .closeScope _ => True
  | .elsewhere f => (f σ.world).2.devices d = σ.world.devices d
  | _ => False

/-- **The session follows the reference interpreter** with the run at `r`, that
was built of `plan` when the world was `first`. -/
structure Follows (plan : RunSpec) (d : Nat) (site : Site CpuBackend)
    (held : Nat → Tensor CpuBackend) (first : World CpuBackend) (r : Nat)
    (σ : Session CpuBackend) (ρ : Reference) : Prop where
  sound : σ.Sound
  handled : σ.Handled (Copies first r)
  kept : Kept (builtCalls plan site) first r σ
  run : σ.runs.lookup r = some (builtRun plan d site (builtTensors plan site))
  fits : ∀ bound, σ.Binds r bound → bound.Fits plan d σ.world
  dynamics : ρ.dynamics = σ.dynamics
  stands : Stands plan d site held σ.world ρ

variable {σ σ' : Session CpuBackend} {first : World CpuBackend} {r : Nat}
  {e : PlanEvent CpuBackend}

theorem OnlyUses.notEdited (h : σ.OnlyUses r d e) : σ.NotEdited r e := by
  intro ts cs f hact
  rw [OnlyUses, hact] at h
  exact h

/-- The handle of a run that is followed. -/
theorem Follows.holds (h : Follows plan d site held first r σ ρ) {bound : Bound}
    (hb : σ.Binds r bound) :
    bound.Holds (Copies first r r) (builtRun plan d site (builtTensors plan site)) σ.world ∧
      ∀ id, id ∈ bound.calls ↔ id ∈ builtCalls plan site := by
  obtain ⟨borrow, hborrow, hhandle⟩ := hb
  obtain ⟨-, run, hrun, hholds, hmem⟩ := h.handled r borrow bound hborrow hhandle
  obtain rfl := Option.some.inj (h.run.symm.trans hrun)
  exact ⟨hholds, hmem⟩

/-- A `Dynamic` is unset in the run exactly if it is in its plan. -/
theorem Follows.unset_iff (h : Follows plan d site held first r σ ρ) :
    σ.Unset r ↔ (plan.perRunDynamics.any fun d => ρ.dynamics d = none) = true := by
  rw [List.any_eq_true, h.dynamics]
  simp only [RunSpec.perRunDynamics, List.mem_flatMap, List.mem_filterMap, decide_eq_true_eq]
  constructor
  · intro hunset
    obtain ⟨run, hrun, rc, hrc, source, hsource, d', hd, hnone⟩ := hunset
    obtain rfl := Option.some.inj (h.run.symm.trans hrun)
    obtain ⟨id, hid⟩ := AList.mem_values.mp hrc
    obtain ⟨call, hcall, -, rfl⟩ := (AList.lookup_ofList (h := plan.callIds)).mp hid
    exact ⟨d', ⟨call, hcall, source, hsource, hd⟩, hnone⟩
  · intro hunset
    obtain ⟨d', ⟨call, hcall, source, hsource, hd⟩, hnone⟩ := hunset
    exact ⟨_, h.run, _, AList.mem_values.mpr ⟨call.id, (AList.lookup_ofList
      (h := plan.callIds)).mpr ⟨call, hcall, rfl, rfl⟩⟩, source, hsource, d', hd, hnone⟩

/-- **`apply_dynamics`** sets what the reference interpreter takes. -/
theorem Follows.applyDynamics (h : Follows plan d site held first r σ ρ)
    (hfirst : ∀ call ∈ plan.calls, ∃ node, first.nodes.lookup (site.address call.id) = some node ∧
      NodeOf call d (fun _ => 0) node) {bound : Bound} (hb : σ.Binds r bound) :
    (bound.applyDynamics σ.dynamics σ.world).1 = (Reference.applyDynamics plan ρ).1 ∧
      Stands plan d site held (bound.applyDynamics σ.dynamics σ.world).2
        (Reference.applyDynamics plan ρ).2 := by
  have hmetas := applyDynamics_onlyMetas bound σ.dynamics σ.world
  simp only [Reference.applyDynamics]
  rcases h.kept.applyDynamics h.sound h.handled hb with ⟨hunset, herr⟩ | ⟨hset, w', hok, hall, -⟩
  · rw [herr, if_pos (h.unset_iff.mp hunset)]
    exact ⟨rfl, h.stands⟩
  · rw [hok] at hmetas ⊢
    rw [if_neg fun hany => hset (h.unset_iff.mpr hany)]
    refine ⟨rfl, fun spec hspec => ?_, fun call hcall => ?_, ?_, ?_, ?_⟩
    · rw [hmetas.tensors]
      exact h.stands.tensors spec hspec
    · obtain ⟨node, hnode, hn⟩ := h.stands.nodes call hcall
      obtain ⟨node', hnode', hsame⟩ := hmetas.nodes _ node hnode
      obtain ⟨built, node'', hbuilt, hnode'', hagrees, hasBuilt, happlied⟩ := hall call.id _
        ((AList.lookup_ofList (h := plan.callIds)).mpr ⟨call, hcall, rfl, rfl⟩)
      obtain rfl := Option.some.inj (hnode'.symm.trans hnode'')
      obtain ⟨node₀, hnode₀, hn₀⟩ := hfirst call hcall
      obtain rfl := Option.some.inj (hnode₀.symm.trans hbuilt)
      rw [hn₀.metaVals] at hasBuilt
      refine ⟨node', hnode', hsame.dev.trans hn.dev, hsame.signature.trans hn.signature, ?_, ?_,
        hagrees, ?_⟩
      · rw [hsame.code]
        exact hn.code
      · rw [hsame.workgroups]
        exact hn.workgroups
      · rw [h.dynamics]
        exact happlied.described hasBuilt
    · rw [Capture.recordingOf, hmetas.devices]
      exact h.stands.recording
    · rw [hmetas.devices]
      exact h.stands.owner
    · rw [memOf, hmetas.devices]
      exact h.stands.contents

/-- **Step rule.** Each step is one of the reference interpreter. -/
theorem Follows.step (h : Follows plan d site held first r σ ρ)
    (hh : Holding plan d site held)
    (hfirst : ∀ call ∈ plan.calls, ∃ node, first.nodes.lookup (site.address call.id) = some node ∧
      NodeOf call d (fun _ => 0) node) (hstep : Where Step (OnlyUses r d) σ e σ') :
    ∃ ρ', Reference.Step plan ρ e ρ' ∧ Follows plan d site held first r σ' ρ' := by
  obtain ⟨hs, huses⟩ := hstep
  have hsound := h.sound.step hs
  have hhandled := h.handled.step hs h.kept.copies
  have hkept := h.kept.step h.sound h.handled ⟨hs, huses.notEdited⟩
  -- what is left is the run, its handle and the world
  suffices hrest : ∃ ρ', Reference.Step plan ρ e ρ' ∧ σ'.runs.lookup r = σ.runs.lookup r ∧
      (∀ bound, σ'.Binds r bound → bound.Fits plan d σ'.world) ∧ ρ'.dynamics = σ'.dynamics ∧
      Stands plan d site held σ'.world ρ' by
    obtain ⟨ρ', href, hruns, hfits, hdynamics, hstands⟩ := hrest
    exact ⟨ρ', href, hsound, hhandled, hkept, hruns.trans h.run, hfits, hdynamics, hstands⟩
  clear hsound hhandled hkept
  obtain ⟨ha, hp⟩ := hs
  rcases e with ⟨act, out⟩
  obtain rfl : (act.perform σ).1 = out := congrArg Prod.fst hp
  obtain rfl : (act.perform σ).2 = σ' := congrArg Prod.snd hp
  clear hp
  cases act with
  | build r' d' plan' site' => exact absurd huses not_false
  | buildHollow r' d' plan' site' => exact absurd huses not_false
  | fillFrom r' source id => exact absurd huses not_false
  | edit r' ts cs f => exact absurd huses not_false
  | bind r' s ts cs =>
    obtain rfl : r' = r := huses
    obtain ⟨htensors, hnodes, hdevices⟩ :=
      bind_onlyScopes (builtRun plan d site (builtTensors plan site)) s ts cs σ.world
    refine ⟨ρ, rfl, ?_⟩
    change (Session.bind r' s ts cs σ).2.runs.lookup r' = _ ∧ _
    simp only [PlanAct.perform]
    rw [bind_session_run h.run]
    rcases hbind : (builtRun plan d site (builtTensors plan site)).bind s ts cs σ.world with
      ⟨bound | e | _, w⟩ <;> rw [hbind] at htensors hnodes hdevices
    all_goals
      refine ⟨rfl, fun bound' hb => ?_, h.dynamics, h.stands.same (fun _ _ => by rw [htensors])
        (fun _ _ => by rw [hnodes]) (by rw [hdevices])⟩
      obtain ⟨borrow, hborrow, hhandle⟩ := hb
      rw [AList.lookup_insert] at hborrow
      cases hborrow
      cases hhandle
    exact bind_fits hbind rfl h.stands.nodesFit
  | execute r' =>
    obtain rfl : r' = r := huses
    obtain ⟨bound, hb⟩ := ha
    have hrun : (PlanAct.execute r').perform σ = _ := bound_run hb fun _ bound => bound.execute
    obtain ⟨hholds, hmem⟩ := h.holds hb
    obtain ⟨hout, hstands⟩ := h.stands.execute hh (h.fits bound hb) hholds hmem
    have hopen := (execute_executed bound σ.world).onward
    rw [hrun]
    refine ⟨_, Prod.ext hout.symm rfl, rfl, fun bound' hb' => ?_, ?_, hstands⟩
    · exact (h.fits bound' hb').stays (hopen.staysOpen bound'.scope)
    · exact (Reference.execute_dynamics plan ρ).trans h.dynamics
  | executeCall r' id =>
    obtain rfl : r' = r := huses
    obtain ⟨bound, hb⟩ := ha
    have hrun : (PlanAct.executeCall r' id).perform σ = _ :=
      bound_run hb fun _ bound => bound.executeCall id
    obtain ⟨hholds, hmem⟩ := h.holds hb
    obtain ⟨hout, hstands⟩ := h.stands.executeCall hh (h.fits bound hb) hholds hmem id
    have hopen := (executeCall_executed bound id σ.world).onward
    rw [hrun]
    refine ⟨_, Prod.ext hout.symm rfl, rfl, fun bound' hb' => ?_, ?_, hstands⟩
    · exact (h.fits bound' hb').stays (hopen.staysOpen bound'.scope)
    · exact (Reference.executeCall_dynamics plan id ρ).trans h.dynamics
  | applyDynamics r' =>
    obtain rfl : r' = r := huses
    obtain ⟨bound, hb⟩ := ha
    have hrun : (PlanAct.applyDynamics r').perform σ = _ :=
      bound_run hb fun dynamics bound => bound.applyDynamics dynamics
    obtain ⟨hout, hstands⟩ := h.applyDynamics hfirst hb
    have hopen := applyDynamics_onward bound σ.dynamics σ.world
    rw [hrun]
    refine ⟨_, Prod.ext hout.symm rfl, rfl, fun bound' hb' => ?_, ?_, hstands⟩
    · exact (h.fits bound' hb').stays (hopen.staysOpen bound'.scope)
    · exact (Reference.applyDynamics_dynamics plan ρ).trans h.dynamics
  | setDynamic d' value =>
    refine ⟨ρ.setDynamic d' value, rfl, rfl, h.fits, ?_, ?_⟩
    · exact congrArg (fun dynamics => Function.update dynamics d' (some value)) h.dynamics
    · exact ⟨h.stands.tensors, h.stands.nodes, h.stands.recording, h.stands.owner,
        h.stands.contents⟩
  | closeScope s =>
    obtain ⟨scope, hscope⟩ := exists_of_mem ha
    refine ⟨ρ, rfl, ?_⟩
    simp only [PlanAct.perform]
    rw [closeScope_run s ha, close_run hscope]
    refine ⟨rfl, fun bound hb => ?_, h.dynamics, h.stands.same (fun _ _ => rfl) (fun _ _ => rfl) ?_⟩
    · obtain ⟨borrow, hborrow, hhandle⟩ := hb
      obtain ⟨hborrow, hne⟩ := AList.lookup_keep.mp hborrow
      obtain ⟨hsame, -⟩ := h.handled r borrow bound hborrow hhandle
      refine (h.fits bound ⟨borrow, hborrow, hhandle⟩).stays fun scope' hscope' => ?_
      refine ⟨scope', (AList.lookup_erase_ne ?_).trans hscope', .refl scope'⟩
      rw [hsame]
      simpa using hne
    · exact congrFun (Function.update_eq_self _ _) d
  | elsewhere f =>
    refine ⟨ρ, rfl, rfl, fun bound hb => ?_, h.dynamics, h.stands.same (fun spec hspec => ?_)
      (fun call hcall => ?_) huses⟩
    · obtain ⟨borrow, hborrow, hhandle⟩ := hb
      obtain ⟨hsame, -⟩ := h.handled r borrow bound hborrow hhandle
      refine (h.fits bound ⟨borrow, hborrow, hhandle⟩).stays fun scope hscope => ?_
      rw [hsame] at hscope ⊢
      exact ha.scopes r borrow scope hborrow hscope
    · refine ha.tensors r _ h.run (fun he => by cases he) _ (AList.mem_values.mpr ⟨spec.id, ?_⟩)
      exact builtTensors_lookup.mpr ⟨spec, hspec, rfl, rfl⟩
    · exact ha.nodes r _ h.run (fun he => by cases he) ⟨site.address call.id, call.tensors,
        call.node.metaSources⟩ (AList.mem_values.mpr ⟨call.id, (AList.lookup_ofList
          (h := plan.callIds)).mpr ⟨call, hcall, rfl, rfl⟩⟩)

/-! ## Whole sessions -/

section Whole

variable {poolBytes : Nat → Nat} {w₀ : World CpuBackend} {es : List (PlanEvent CpuBackend)}
  {ws : List (Wilupgu.Event CpuBackend)} (hsession : Runs Step (init w₀) es σ)
  (hworld : Runs (Capture.Solo d) (World.init CpuBackend.attach poolBytes) ws σ.world)
  (hclosed : ∀ scope ∈ σ.world.scopes.values, scope.dev ≠ d)
  (hbuild : σ.Step ⟨.build r d plan site, .ok ()⟩ σ')
include hsession hworld hclosed hbuild

/-- **As it is built**, a run is followed. -/
theorem Follows.built : Holding plan d site (heldAt site σ'.world) ∧
    Follows plan d site (heldAt site σ'.world) σ'.world r σ'
      (Reference.start site σ'.world σ'.dynamics) := by
  have hsound := sound_of_runs hsession
  have hhandled : σ.Handled fun _ _ _ => True :=
    hsession.preserves (fun _ _ _ h hs => h.step hs fun _ _ _ _ _ _ _ => trivial) (.init w₀)
  have hbuilds : Builds r (⟨.build r d plan site, .ok ()⟩ : PlanEvent CpuBackend) :=
    ⟨rfl, d, plan, site, .inl rfl⟩
  obtain ⟨run, hrun, hkept⟩ := Kept.built hbuilds hbuild
  have hhandled' : σ'.Handled (Copies σ'.world r) := hhandled.built hbuilds hbuild
  have hsound' := hsound.step hbuild
  obtain ⟨⟨hfree, hv⟩, hp⟩ := hbuild
  change Session.put r (plan.build d site) σ = _ at hp
  rw [put_run] at hp
  rcases hbuilt : plan.build d site σ.world with ⟨run' | e | _, w⟩ <;> rw [hbuilt] at hp <;>
    cases hp
  obtain ⟨hholding, hstands⟩ := build_stands hworld hclosed hv hbuilt σ.dynamics
  obtain ⟨rfl, -⟩ := build_ok hv hbuilt
  obtain rfl := Option.some.inj ((AList.lookup_insert _).symm.trans hrun)
  refine ⟨hholding, hsound', hhandled', hkept, hrun, fun bound hb => ?_, rfl, hstands⟩
  -- no handle is of the run yet
  obtain ⟨borrow, hborrow, hhandle⟩ := hb
  obtain ⟨-, run, hold, -⟩ := hhandled r borrow bound hborrow hhandle
  cases hfree.symm.trans hold

/-- **A run follows its plan**: whatever is run and applied of it, in any
number of scopes, its tensors have the contents that the reference interpreter
comes to in the same steps. -/
theorem run_follows_plan {fs : List (PlanEvent CpuBackend)} {σ'' : Session CpuBackend}
    (hreturns : Reference.Returns plan (Reference.start site σ'.world σ'.dynamics))
    (hrun : Runs (Where Step (OnlyUses r d)) σ' fs σ'') :
    ∃ ρ, Runs (Where (Reference.Step plan) (Reference.Ends plan))
        (Reference.start site σ'.world σ'.dynamics) fs ρ ∧
      ∀ spec ∈ plan.tensors, bytesAt σ''.world (site.place spec.id) = ρ.contents spec.id := by
  obtain ⟨hh, hstart⟩ := Follows.built hsession hworld hclosed hbuild
  obtain ⟨⟨hfree, hv⟩, hp⟩ := hbuild
  change Session.put r (plan.build d site) σ = _ at hp
  rw [put_run] at hp
  rcases hbuilt : plan.build d site σ.world with ⟨run' | e | _, w⟩ <;> rw [hbuilt] at hp <;>
    cases hp
  have hfirst := build_nodes hv hbuilt
  have hrunnable := build_runnable hv hbuilt hreturns
  obtain ⟨ρ, href, hends⟩ : ∃ ρ,
      Runs (Reference.Step plan) (Reference.start site w σ.dynamics) (fs.map id) ρ ∧
        Follows plan d site (heldAt site w) w r σ'' ρ :=
    hrun.simulates (fun _ _ _ _ h hs => h.step hh hfirst hs) hstart
  rw [List.map_id] at href
  have hall : Runs (Where (Reference.Step plan) (Reference.Ends plan))
      (Reference.start site w σ.dynamics) fs ρ := by
    refine href.where_of_invariant
      (I := fun ρ : Reference => ρ.SizedAs (Reference.start site w σ.dynamics)) ?_ ?_ fun _ => rfl
    · exact fun _ _ _ hsized hs => hs.sized hsized
    · exact fun _ _ _ hsized hs => hs.ends hrunnable hsized
  refine ⟨ρ, hall, fun spec hspec => ?_⟩
  have hbytes := bytesAt_of_lookup (hends.stands.tensors spec hspec)
  rw [(hh.built spec hspec).dev] at hbytes
  exact hbytes.trans (hends.stands.contents spec hspec)

end Whole

end Session

/-! ## A plan with a per-run field -/

namespace Sample

/-- Writes as many `i8`s as its field says, at least. -/
def fillUpTo : Shader :=
  ⟨⟨"fill_up_to", [⟨"n", .Uint⟩], [.Output .Int8],
    fun words _ lens => lens.map fun _ => (words.headD 0).toNat, fun _ _ _ => List.length_map _,
    (1, 1, 1)⟩, .Native Backends.Sample.sevens⟩

/-- A call that says how far its tensor is filled, and one that reads it. -/
def fillings : List CallSpec :=
  [⟨1, ⟨fillUpTo, [.Uint (some 4)], some (.linear 1), rfl⟩, [0], rfl⟩,
    ⟨2, ⟨fillUpTo, [.UintPerRun 0], some (.linear 1), rfl⟩, [0], rfl⟩]

theorem nodup_bytes : ([bytes].map TensorSpec.id).Nodup := by decide

theorem nodup_fillings : (fillings.map CallSpec.id).Nodup := by decide

/-- Both, on a tensor of four. -/
def filling : RunSpec := ⟨⟨[bytes], fillings, nodup_bytes, nodup_fillings⟩, rfl⟩

def filled : Session CpuBackend := ((PlanAct.build 0 0 filling Sample.site).perform start).2

/-- What is done with the run: the second time, the tensor is too short for the second call. -/
def filledTwice : List (PlanAct CpuBackend) :=
  [.elsewhere (Scope.openOn 0 0), .bind 0 0 [0] [1, 2], .setDynamic 0 3, .applyDynamics 0,
    .execute 0, .setDynamic 0 9, .applyDynamics 0, .execute 0]

end Sample

set_option maxRecDepth 4000

theorem Sample.run_filled : Session.Step Sample.start
    ⟨.build 0 0 Sample.filling Sample.site, .ok ()⟩ Sample.filled :=
  ⟨⟨rfl, ⟨by decide, by decide⟩, by decide, by decide⟩, rfl⟩

theorem Sample.returns_filling (first : Reference) : Reference.Returns Sample.filling first := by
  intro call hcall code hcode ρ _ _
  obtain rfl : code = Backends.Sample.sevens := by
    simp only [Sample.filling, Sample.fillings, List.mem_cons, List.not_mem_nil, or_false] at hcall
    rcases hcall with rfl | rfl <;> exact (Option.some.inj hcode).symm
  rfl

theorem Sample.plays_filledTwice :
    Session.Plays (Session.OnlyUses 0 0) Sample.filled Sample.filledTwice := by
  have hleaves : Sample.filled.Leaves none (Scope.openOn 0 0 Sample.filled.world).2 := by
    have hsound := Session.sound_of_runs (.single Sample.run_filled)
    refine ⟨fun _ _ _ _ _ _ => rfl, fun _ _ _ _ _ _ => rfl, fun r run hr => ⟨?_, ?_⟩,
      fun r borrow scope hb => by cases hb⟩
    · intro call hcall
      obtain ⟨id, hid⟩ := AList.mem_values.mp hcall
      exact hsound.node r id call.node ⟨run, call, hr, hid, rfl⟩
    · intro p hp
      obtain ⟨id, hid⟩ := AList.mem_values.mp hp
      exact hsound.tensor r id p ⟨run, hr, hid⟩
  refine ⟨hleaves, rfl, ⟨⟨by decide, rfl⟩, by decide, _, rfl, by decide, by decide⟩, rfl,
    trivial, trivial, ⟨_, _, rfl, rfl⟩, rfl, ⟨_, _, rfl, rfl⟩, rfl, trivial, trivial,
    ⟨_, _, rfl, rfl⟩, rfl, ⟨_, _, rfl, rfl⟩, rfl, trivial⟩

/-- Run twice, the second time with a field that asks for nine elements of
four, the tensor has the interpreter's contents. -/
theorem filling_is_followed : (Sample.filled.events Sample.filledTwice).map PlanEvent.out =
      [.ok (), .ok (), .ok (), .ok (), .ok (), .ok (), .ok (),
        .err (.InCall 1 (.TooShort "fill_up_to" 0 9 4))] ∧
    ∃ ρ, Runs (Where (Reference.Step Sample.filling) (Reference.Ends Sample.filling))
        (Reference.start Sample.site Sample.filled.world Sample.filled.dynamics)
        (Sample.filled.events Sample.filledTwice) ρ ∧
      bytesAt (Sample.filled.after Sample.filledTwice).world 0 = ρ.contents 0 ∧
      ρ.contents 0 = [7, 7, 7, 7] := by
  obtain ⟨ρ, href, hall⟩ := Session.run_follows_plan (.nil _) (.nil _)
    (fun scope hscope => absurd hscope (List.not_mem_nil)) Sample.run_filled
    (Sample.returns_filling _) (Session.runs_of_plays Sample.plays_filledTwice)
  have hbytes := hall Sample.bytes List.mem_cons_self
  refine ⟨rfl, ρ, href, hbytes, hbytes.symm.trans ?_⟩
  rfl

end Wilupgu.Plan
