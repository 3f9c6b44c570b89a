import Wilupgu.Capture.Refinement
import Wilupgu.Plan.Capturing

/-! # A captured run and one that isn't

Two programs use one built run alike, but the one has captured it: it replays
where the other executes. Both follow the reference interpreter, so what they
leave in the tensors and in the nodes is the same. -/

namespace Wilupgu.Plan

open Backend Backends ByteMemory Call Memory Transition

namespace Reference

/-- What each use of a captured run is here. -/
def useCaptured (plan : RunSpec) : Use → Call Reference Error Unit
  | .execute => replay plan
  | other => use plan other

/-- One use of a captured run. -/
def UsedCaptured (plan : RunSpec) (ρ : Reference) (e : UseEvent) (ρ' : Reference) : Prop :=
  useCaptured plan e.use ρ = (e.out, ρ')

/-- An `execute`, if it is one, that succeeds. -/
def Succeeds (e : UseEvent) : Prop := e.use = .execute → e.out = .ok ()

variable {plan : RunSpec} {ρ ρ' : Reference}

theorem runNatives_dynamics (calls : List CallSpec) :
    Keeps (fun ρ ρ' : Reference => ρ'.dynamics = ρ.dynamics) (runNatives calls) :=
  have hF := frame_eq Reference.dynamics
  hF.forM fun _ _ => hF.lift_bind fun _ _ => rfl

theorem replay_dynamics (plan : RunSpec) (ρ : Reference) :
    (replay plan ρ).2.dynamics = ρ.dynamics := by
  have hF := frame_eq Reference.dynamics
  exact hF.get_bind (fun _ => hF.lift_bind fun _ => runNatives_dynamics plan.calls) ρ

/-- **Uses that end alike**: those of a run as it is whose executes succeed, and
the same of a captured run. -/
theorem used_agree {es es' : List UseEvent} {ρ₁ ρ₂ : Reference}
    (h : Runs (Used plan) ρ es ρ₁) (h' : Runs (UsedCaptured plan) ρ es' ρ₂)
    (huses : es.map UseEvent.use = es'.map UseEvent.use) (hok : ∀ e ∈ es, Succeeds e) :
    es = es' ∧ ρ₁ = ρ₂ := by
  refine h.agree UseEvent.use Succeeds ?_ h' huses hok
  rintro ρ ⟨u, out⟩ ρ₁ ⟨_, out'⟩ ρ₂ hs hs' rfl hsucceeds
  have hsame : useCaptured plan u ρ = (out, ρ₁) := by
    cases u with
    | execute =>
      obtain rfl : out = .ok () := hsucceeds rfl
      exact replay_of_execute hs
    | _ => exact hs
  obtain rfl : out = out' := congrArg Prod.fst (hsame.symm.trans hs')
  obtain rfl : ρ₁ = ρ₂ := congrArg Prod.snd (hsame.symm.trans hs')
  exact ⟨rfl, rfl⟩

theorem used_unique {es es' : List UseEvent} {ρ₁ ρ₂ : Reference}
    (h : Runs (Used plan) ρ es ρ₁) (h' : Runs (Used plan) ρ es' ρ₂)
    (huses : es.map UseEvent.use = es'.map UseEvent.use) : es = es' ∧ ρ₁ = ρ₂ := by
  refine h.agree UseEvent.use (fun _ => True) ?_ h' huses fun _ _ => trivial
  rintro ρ ⟨u, out⟩ ρ₁ ⟨_, out'⟩ ρ₂ hs hs' rfl -
  have hsame : use plan u ρ = (out, ρ₁) := hs
  obtain rfl : out = out' := congrArg Prod.fst (hsame.symm.trans hs')
  obtain rfl : ρ₁ = ρ₂ := congrArg Prod.snd (hsame.symm.trans hs')
  exact ⟨rfl, rfl⟩

end Reference

variable {plan : RunSpec} {d : Nat} {site : Site CpuBackend} {held : Nat → Tensor CpuBackend}
  {w w' : World CpuBackend} {ρ : Reference}

/-! ## What can be seen of a run -/

/-- The tensors' contents and the nodes' metas are the same. -/
structure SameState (plan : RunSpec) (site : Site CpuBackend) (w w' : World CpuBackend) : Prop where
  contents : ∀ spec ∈ plan.tensors,
    bytesAt w (site.place spec.id) = bytesAt w' (site.place spec.id)
  metas : ∀ call ∈ plan.calls, (w.nodes.lookup (site.address call.id)).map Node.metaVals =
    (w'.nodes.lookup (site.address call.id)).map Node.metaVals

theorem Stands.bytesAt (h : Stands plan d site held w ρ) (hh : Holding plan d site held)
    {spec : TensorSpec} (hspec : spec ∈ plan.tensors) :
    bytesAt w (site.place spec.id) = ρ.contents spec.id := by
  rw [bytesAt_of_lookup (h.tensors spec hspec), (hh.built spec hspec).dev]
  exact h.contents spec hspec

theorem Stands.metaVals (h : Stands plan d site held w ρ) {call : CallSpec}
    (hcall : call ∈ plan.calls) : (w.nodes.lookup (site.address call.id)).map Node.metaVals =
      some (call.node.metaSources.map (MetaSource.described ρ.applied)) := by
  obtain ⟨node, hnode, hn⟩ := h.nodes call hcall
  rw [hnode, Option.map_some, hn.metaVals]

/-- Every tensor of the plan has memory. -/
def AllFull (plan : RunSpec) (held : Nat → Tensor CpuBackend) : Prop :=
  ∀ spec ∈ plan.tensors, 0 < CpuBuffer.bytes (held spec.id).raw

theorem Stands.allFull (h : Stands plan d site held w ρ) (hh : Holding plan d site held)
    (hfull : ∀ spec ∈ plan.tensors, Memory.bytesAt w (site.place spec.id) ≠ []) :
    AllFull plan held := by
  intro spec hspec
  have hlength : (Memory.bytesAt w (site.place spec.id)).length =
      CpuBuffer.bytes (held spec.id).raw := by
    rw [h.bytesAt hh hspec, ← h.contents spec hspec]
    exact length_read _ _ _
  rw [← hlength]
  exact List.length_pos_iff.mpr (hfull spec hspec)

/-- Worlds that stand as the reference interpreter does look the same. -/
theorem Stands.sameState (h : Stands plan d site held w ρ) (h' : Stands plan d site held w' ρ)
    (hh : Holding plan d site held) : SameState plan site w w' :=
  ⟨fun _ hspec => (h.bytesAt hh hspec).trans (h'.bytesAt hh hspec).symm,
    fun _ hcall => (h.metaVals hcall).trans (h'.metaVals hcall).symm⟩

/-! ## What uses leave alone -/

theorem replay_memoryFrame (s k : Nat) :
    Keeps World.MemoryFrame (Scope.replay (B := CpuBackend) s k) :=
  have hF := frame_memoryFrame
  hF.get_bind fun _ => hF.lift_bind fun _ => hF.lift_bind fun _ => hF.lift_bind fun _ =>
    keeps_mapErr fun _ => ⟨rfl, rfl, rfl, rfl, rfl, rfl⟩

theorem applyDynamics_nodeFrame (bound : Bound) (dynamics : Dynamics) :
    Keeps World.NodeFrame (bound.applyDynamics (B := CpuBackend) dynamics) :=
  have hF := frame_nodeFrame
  hF.lift_bind fun _ => hF.forM fun entry _ => hF.get_bind fun _ => hF.lift_bind fun _ =>
    hF.lift_bind fun node => fun w => (updateMeta_byNodes frame_any nodes_any node.1 entry.2 w).1

/-- What is recorded, binding leaves alone. -/
abbrev SameRecordings (w w' : World CpuBackend) : Prop := w'.recordings = w.recordings

theorem scopeBind_recordings (s p : Nat) :
    Keeps SameRecordings (Scope.bind (B := CpuBackend) s p) :=
  have hF := frame_eq World.recordings
  hF.get_bind fun _ => hF.lift_bind fun _ => hF.lift_bind fun _ => hF.lift_bind fun _ =>
    hF.bind (keeps_modify fun _ => rfl) fun _ => hF.pure _

theorem scopeBindNode_recordings (s a : Nat) :
    Keeps SameRecordings (Scope.bindNode (B := CpuBackend) s a) :=
  have hF := frame_eq World.recordings
  hF.get_bind fun _ => hF.lift_bind fun _ => hF.lift_bind fun _ => hF.lift_bind fun _ =>
    hF.bind (keeps_modify fun _ => rfl) fun _ => hF.pure _

namespace Session

variable {first : World CpuBackend} {r k : Nat} {σ σ' : Session CpuBackend} {e : UseEvent}

/-! ## What is found first -/

section Found

variable (h : InUse plan d site held first r σ ρ)
include h

/-- A slot of the run's handle. -/
theorem InUse.slot {bound : Bound} (hb : σ.Binds r bound) {scope : Scope}
    (hs : σ.world.scopes.lookup bound.scope = some scope) {id j : Nat}
    (hj : bound.tensors.lookup id = some j) :
    ∃ spec ∈ plan.tensors, spec.id = id ∧ scope.bufs[j]? = some (site.place spec.id) := by
  obtain ⟨q, hq, scope', hs', hbuf⟩ := (h.holds hb).1.tensors id j hj
  obtain rfl := Option.some.inj (hs.symm.trans hs')
  obtain ⟨spec, hspec, rfl, rfl⟩ := builtTensors_lookup.mp hq
  exact ⟨spec, hspec, rfl, hbuf⟩

/-- Each of the run's tensors has one. -/
theorem InUse.slotOf {bound : Bound} (hb : σ.Binds r bound) {scope : Scope}
    (hs : σ.world.scopes.lookup bound.scope = some scope) {spec : TensorSpec}
    (hspec : spec ∈ plan.tensors) :
    ∃ j, bound.tensors.lookup spec.id = some j ∧ scope.bufs[j]? = some (site.place spec.id) := by
  obtain ⟨j, hj⟩ := exists_of_mem (h.complete bound hb spec hspec)
  obtain ⟨other, hother, hsame, hbuf⟩ := h.slot hb hs hj
  obtain rfl := List.inj_on_of_nodup_map plan.nodup_tensors hother hspec hsame
  exact ⟨j, hj, hbuf⟩

/-- **Where nothing shadows the run**, its tensors are found. -/
theorem InUse.foundFirst {bound : Bound} (hb : σ.Binds r bound) {scope : Scope}
    (hs : σ.world.scopes.lookup bound.scope = some scope)
    (hnot : ∀ p q, ¬σ.ShadowedBy r p q) : FoundFirst plan site held σ.world scope := by
  intro spec hspec i hi
  obtain ⟨j, hj, hbuf⟩ := h.slotOf hb hs hspec
  have ht' := h.stands.tensors spec hspec
  obtain ⟨⟨p, t, hp, ht, haddress⟩, hbefore⟩ := hi
  rcases Nat.lt_trichotomy i j with hlt | rfl | hlt
  · by_contra hne
    refine hnot p (site.place spec.id) ⟨bound, scope, spec.id, i, j, hb, hs, hj, hlt, ?_, hp, hbuf,
      t, ht, held spec.id, ht', haddress⟩
    rintro rfl
    exact hne hp
  · exact hbuf
  · exact absurd rfl (hbefore j _ _ hlt hbuf ht')

/-- **What shadows a run is empty**, if the run's tensors are not. -/
theorem InUse.shadow_empty (hh : Holding plan d site held) (hlaid : Laid first)
    (hvalid : first.Valid) (hfull : AllFull plan held) {p q : Nat} (hshadow : σ.ShadowedBy r p q) :
    bytesAt σ.world p = [] := by
  obtain ⟨bound, scope, id, i, j, hb, hs, hj, -, hne, hp, hq, t, ht, t', ht', haddress⟩ := hshadow
  obtain ⟨spec, hspec, rfl, hbuf⟩ := h.slot hb hs hj
  obtain rfl := Option.some.inj (hbuf.symm.trans hq)
  obtain rfl := Option.some.inj ((h.stands.tensors spec hspec).symm.trans ht')
  -- both are of the device, so they lie apart
  obtain ⟨scope', hs', hopen⟩ := h.opened hb
  obtain rfl := Option.some.inj (hs.symm.trans hs')
  obtain ⟨t', htp, hdev⟩ := hopen.bufs p (List.mem_of_getElem? hp)
  obtain rfl := Option.some.inj (ht.symm.trans htp)
  have hspecDev := (hh.built spec hspec).dev
  have hapart := hlaid.disjoint hvalid hne (h.tensors ▸ ht) (h.tensors ▸ ht')
    (hdev.trans hspecDev.symm)
  rw [bytesAt_of_lookup ht]
  by_contra hsome
  have hlength : 0 < CpuBuffer.bytes t.raw := by
    have hlength := List.length_pos_iff.mpr hsome
    rwa [bytesIn, length_read] at hlength
  exact hapart.start_ne hlength (hfull spec hspec) haddress

end Found

/-- Where each of a scope's tensors has an address of its own, nothing is shadowed. -/
theorem not_shadowed (h : ∀ scope ∈ σ.world.scopes.values, (scope.bufs.map fun p =>
    (σ.world.tensors.lookup p).map fun t => Storage.address t.raw).Nodup) (p q : Nat) :
    ¬σ.ShadowedBy r p q := by
  rintro ⟨bound, scope, id, i, j, -, hs, -, hlt, -, hp, hq, t, ht, t', ht', haddress⟩
  obtain ⟨hj, -⟩ := List.getElem?_eq_some_iff.mp hq
  refine List.nodup_iff_getElem?_ne_getElem?.mp (h scope (AList.mem_values.mpr ⟨_, hs⟩)) i j hlt
    (by rwa [List.length_map]) ?_
  rw [Option.mem_def] at ht ht'
  rw [List.getElem?_map, List.getElem?_map, hp, hq, Option.map_some, Option.map_some, ht, ht',
    Option.map_some, Option.map_some, haddress]

/-! ## The captured run -/

/-- **A captured run is in use**: its recording has all its calls. -/
structure InReplay (plan : RunSpec) (d : Nat) (site : Site CpuBackend)
    (held : Nat → Tensor CpuBackend) (first : World CpuBackend) (r k : Nat)
    (σ : Session CpuBackend) (ρ : Reference) : Prop
    extends InUse plan d site held first r σ ρ where
  recorded : ∃ recording, σ.world.recordings.lookup k = some recording ∧
    Records plan d site held recording

/-- What a call needs is bound wherever its run is. -/
theorem InUse.callBound (h : InUse plan d site held first r σ ρ) {bound : Bound}
    (hb : σ.Binds r bound) {scope : Scope} (hs : σ.world.scopes.lookup bound.scope = some scope) :
    ∀ call ∈ plan.calls, CallBound plan site scope call := by
  intro call hcall
  obtain ⟨hholds, hmem⟩ := h.holds hb
  obtain ⟨slot, args, -, hslot, -⟩ := (h.fits bound hb).slotOf hholds hmem hcall hs
  refine ⟨List.mem_of_getElem? hslot, fun x hx => ?_⟩
  obtain ⟨spec, hspec, hid, -⟩ := slots_specs hcall hx
  obtain ⟨j, -, hbuf⟩ := h.slotOf hb hs hspec
  exact ⟨spec, hspec, hid, List.mem_of_getElem? hbuf⟩

/-- The recording stays. -/
theorem InReplay.stays (h : InReplay plan d site held first r k σ ρ) {ρ' : Reference}
    (huse : InUse plan d site held first r σ' ρ') (hrec : SameRecordings σ.world σ'.world) :
    InReplay plan d site held first r k σ' ρ' :=
  ⟨huse, hrec ▸ h.recorded⟩

/-- A call on the world that writes to its memory only, as the reference
interpreter does. -/
theorem InReplay.writes (h : InReplay plan d site held first r k σ ρ)
    {c : Call (Session CpuBackend) Error Unit} {f : Call (World CpuBackend) Error Unit}
    {ref : Call Reference Error Unit}
    (hrun : c σ = ((f σ.world).1, { σ with world := (f σ.world).2 }))
    (hframe : Keeps World.MemoryFrame f) (hdynamics : (ref ρ).2.dynamics = ρ.dynamics)
    (hf : (f σ.world).1 = (ref ρ).1 ∧ Stands plan d site held (f σ.world).2 (ref ρ).2) :
    ref ρ = ((c σ).1, (ref ρ).2) ∧ InReplay plan d site held first r k (c σ).2 (ref ρ).2 := by
  obtain ⟨href, huse⟩ := h.toInUse.writes hrun hframe hdynamics hf
  refine ⟨href, h.stays huse ?_⟩
  rw [hrun]
  exact (hframe σ.world).recordings

theorem onWorld_recordings {α : Type} {f : Call (World CpuBackend) Error α}
    (hf : Keeps SameRecordings f) (σ : Session CpuBackend) :
    SameRecordings σ.world ((do let _ ← onWorld f : Call _ Error Unit) σ).2.world := by
  have hrec := hf σ.world
  rw [bind_run, onWorld, zoom_run]
  rcases hrun : f σ.world with ⟨_ | _ | _, w⟩ <;> rw [hrun] at hrec <;> exact hrec

section Captured

variable (h : InReplay plan d site held first r k σ ρ) (hh : Holding plan d site held)
include h hh

/-- A replay that is a step. -/
theorem InReplay.replay {bound : Bound} (hb : σ.Binds r bound)
    (hnot : ∀ p q, ¬σ.ShadowedBy r p q) :
    (bound.replay k σ.world).1 = (Reference.replay plan ρ).1 ∧
      Stands plan d site held (bound.replay k σ.world).2 (Reference.replay plan ρ).2 := by
  obtain ⟨scope, hs, hopen⟩ := h.opened hb
  obtain ⟨recording, hk, hrec⟩ := h.recorded
  exact h.stands.replay hh (h.foundFirst hb hs hnot) hopen (h.callBound hb hs) hrec hs hk

/-- **Step rule.** Each use of a captured run that nothing shadows does what the
reference interpreter does, which replays. -/
theorem InReplay.used (hfirst : ∀ call ∈ plan.calls, ∃ node,
      first.nodes.lookup (site.address call.id) = some node ∧ NodeOf call d (fun _ => 0) node)
    (hs : Where (Captured r d k) (Unshadowed r) σ e σ') : ∃ ρ', Reference.UsedCaptured plan ρ e ρ' ∧
      InReplay plan d site held first r k σ' ρ' := by
  obtain ⟨⟨hon, ha, ts, cs, horders, hp⟩, hnot⟩ := hs
  rcases e with ⟨u, out⟩
  obtain rfl : (u.captured r d k ts cs σ).1 = out := congrArg Prod.fst hp
  obtain rfl : (u.captured r d k ts cs σ).2 = σ' := congrArg Prod.snd hp
  clear hp
  -- what a run that isn't captured does too
  have hplain : u.captured (B := CpuBackend) r d k ts cs = u.plain r d ts cs →
      SameRecordings σ.world (u.captured r d k ts cs σ).2.world → ∃ ρ',
      Reference.Used plan ρ ⟨u, (u.captured r d k ts cs σ).1⟩ ρ' ∧
        InReplay plan d site held first r k (u.captured r d k ts cs σ).2 ρ' := by
    intro hsame hrec
    have hstep : σ.Plain r d ⟨u, (u.captured r d k ts cs σ).1⟩ (u.captured r d k ts cs σ).2 :=
      ⟨ha, ts, cs, horders, by rw [hsame]⟩
    obtain ⟨ρ', href, huse⟩ := h.toInUse.plain hh hfirst hstep
    exact ⟨ρ', href, h.stays huse hrec⟩
  cases u with
  | openScope s => exact hplain rfl rfl
  | bind s =>
    obtain ⟨bound, w, hbind, ⟨⟨scopes, rfl, -⟩, -⟩, -⟩ := h.binds hh horders ha.2
    have hrun : Use.captured r d k ts cs (.bind s) σ = _ := hbind
    refine hplain rfl ?_
    rw [hrun]
    exact rfl
  | bindTensor s p => exact hplain rfl (onWorld_recordings (scopeBind_recordings s p) σ)
  | bindNode s a => exact hplain rfl (onWorld_recordings (scopeBindNode_recordings s a) σ)
  | closeScope s =>
    have hrun : Use.captured r d k ts cs (.closeScope s) σ = _ := closeScope_run s ha
    obtain ⟨scope, hscope⟩ := exists_of_mem ha
    rw [close_run hscope] at hrun
    refine hplain rfl ?_
    rw [hrun]
    exact rfl
  | setDynamic d' value => exact hplain rfl rfl
  | applyDynamics =>
    obtain ⟨bound, hb⟩ := id ha
    have hrun : Use.captured r d k ts cs .applyDynamics σ = _ :=
      bound_run hb fun dynamics bound => bound.applyDynamics dynamics
    refine hplain rfl ?_
    rw [hrun]
    exact (applyDynamics_nodeFrame bound σ.dynamics σ.world).recordings
  | upload id data =>
    exact ⟨_, h.writes (onRun_run h.run _) (upload_memoryFrame _ id data)
      (Reference.upload_dynamics plan id data ρ) (h.stands.upload hh id data)⟩
  | zero id =>
    exact ⟨_, h.writes (onRun_run h.run _) (zero_memoryFrame _ id)
      (Reference.zero_dynamics plan id ρ) (h.stands.zero hh id)⟩
  | uploadBound id data =>
    obtain ⟨bound, hb⟩ := ha
    exact ⟨_, h.writes (onBound_run hb _) (uploadBound_memoryFrame bound id data)
      (Reference.upload_dynamics plan id data ρ)
      (h.stands.uploadBound hh (h.holds hb).1 (h.complete bound hb) id data)⟩
  | execute =>
    obtain ⟨bound, hb⟩ := ha
    exact ⟨_, h.writes (onBound_run hb _) (replay_memoryFrame bound.scope k)
      (Reference.replay_dynamics plan ρ) (h.replay hh hb (hnot rfl))⟩
  | executeCall id => exact hon.elim

end Captured

/-! ## From a capture to a release -/

/-- What leaves tensors, nodes, devices and scopes as they are leaves the run in use. -/
theorem InUse.same (h : InUse plan d site held first r σ ρ) (ht : w.tensors = σ.world.tensors)
    (hn : w.nodes = σ.world.nodes) (hd : w.devices = σ.world.devices)
    (hs : ∀ s, w.scopes.lookup s = σ.world.scopes.lookup s) :
    InUse plan d site held first r { σ with world := w } ρ := by
  have hleaves := h.sound.leaves_of_same ht hn fun s scope hscope =>
    ⟨scope, (hs s).trans hscope, .refl scope⟩
  exact h.stays (h.moved hleaves rfl (h.stands.same (fun _ _ => by rw [ht]) (fun _ _ => by rw [hn])
    (by rw [hd]))) rfl hs ht

/-- After a capture that left `recording`. -/
abbrev afterCapture (w : World CpuBackend) (scopes : Places Scope) (k : Nat)
    (recording : Recording CpuBackend) : World CpuBackend :=
  (w.setScopes scopes).setRecordings (w.recordings.insert k recording)

/-- A capture leaves open scopes as they are, and a recording of the run if the
checks pass. -/
theorem InUse.captures (h : InUse plan d site held first r σ ρ) (hh : Holding plan d site held)
    {s : Nat} {ts cs : List Nat} (horders : σ.Orders r ts cs)
    (hfree : σ.world.scopes.Free s) (k : Nat) :
    ∃ scopes : Places Scope, (∀ s', scopes.lookup s' = σ.world.scopes.lookup s') ∧
      ((∃ recording, Records plan d site held recording ∧
          Reference.capture plan ρ.applied = .ok () ∧
          Session.capture r s k ts cs σ =
            (.ok (), { σ with world := afterCapture σ.world scopes k recording })) ∨
        ∃ e, Reference.capture plan ρ.applied = .err e ∧ Session.capture r s k ts cs σ =
          (.err e, { σ with world := σ.world.setScopes scopes })) := by
  obtain ⟨run, hrun, hts, hcs⟩ := horders
  obtain rfl := Option.some.inj (h.run.symm.trans hrun)
  obtain ⟨scopes, hsame, hok, herr⟩ := h.stands.capture hh hts hcs hfree k
  have hcapture : Session.capture r s k ts cs σ = _ := onRun_run h.run _
  refine ⟨scopes, hsame, ?_⟩
  rcases Outcome.returns_iff.mp (Reference.capture_returns plan ρ.applied) with hpass | ⟨e, he⟩
  · obtain ⟨recording, hrec, hran⟩ := hok hpass
    exact .inl ⟨recording, hrec, hpass, by rw [hcapture, hran]⟩
  · exact .inr ⟨e, he, by rw [hcapture, herr e he]⟩

/-- **A capture** ends as its checks do. If they pass, the run is captured. -/
theorem InUse.capture (h : InUse plan d site held first r σ ρ) (hh : Holding plan d site held)
    {s : Nat} {ts cs : List Nat} (horders : σ.Orders r ts cs)
    (hfree : σ.world.scopes.Free s) (k : Nat) :
    (Session.capture r s k ts cs σ).1 = Reference.capture plan ρ.applied ∧
      InUse plan d site held first r (Session.capture r s k ts cs σ).2 ρ ∧
      (Reference.capture plan ρ.applied = .ok () →
        InReplay plan d site held first r k (Session.capture r s k ts cs σ).2 ρ) := by
  obtain ⟨scopes, hsame, ⟨recording, hrec, hpass, hran⟩ | ⟨e, he, hran⟩⟩ :=
    h.captures hh horders hfree k
  · have huse := h.same (w := afterCapture σ.world scopes k recording) rfl rfl rfl hsame
    rw [hran, hpass]
    exact ⟨rfl, huse, fun _ => ⟨huse, recording, AList.lookup_insert _, hrec⟩⟩
  · rw [hran, he]
    exact ⟨rfl, h.same (w := σ.world.setScopes scopes) rfl rfl rfl hsame, nofun⟩

/-- **A release** gives the run back as it was. -/
theorem InReplay.release (h : InReplay plan d site held first r k σ ρ) :
    (Session.release k σ).1 = .ok () ∧
      InUse plan d site held first r (Session.release k σ).2 ρ := by
  obtain ⟨recording, hk, -⟩ := h.recorded
  have hdrop : Scope.dropRecording k σ.world =
      (.ok (), σ.world.setRecordings (σ.world.recordings.erase k)) := by
    rw [Scope.dropRecording, bind_of_ok (get_run σ.world), recording_of_lookup hk, check_run]
    simp only
    rw [bind_of_ok (modify_run _ σ.world)]
    exact Prod.ext rfl (setDevice_self _ _)
  rw [Session.release, Session.onWorld, zoom_run, hdrop]
  exact ⟨rfl, h.toInUse.same rfl rfl rfl fun _ => rfl⟩

/-! ## Twins -/

/-- Some call of the run at `r`, where it is bound, fails the checks of an `execute`. -/
def Short (σ : Session CpuBackend) (r : Nat) : Prop :=
  ∃ bound id slot args scope address node, σ.Binds r bound ∧
    bound.calls.lookup id = some (slot, args) ∧
    σ.world.scopes.lookup bound.scope = some scope ∧
    σ.world.boundNode scope slot = .ok (address, node) ∧
    Scope.check σ.world scope node args ≠ .ok ()

/-- The described call that fails them. -/
theorem InUse.short (h : InUse plan d site held first r σ ρ) (hh : Holding plan d site held)
    (hshort : σ.Short r) : ∃ call ∈ plan.calls, call.longEnough plan ρ.applied ≠ .ok () := by
  obtain ⟨bound, id, slot, args, scope, address, node, hb, hlook, hs, hnode, hcheck⟩ := hshort
  obtain ⟨hholds, hmem⟩ := h.holds hb
  obtain ⟨rc, _, hrc, ⟨scope', hs', hslot⟩, -⟩ := hholds.calls id slot args hlook
  obtain rfl := Option.some.inj (hs.symm.trans hs')
  obtain ⟨call, hcall, rfl, rfl⟩ := (AList.lookup_ofList (h := plan.callIds)).mp hrc
  obtain ⟨node', hnode', hn⟩ := h.stands.nodes call hcall
  obtain ⟨hslot', hfound⟩ := boundNode_eq_ok.mp hnode
  obtain rfl := Option.some.inj (hslot.symm.trans hslot')
  obtain rfl := Option.some.inj (hnode'.symm.trans hfound)
  refine ⟨call, hcall, fun hok => hcheck ?_⟩
  rw [h.stands.check hh hcall hn ((h.fits bound hb).argsFit hholds hcall hlook hs), hok]

/-- **A replay with a call that fails its check** is an error, and nothing has changed. -/
theorem InReplay.short (h : InReplay plan d site held first r k σ ρ)
    (hh : Holding plan d site held) (hs : Where (Captured r d k) (Unshadowed r) σ e σ')
    (hexecute : e.use = .execute) (hshort : σ.Short r) : ∃ err, e.out = .err err ∧ σ' = σ := by
  obtain ⟨call, hcall, hlong⟩ := h.toInUse.short hh hshort
  obtain ⟨err, herr⟩ := Reference.replay_of_check hcall hlong
  obtain ⟨⟨-, ha, ts, cs, -, hp⟩, hnot⟩ := hs
  rw [hexecute] at ha hp
  obtain ⟨bound, hb⟩ := ha
  obtain ⟨scope, hscope, hopen⟩ := h.opened hb
  obtain ⟨recording, hk, hrec⟩ := h.recorded
  obtain ⟨hout, -⟩ := h.replay hh hb (hnot hexecute)
  rw [herr] at hout
  have hsame : (bound.replay k σ.world).2 = σ.world := Capture.replay_err hscope hk hout
  have hrun : Use.captured r d k ts cs .execute σ = _ := onBound_run hb _
  rw [hrun, hsame, hout] at hp
  exact ⟨err, (congrArg Prod.fst hp).symm, (congrArg Prod.snd hp).symm⟩

/-! ## Whole runs -/

theorem InUse.runs {es : List UseEvent} (h : InUse plan d site held first r σ ρ)
    (hh : Holding plan d site held) (hfirst : ∀ call ∈ plan.calls, ∃ node,
      first.nodes.lookup (site.address call.id) = some node ∧ NodeOf call d (fun _ => 0) node)
    (hr : Runs (Plain r d) σ es σ') :
    ∃ ρ', Runs (Reference.Used plan) ρ es ρ' ∧ InUse plan d site held first r σ' ρ' :=
  hr.follows (fun _ _ _ _ h hs => h.plain hh hfirst hs) h

theorem InReplay.runs {es : List UseEvent} (h : InReplay plan d site held first r k σ ρ)
    (hh : Holding plan d site held) (hfirst : ∀ call ∈ plan.calls, ∃ node,
      first.nodes.lookup (site.address call.id) = some node ∧ NodeOf call d (fun _ => 0) node)
    (hr : Runs (Where (Captured r d k) (Unshadowed r)) σ es σ') :
    ∃ ρ', Runs (Reference.UsedCaptured plan) ρ es ρ' ∧
      InReplay plan d site held first r k σ' ρ' :=
  hr.follows (fun _ _ _ _ h hs => h.used hh hfirst hs) h

section Whole

variable {poolBytes : Nat → Nat} {w₀ : World CpuBackend} {es₀ : List (PlanEvent CpuBackend)}
  {ws : List (Wilupgu.Event CpuBackend)} {σ₁ σ₂ : Session CpuBackend}
  (hsession : Runs Step (init w₀) es₀ σ)
  (hworld : Runs (Capture.Solo d) (World.init CpuBackend.attach poolBytes) ws σ.world)
  (hclosed : ∀ scope ∈ σ.world.scopes.values, scope.dev ≠ d)
  (hbuild : σ.Step ⟨.build r d plan site, .ok ()⟩ σ₁)
include hsession hworld hclosed hbuild

/-- **As it is built**, a run is in use. -/
theorem InUse.built : ∃ held, Holding plan d site held ∧
    InUse plan d site held σ₁.world r σ₁ (Reference.start site σ₁.world σ₁.dynamics) ∧
    (∀ call ∈ plan.calls, ∃ node, σ₁.world.nodes.lookup (site.address call.id) = some node ∧
      NodeOf call d (fun _ => 0) node) ∧ Laid σ₁.world ∧ σ₁.world.Valid := by
  obtain ⟨hh, hfollows⟩ := Follows.built hsession hworld hclosed hbuild
  -- no handle is of the run yet
  have hhandled : σ.Handled fun _ _ _ => True :=
    hsession.preserves (fun _ _ _ h hs => h.step hs fun _ _ _ _ _ _ _ => trivial) (.init w₀)
  obtain ⟨⟨hfree, hv⟩, hp⟩ := hbuild
  change Session.put r (plan.build d site) σ = _ at hp
  rw [put_run] at hp
  rcases hbuilt : plan.build d site σ.world with ⟨run' | e | _, w⟩ <;> rw [hbuilt] at hp <;>
    cases hp
  have hnone : ∀ bound,
      ¬Session.Binds { σ with world := w, runs := σ.runs.insert r run' } r bound := by
    rintro bound ⟨borrow, hborrow, hhandle⟩
    obtain ⟨-, run, hold, -⟩ := hhandled r borrow bound hborrow hhandle
    cases hfree.symm.trans hold
  have hscopes := (build_within plan d site σ.world).scopes
  rw [hbuilt] at hscopes
  obtain ⟨hlaid, hvalid, -⟩ := build_rests hworld hclosed hv hbuilt
  refine ⟨_, hh, ⟨hfollows, fun bound hb => absurd hb (hnone bound),
    fun bound hb => absurd hb (hnone bound), fun s scope hs hdev => ?_, rfl⟩,
    hfollows.stands.nodes, hlaid, hvalid⟩
  exact absurd hdev (hclosed scope (AList.mem_values.mpr ⟨s, hscopes ▸ hs⟩))

/-- **A captured run does what its twin does**, where nothing shadows it. A run
is used for a while, and then once captured and once not. Uses that end well on
the run as it is end so on the captured one, and tensors and metas are the same
after them; after a release the two stay twins whatever is done. A replay in
which some call fails its check returns an error and changes nothing. All that
ever shadows a run of tensors that aren't empty is an empty tensor. -/
theorem captured_run_is_its_twin {before : List UseEvent} (hbefore : Runs (Plain r d) σ₁ before σ₂)
    {s : Nat} {ts cs : List Nat} (horders : σ₂.Orders r ts cs) (hfree : σ₂.world.scopes.Free s)
    {σ₃ : Session CpuBackend} (hcapture : Session.capture r s k ts cs σ₂ = (.ok (), σ₃)) :
    (∀ es es' σa σb, Runs (Plain r d) σ₂ es σa →
      Runs (Where (Captured r d k) (Unshadowed r)) σ₃ es' σb →
      es.map UseEvent.use = es'.map UseEvent.use → (∀ e ∈ es, Reference.Succeeds e) →
        es = es' ∧ SameState plan site σa.world σb.world ∧ (Session.release k σb).1 = .ok () ∧
        ∀ fs fs' σa' σb', Runs (Plain r d) σa fs σa' →
          Runs (Plain r d) (Session.release k σb).2 fs' σb' →
          fs.map UseEvent.use = fs'.map UseEvent.use →
            fs = fs' ∧ SameState plan site σa'.world σb'.world) ∧
    ∀ es σb, Runs (Where (Captured r d k) (Unshadowed r)) σ₃ es σb →
      (∀ e σ', Where (Captured r d k) (Unshadowed r) σb e σ' → e.use = .execute → σb.Short r →
        ∃ err, e.out = .err err ∧ σ' = σb) ∧
      ((∀ spec ∈ plan.tensors, bytesAt σ₁.world (site.place spec.id) ≠ []) →
        ∀ p q, σb.ShadowedBy r p q → bytesAt σb.world p = []) := by
  obtain ⟨held, hh, hstart, hfirst, hlaid, hvalid⟩ := InUse.built hsession hworld hclosed hbuild
  obtain ⟨ρ₂, -, h₂⟩ := hstart.runs hh hfirst hbefore
  obtain ⟨hout, -, hrecorded⟩ := h₂.capture hh horders hfree k
  rw [hcapture] at hout hrecorded
  have h₃ := hrecorded hout.symm
  refine ⟨fun es es' σa σb ha hb huses hok => ?_, fun es σb hb => ?_⟩
  · obtain ⟨ρa, hra, ha'⟩ := h₂.runs hh hfirst ha
    obtain ⟨ρb, hrb, hb'⟩ := h₃.runs hh hfirst hb
    obtain ⟨rfl, rfl⟩ := Reference.used_agree hra hrb huses hok
    obtain ⟨hreleased, hrelease⟩ := hb'.release
    refine ⟨rfl, ha'.stands.sameState hb'.stands hh, hreleased, ?_⟩
    intro fs fs' σa' σb' hfa hfb huses'
    obtain ⟨ρa', hra', ha''⟩ := ha'.runs hh hfirst hfa
    obtain ⟨ρb', hrb', hb''⟩ := hrelease.runs hh hfirst hfb
    obtain ⟨rfl, rfl⟩ := Reference.used_unique hra' hrb' huses'
    exact ⟨rfl, ha''.stands.sameState hb''.stands hh⟩
  · obtain ⟨ρb, -, hb'⟩ := h₃.runs hh hfirst hb
    refine ⟨fun e σ' hs hexecute hshort => hb'.short hh hs hexecute hshort,
      fun hfull p q hshadow => ?_⟩
    exact hb'.shadow_empty hh hlaid hvalid (hstart.stands.allFull hh hfull) hshadow

end Whole

end Session

/-! ## A run captured, used and released -/

namespace Sample

def carving : List (Act CpuBackend) := [.tensor (.reserve 0 Backends.Sample.env 0 8),
  .tensor (.carve 0 10 .Int8 8), .tensor (.carve 0 11 .Int8 0)]

/-- A tensor fills an area, and an empty one is carved at its end. -/
def carved : Session CpuBackend := .init ((World.init CpuBackend.attach fun _ => 0).after carving)

/-- The run's tensor lies right behind the area. -/
def beside : Session CpuBackend := ((PlanAct.build 0 0 filling Sample.site).perform carved).2

def captured : Session CpuBackend := (Session.capture 0 0 0 [0] [1, 2] beside).2

abbrev asItIs : Use → Call (Session CpuBackend) Error Unit := Use.plain 0 0 [0] [1, 2]

abbrev asCaptured : Use → Call (Session CpuBackend) Error Unit := Use.captured 0 0 0 [0] [1, 2]

/-- Beside the area's tensor, the run's is filled. Then it is cleared, and filled
again with a value set that it is long enough for. -/
def fillTwice : List Use :=
  [.openScope 0, .bindTensor 0 10, .bind 0, .execute, .closeScope 0, .zero 0, .setDynamic 0 3,
    .openScope 0, .bind 0, .applyDynamics, .execute, .closeScope 0]

/-- The session whose run was captured, with the run given back. -/
def released : Session CpuBackend := (Session.release 0 (Use.after asCaptured captured fillTwice)).2

/-- Then a single call is made. -/
def oneCall : List Use := [.zero 0, .openScope 0, .bind 0, .executeCall 1]

def Usable (σ : Session CpuBackend) (u : Use) : Prop := u.Allowed 0 0 σ ∧ σ.Orders 0 [0] [1, 2]

/-- The captured run, applied with a value that its tensor is too short for. -/
def applying : List Use := [.setDynamic 0 9, .openScope 0, .bind 0, .applyDynamics]

def tooLong : Session CpuBackend := Use.after asCaptured captured applying

/-- The empty tensor is bound before the run. -/
def shadowing : List Use := [.openScope 0, .bindTensor 0 11, .bind 0]

def shadowed : Session CpuBackend := Use.after asCaptured captured shadowing

/-- Then the run is to fill its tensor. -/
def fillShadowed : List Use := [.openScope 0, .bindTensor 0 11, .bind 0, .execute]

end Sample

set_option maxRecDepth 8000

theorem Sample.runs_carved : ∃ ws,
    Runs (Capture.Solo 0) (World.init CpuBackend.attach fun _ => 0) ws Sample.carved.world := by
  have hplays : ((World.init CpuBackend.attach fun _ => 0).play
    (fun w a => ¬Capture.Crowds 0 w a) Sample.carving).isSome = true := by decide
  exact World.runs_after hplays

theorem Sample.run_beside : Session.Step Sample.carved
    ⟨.build 0 0 Sample.filling Sample.site, .ok ()⟩ Sample.beside :=
  ⟨⟨rfl, ⟨by decide, by decide⟩, by decide, by decide⟩, rfl⟩

theorem Sample.orders {σ : Session CpuBackend} (h : σ.runs.lookup 0 = beside.runs.lookup 0) :
    σ.Orders 0 [0] [1, 2] :=
  ⟨_, h, by decide, by decide⟩

theorem Sample.full : ∀ spec ∈ Sample.filling.tensors,
    bytesAt Sample.beside.world (Sample.site.place spec.id) ≠ [] := by
  intro spec hspec
  obtain rfl := List.mem_singleton.mp hspec
  decide

theorem Sample.plain_of_usable {σ : Session CpuBackend} {u : Use} (h : Usable σ u) :
    σ.Plain 0 0 ⟨u, (asItIs u σ).1⟩ (asItIs u σ).2 :=
  ⟨h.1, _, _, h.2, rfl⟩

theorem Sample.captured_of_usable {σ : Session CpuBackend} {u : Use}
    (h : u.OnCaptured ∧ Usable σ u) :
    σ.Captured 0 0 0 ⟨u, (asCaptured u σ).1⟩ (asCaptured u σ).2 :=
  ⟨h.1, h.2.1, _, _, h.2.2, rfl⟩

/-- A use of the captured run, which nothing shadows when it is replayed. -/
def Sample.Ready (σ : Session CpuBackend) (u : Use) : Prop :=
  u.OnCaptured ∧ Usable σ u ∧ match u with
    | .execute => ∀ p q, ¬σ.ShadowedBy 0 p q
    | _ => True

theorem Sample.where_of_ready {σ : Session CpuBackend} {u : Use} (h : Ready σ u) :
    Where (Session.Captured 0 0 0) (Session.Unshadowed 0) σ ⟨u, (asCaptured u σ).1⟩
      (asCaptured u σ).2 := by
  refine ⟨captured_of_usable ⟨h.1, h.2.1⟩, fun hexecute => ?_⟩
  obtain rfl : u = .execute := hexecute
  exact h.2.2

theorem Sample.plays_asItIs : Use.Plays Usable asItIs beside fillTwice :=
  ⟨⟨rfl, orders rfl⟩, ⟨⟨⟨_, rfl, rfl⟩, _, rfl, rfl⟩, orders rfl⟩,
    ⟨⟨⟨by decide, rfl⟩, _, rfl, rfl⟩, orders rfl⟩, ⟨⟨_, _, rfl, rfl⟩, orders rfl⟩,
    ⟨AList.lookup_isSome.mp rfl, orders rfl⟩, ⟨⟨by decide, rfl⟩, orders rfl⟩,
    ⟨trivial, orders rfl⟩, ⟨rfl, orders rfl⟩, ⟨⟨⟨by decide, rfl⟩, _, rfl, rfl⟩, orders rfl⟩,
    ⟨⟨_, _, rfl, rfl⟩, orders rfl⟩, ⟨⟨_, _, rfl, rfl⟩, orders rfl⟩,
    ⟨AList.lookup_isSome.mp rfl, orders rfl⟩, trivial⟩

theorem Sample.plays_asCaptured : Use.Plays Ready asCaptured captured fillTwice :=
  ⟨⟨trivial, ⟨rfl, orders rfl⟩, trivial⟩,
    ⟨trivial, ⟨⟨⟨_, rfl, rfl⟩, _, rfl, rfl⟩, orders rfl⟩, trivial⟩,
    ⟨trivial, ⟨⟨⟨by decide, rfl⟩, _, rfl, rfl⟩, orders rfl⟩, trivial⟩,
    ⟨trivial, ⟨⟨_, _, rfl, rfl⟩, orders rfl⟩, Session.not_shadowed (by decide)⟩,
    ⟨trivial, ⟨AList.lookup_isSome.mp rfl, orders rfl⟩, trivial⟩,
    ⟨trivial, ⟨⟨by decide, rfl⟩, orders rfl⟩, trivial⟩, ⟨trivial, ⟨trivial, orders rfl⟩, trivial⟩,
    ⟨trivial, ⟨rfl, orders rfl⟩, trivial⟩,
    ⟨trivial, ⟨⟨⟨by decide, rfl⟩, _, rfl, rfl⟩, orders rfl⟩, trivial⟩,
    ⟨trivial, ⟨⟨_, _, rfl, rfl⟩, orders rfl⟩, trivial⟩,
    ⟨trivial, ⟨⟨_, _, rfl, rfl⟩, orders rfl⟩, Session.not_shadowed (by decide)⟩,
    ⟨trivial, ⟨AList.lookup_isSome.mp rfl, orders rfl⟩, trivial⟩, trivial⟩

theorem Sample.plays_afterwards :
    Use.Plays Usable asItIs (Use.after asItIs beside fillTwice) oneCall :=
  ⟨⟨⟨by decide, rfl⟩, orders rfl⟩, ⟨rfl, orders rfl⟩,
    ⟨⟨⟨by decide, rfl⟩, _, rfl, rfl⟩, orders rfl⟩, ⟨⟨_, _, rfl, rfl⟩, orders rfl⟩, trivial⟩

theorem Sample.plays_released : Use.Plays Usable asItIs released oneCall :=
  ⟨⟨⟨by decide, rfl⟩, orders rfl⟩, ⟨rfl, orders rfl⟩,
    ⟨⟨⟨by decide, rfl⟩, _, rfl, rfl⟩, orders rfl⟩, ⟨⟨_, _, rfl, rfl⟩, orders rfl⟩, trivial⟩

theorem Sample.plays_applying : Use.Plays Ready asCaptured captured applying :=
  ⟨⟨trivial, ⟨trivial, orders rfl⟩, trivial⟩, ⟨trivial, ⟨rfl, orders rfl⟩, trivial⟩,
    ⟨trivial, ⟨⟨⟨by decide, rfl⟩, _, rfl, rfl⟩, orders rfl⟩, trivial⟩,
    ⟨trivial, ⟨⟨_, _, rfl, rfl⟩, orders rfl⟩, trivial⟩, trivial⟩

theorem Sample.ready_tooLong : Ready tooLong .execute :=
  ⟨trivial, ⟨⟨_, _, rfl, rfl⟩, orders rfl⟩, Session.not_shadowed (by decide)⟩

theorem Sample.short_tooLong : tooLong.Short 0 := by
  refine ⟨_, 2, _, _, _, _, _, ⟨_, rfl, rfl⟩, rfl, rfl, rfl, ?_⟩
  decide

theorem Sample.plays_shadowing : Use.Plays Ready asCaptured captured shadowing :=
  ⟨⟨trivial, ⟨rfl, orders rfl⟩, trivial⟩,
    ⟨trivial, ⟨⟨⟨_, rfl, rfl⟩, _, rfl, rfl⟩, orders rfl⟩, trivial⟩,
    ⟨trivial, ⟨⟨⟨by decide, rfl⟩, _, rfl, rfl⟩, orders rfl⟩, trivial⟩, trivial⟩

theorem Sample.shadowedBy : shadowed.ShadowedBy 0 11 0 :=
  ⟨_, _, 0, 0, 1, ⟨_, rfl, rfl⟩, rfl, rfl, by decide, by decide, rfl, rfl, _, rfl, _, rfl, rfl⟩

theorem Sample.outs_fillTwice : (Use.events asItIs beside fillTwice).map UseEvent.out =
    List.replicate 12 (.ok ()) := rfl

/-- Captured and not, the tensor is filled alike with another bound ahead of it,
and the run that is given back fills it once more as the other does. A replay
whose second call is too long for the tensor does nothing, and what shadows the
tensor is empty. -/
theorem captured_filling_is_its_twin :
    SameState Sample.filling Sample.site
      (Use.after Sample.asItIs Sample.beside Sample.fillTwice).world
      (Use.after Sample.asCaptured Sample.captured Sample.fillTwice).world ∧
    SameState Sample.filling Sample.site
      (Use.after Sample.asItIs (Use.after Sample.asItIs Sample.beside Sample.fillTwice)
        Sample.oneCall).world
      (Use.after Sample.asItIs Sample.released Sample.oneCall).world ∧
    bytesAt (Use.after Sample.asItIs Sample.released Sample.oneCall).world 0 = [7, 7, 7, 7] ∧
    (∃ err, (Sample.asCaptured .execute Sample.tooLong).1 = .err err ∧
      (Sample.asCaptured .execute Sample.tooLong).2 = Sample.tooLong) ∧
    bytesAt Sample.shadowed.world 11 = [] := by
  have hok : ∀ e ∈ Use.events Sample.asItIs Sample.beside Sample.fillTwice,
      Reference.Succeeds e := by
    intro e he _
    have hout := List.mem_map_of_mem (f := UseEvent.out) he
    rw [Sample.outs_fillTwice] at hout
    exact List.eq_of_mem_replicate hout
  obtain ⟨ws, hworld⟩ := Sample.runs_carved
  have hcapture : Session.capture 0 0 0 [0] [1, 2] Sample.beside = (.ok (), Sample.captured) := rfl
  obtain ⟨htwins, hreplays⟩ := Session.captured_run_is_its_twin (k := 0) (.nil _) hworld
    (fun _ hscope => absurd hscope List.not_mem_nil) Sample.run_beside (.nil _)
    (Sample.orders rfl) rfl (s := 0) hcapture
  obtain ⟨-, hsame, -, hafter⟩ := htwins _ _ _ _
    (Use.runs_of_plays (fun _ _ => Sample.plain_of_usable) Sample.plays_asItIs)
    (Use.runs_of_plays (fun _ _ => Sample.where_of_ready) Sample.plays_asCaptured)
    ((Use.events_uses _ _ _).trans (Use.events_uses _ _ _).symm) hok
  obtain ⟨-, hsame'⟩ := hafter _ _ _ _
    (Use.runs_of_plays (fun _ _ => Sample.plain_of_usable) Sample.plays_afterwards)
    (Use.runs_of_plays (fun _ _ => Sample.plain_of_usable) Sample.plays_released)
    ((Use.events_uses _ _ _).trans (Use.events_uses _ _ _).symm)
  obtain ⟨hfails, -⟩ := hreplays _ _
    (Use.runs_of_plays (fun _ _ => Sample.where_of_ready) Sample.plays_applying)
  obtain ⟨-, hempty⟩ := hreplays _ _
    (Use.runs_of_plays (fun _ _ => Sample.where_of_ready) Sample.plays_shadowing)
  exact ⟨hsame, hsame', rfl, hfails _ _ (Sample.where_of_ready Sample.ready_tooLong) rfl
    Sample.short_tooLong, hempty Sample.full 11 0 Sample.shadowedBy⟩

/-- **An empty tensor in the way.** It is bound ahead of the run's tensor and has
its address. So the run as it is fills its tensor, but the replay finds none of
the four elements that it needs. -/
theorem shadowed_replay_fails :
    (∃ ws, Runs (Capture.Solo 0) (World.init CpuBackend.attach fun _ => 0) ws
      Sample.carved.world) ∧ Sample.carved.world.scopes.values = [] ∧
    Session.Step Sample.carved ⟨.build 0 0 Sample.filling Sample.site, .ok ()⟩ Sample.beside ∧
    (∀ spec ∈ Sample.filling.tensors,
      bytesAt Sample.beside.world (Sample.site.place spec.id) ≠ []) ∧
    Session.capture 0 0 0 [0] [1, 2] Sample.beside = (.ok (), Sample.captured) ∧
    ∃ es es' σa σb, Runs (Session.Plain 0 0) Sample.beside es σa ∧
      Runs (Session.Captured 0 0 0) Sample.captured es' σb ∧
      es.map UseEvent.use = es'.map UseEvent.use ∧ (∀ e ∈ es, e.out = .ok ()) ∧
      es'.getLast? = some ⟨.execute, .err (.TooShort "fill_up_to" 0 4 0)⟩ := by
  have hplays : Use.Plays Sample.Usable Sample.asItIs Sample.beside Sample.fillShadowed :=
    ⟨⟨rfl, Sample.orders rfl⟩, ⟨⟨⟨_, rfl, rfl⟩, _, rfl, rfl⟩, Sample.orders rfl⟩,
      ⟨⟨⟨by decide, rfl⟩, _, rfl, rfl⟩, Sample.orders rfl⟩, ⟨⟨_, _, rfl, rfl⟩, Sample.orders rfl⟩,
      trivial⟩
  have hplays' : Use.Plays (fun σ u => u.OnCaptured ∧ Sample.Usable σ u) Sample.asCaptured
      Sample.captured Sample.fillShadowed :=
    ⟨⟨trivial, rfl, Sample.orders rfl⟩,
      ⟨trivial, ⟨⟨_, rfl, rfl⟩, _, rfl, rfl⟩, Sample.orders rfl⟩,
      ⟨trivial, ⟨⟨by decide, rfl⟩, _, rfl, rfl⟩, Sample.orders rfl⟩,
      ⟨trivial, ⟨_, _, rfl, rfl⟩, Sample.orders rfl⟩, trivial⟩
  have houts : (Use.events Sample.asItIs Sample.beside Sample.fillShadowed).map UseEvent.out =
      List.replicate 4 (.ok ()) := rfl
  refine ⟨Sample.runs_carved, rfl, Sample.run_beside, Sample.full, rfl, _, _, _, _,
    Use.runs_of_plays (fun _ _ => Sample.plain_of_usable) hplays,
    Use.runs_of_plays (fun _ _ => Sample.captured_of_usable) hplays',
    (Use.events_uses _ _ _).trans (Use.events_uses _ _ _).symm, fun e he => ?_, rfl⟩
  have hout := List.mem_map_of_mem (f := UseEvent.out) he
  rw [houts] at hout
  exact List.eq_of_mem_replicate hout

end Wilupgu.Plan
