import Wilupgu.Safe.Sizes
import Wilupgu.Plan.Apply
import Wilupgu.Plan.Fill

/-! # Hollow places and the tensors they stand for

A hollow tensor has the length its spec gives, a live one that length rounded
up to whole host words. Where the two differ, `fill_from` refuses the tensor
that the place stands for, and a slot may be too short for the hollow one
alone. Elsewhere a run built hollow is like one built live. -/

namespace Wilupgu.Plan

open Backend Call Transition

variable {B : Type} [Storage B] [Dispatch B] [Capturable B] [Areable B] {σ σ' : Session B}

omit [Storage B] [Dispatch B] [Capturable B] [Areable B] in
theorem hollowTensors_known {plan : RunSpec} {tensors : List ((_ : Nat) × AnyTensor)}
    (h : Run.hollowTensors plan = .ok tensors) {spec : TensorSpec} (hspec : spec ∈ plan.tensors) :
    ∃ n, spec.len = some n := by
  obtain ⟨e, -, he⟩ := (Outcome.mapM_eq_ok.mp h).exists_of_mem_left hspec
  obtain ⟨_, hhollow, -⟩ := Outcome.bind_eq_ok.mp he
  obtain ⟨n, hn, -⟩ := Outcome.bind_eq_ok.mp hhollow
  exact ⟨n, Outcome.okOr_eq_ok.mp hn⟩

/-! ## What doesn't change -/

namespace Session

variable {r : Nat}

theorem shape_eq {run : Run} {id : Nat} {tensor : AnyTensor} (hr : σ.runs.lookup r = some run)
    (hid : run.tensors.lookup id = some tensor) :
    σ.shape r id = some (tensor.kind σ.world, tensor.len σ.world) := by
  rw [shape, hr]
  show ((run.tensors.lookup id).bind fun tensor => some _) = _
  rw [hid]
  rfl

theorem exists_of_shape {run : Run} {id : Nat} {kind : Outcome Error DataKind}
    {len : Outcome Error Nat} (hr : σ.runs.lookup r = some run)
    (h : σ.shape r id = some (kind, len)) :
    ∃ tensor, run.tensors.lookup id = some tensor ∧ tensor.kind σ.world = kind ∧
      tensor.len σ.world = len := by
  cases hid : run.tensors.lookup id with
  | none =>
    rw [shape, hr] at h
    change ((run.tensors.lookup id).bind fun tensor => some _) = _ at h
    rw [hid] at h
    cases h
  | some tensor =>
    rw [shape_eq hr hid] at h
    cases h
    exact ⟨tensor, rfl, rfl, rfl⟩

/-- What a run's tensors are alike is what they are and where they stand. -/
theorem shape_of_same (hruns : σ'.runs.lookup r = σ.runs.lookup r)
    (htensors : ∀ id p, σ.OwnsTensor r id p →
      σ'.world.tensors.lookup p = σ.world.tensors.lookup p) (id : Nat) :
    σ'.shape r id = σ.shape r id := by
  rw [shape, shape, hruns]
  cases hr : σ.runs.lookup r with
  | none => rfl
  | some run =>
    show ((run.tensors.lookup id).bind fun tensor => some _) =
      (run.tensors.lookup id).bind fun tensor => some _
    cases hid : run.tensors.lookup id with
    | none => rfl
    | some tensor =>
      cases tensor with
      | Hollow t => rfl
      | Live p =>
        have hp := htensors id p ⟨run, hr, hid⟩
        simp only [Option.bind_some, AnyTensor.kind, AnyTensor.len, World.tensor, hp]

/-- The run at `r` is still on the device it was built on, and each of its
tensors is what it was, live or hollow. -/
structure Alike (r : Nat) (σ σ' : Session B) : Prop where
  device : (σ'.runs.lookup r).map Run.device = (σ.runs.lookup r).map Run.device
  shape : ∀ id, σ'.shape r id = σ.shape r id

theorem Alike.of_same (hruns : σ'.runs.lookup r = σ.runs.lookup r)
    (htensors : ∀ id p, σ.OwnsTensor r id p →
      σ'.world.tensors.lookup p = σ.world.tensors.lookup p) : Alike r σ σ' :=
  ⟨by rw [hruns], shape_of_same hruns htensors⟩

theorem Alike.of_tensors (hruns : σ'.runs.lookup r = σ.runs.lookup r)
    (htensors : σ'.world.tensors = σ.world.tensors) : Alike r σ σ' :=
  .of_same hruns fun _ _ _ => by rw [htensors]

/-- A run that is built elsewhere. -/
theorem Alike.put (hs : σ.Sound) {r' : Nat} (hr' : σ.runs.Free r') (hr : r ∈ σ.runs)
    {P A : Nat → Prop} (hP : ∀ p, P p → σ.world.tensors.Free p)
    {c : Call (World B) Error Run} (hc : Keeps (Within P A) c) :
    Alike r σ (Session.put r' c σ).2 := by
  have htensors : ∀ id p, σ.OwnsTensor r id p →
      (c σ.world).2.tensors.lookup p = σ.world.tensors.lookup p := by
    intro id p ho
    exact (hc σ.world).tensors p fun hp => AList.free_iff.mp (hP p hp) (hs.tensor r id p ho)
  have hne : r ≠ r' := fun he => AList.free_iff.mp hr' (he ▸ hr)
  rw [put_run]
  rcases hrun : c σ.world with ⟨run | e | _, w⟩ <;> rw [hrun] at htensors
  · exact .of_same (AList.lookup_insert_ne hne) htensors
  · exact .of_same rfl htensors
  · exact .of_same rfl htensors

/-- A call on a run that is bound. -/
theorem Alike.onward {w : World B} (hw : Onward σ.world w) : Alike r σ { σ with world := w } :=
  .of_tensors rfl hw.tensors

variable [Topology B] {e : PlanEvent B}

/-- **Step rule.** Only an edit of the run makes a tensor of it another. -/
theorem Alike.step (hs : σ.Sound) (hr : r ∈ σ.runs) (hstep : Where Step (NotEdited r) σ e σ') :
    Alike r σ σ' := by
  obtain ⟨⟨ha, hp⟩, hedit⟩ := hstep
  rcases e with ⟨act, out⟩
  obtain rfl : (act.perform σ).2 = σ' := congrArg Prod.snd hp
  clear hp
  cases act with
  | build r' d plan site =>
    refine .put hs ha.1 hr ?_ (build_within plan d site)
    intro p hp
    obtain ⟨spec, hspec, rfl⟩ := hp
    exact ha.2.place spec hspec
  | buildHollow r' d plan site =>
    exact .put hs ha.1 hr (fun _ hp => hp.elim) (buildHollow_within plan d site)
  | fillFrom r' source id =>
    obtain ⟨hne, hr', hsource⟩ := ha
    obtain ⟨run', hrun'⟩ := exists_of_mem hr'.1
    obtain ⟨from', hfrom⟩ := exists_of_mem hsource.1
    change Alike r σ (Session.fillFrom r' source id σ).2
    refine ⟨?_, (fillFrom_conserves hrun' hfrom hne id hs).1.shape r⟩
    rw [fillFrom_run hrun' hfrom]
    rcases run'.fills from' σ.world id with ⟨place, live⟩ | e | _
    · simp only [filled, AList.lookup_insert_eq]
      by_cases h₁ : r = source
      · subst h₁
        rw [if_pos rfl, hfrom]
        rfl
      · by_cases h₂ : r = r'
        · subst h₂
          rw [if_neg h₁, if_pos rfl, hrun']
          rfl
        · rw [if_neg h₁, if_neg h₂]
    all_goals rw [unchanged_lookup hrun' hfrom]
  | edit r' ts cs f =>
    obtain ⟨-, hleaves, run', hrun', -⟩ := ha
    rw [PlanAct.perform, bind_of_ok (get_run σ), Session.run, hrun', check_run]
    simp only [Outcome.expect, Session.onWorld, zoom_run, edit_world]
    refine .of_same rfl fun id p ho => ?_
    obtain ⟨run, hrun, hlive⟩ := ho
    refine hleaves.tensors r run hrun ?_ p (AList.mem_values.mpr ⟨id, hlive⟩)
    intro he
    cases he
    exact hedit ts cs f rfl
  | bind r' s ts cs =>
    obtain ⟨-, -, run', hrun', -⟩ := ha
    have hw := bind_onward run' s ts cs σ.world
    change Alike r σ (Session.bind r' s ts cs σ).2
    rw [bind_session_run hrun']
    rcases hb : run'.bind s ts cs σ.world with ⟨_ | _ | _, w⟩ <;> rw [hb] at hw
    all_goals exact .of_tensors rfl hw.tensors
  | execute r' =>
    obtain ⟨bound, hb⟩ := ha
    have hrun := bound_run hb fun _ bound => bound.execute
    exact hrun ▸ .onward (execute_executed bound σ.world).onward
  | executeCall r' id =>
    obtain ⟨bound, hb⟩ := ha
    have hrun := bound_run hb fun _ bound => bound.executeCall id
    exact hrun ▸ .onward (executeCall_executed bound id σ.world).onward
  | applyDynamics r' =>
    obtain ⟨bound, hb⟩ := ha
    have hrun := bound_run hb fun dynamics bound => bound.applyDynamics dynamics
    exact hrun ▸ .onward (applyDynamics_onward bound σ.dynamics σ.world)
  | setDynamic d value => exact .of_tensors rfl rfl
  | closeScope s =>
    obtain ⟨scope, hscope⟩ := exists_of_mem ha
    rw [PlanAct.perform, closeScope_run s ha, close_run hscope]
    exact .of_tensors rfl rfl
  | elsewhere f =>
    refine .of_same rfl fun id p ho => ?_
    obtain ⟨run, hrun, hlive⟩ := ho
    exact ha.tensors r run hrun (fun he => by cases he) p (AList.mem_values.mpr ⟨id, hlive⟩)

/-- The run at `r` is one of the plan on the device `d`, with tensors as long
as `len` makes of what their specs give. -/
structure Shaped (plan : RunSpec) (d : Nat) (len : DataKind → Nat → Nat) (r : Nat)
    (σ : Session B) : Prop where
  device : (σ.runs.lookup r).map Run.device = some d
  shape : ∀ spec ∈ plan.tensors, ∃ n, spec.len = some n ∧
    σ.shape r spec.id = some (.ok spec.kind, .ok (len spec.kind n))

variable {plan : RunSpec} {d : Nat} {len : DataKind → Nat → Nat}

omit [Topology B] in
theorem Shaped.mem (h : Shaped plan d len r σ) : r ∈ σ.runs := by
  obtain ⟨run, hrun, -⟩ := Option.map_eq_some_iff.mp h.device
  exact AList.lookup_isSome.mp (by rw [hrun]; rfl)

/-- **Run rule.** A run that isn't edited keeps its tensors' kinds and lengths. -/
theorem Shaped.runs {es : List (PlanEvent B)} (h : Shaped plan d len r σ) (hs : σ.Sound)
    (hr : Runs (Where Step (NotEdited r)) σ es σ') : Shaped plan d len r σ' := by
  have hall : σ'.Sound ∧ Shaped plan d len r σ' := by
    refine hr.preserves (I := fun σ => σ.Sound ∧ Shaped plan d len r σ) ?_ ⟨hs, h⟩
    intro σ e σ' hi hstep
    obtain ⟨hs, h⟩ := hi
    have halike := Alike.step hs h.mem hstep
    refine ⟨hs.step hstep.1, halike.device.trans h.device, fun spec hspec => ?_⟩
    rw [halike.shape]
    exact h.shape spec hspec
  exact hall.2

/-- A run starts with tensors in whole host words, as `alloc` makes them. -/
theorem Shaped.built {site : Site B} (hstep : σ.Step ⟨.build r d plan site, .ok ()⟩ σ') :
    Shaped plan d wholeWords r σ' := by
  obtain ⟨ha, hp⟩ := hstep
  change Session.put r (plan.build d site) σ = _ at hp
  rw [put_run] at hp
  rcases hrun : plan.build d site σ.world with ⟨run | e | _, w⟩ <;> rw [hrun] at hp <;> cases hp
  obtain ⟨rfl, -, htensors, -⟩ := build_ok ha.2 hrun
  refine ⟨by rw [AList.lookup_insert]; rfl, fun spec hspec => ?_⟩
  obtain ⟨t, ht, hbuilt⟩ := htensors spec hspec
  obtain ⟨n, hn, hlen⟩ := hbuilt.len
  refine ⟨n, hn, ?_⟩
  have hlookup : (builtTensors plan site).lookup spec.id = some (.Live (site.place spec.id)) :=
    builtTensors_lookup.mpr ⟨spec, hspec, rfl, rfl⟩
  rw [shape_eq (AList.lookup_insert _) hlookup]
  simp [AnyTensor.kind, AnyTensor.len, World.tensor, ht, Outcome.expect, hbuilt.kind, hlen]

/-- A run built hollow starts with tensors as long as their specs give. -/
theorem Shaped.builtHollow {site : Site B}
    (hstep : σ.Step ⟨.buildHollow r d plan site, .ok ()⟩ σ') :
    Shaped plan d (fun _ n => n) r σ' := by
  obtain ⟨ha, hp⟩ := hstep
  change Session.put r (plan.buildHollow d site) σ = _ at hp
  rw [put_run] at hp
  rcases hrun : plan.buildHollow d site σ.world with ⟨run | e | _, w⟩ <;> rw [hrun] at hp <;>
    cases hp
  obtain ⟨tensors, hhollow, rfl, -⟩ := buildHollow_ok ha.2 hrun
  refine ⟨by rw [AList.lookup_insert]; rfl, fun spec hspec => ?_⟩
  obtain ⟨n, hn⟩ := hollowTensors_known hhollow hspec
  have hlookup : tensors.toAList.lookup spec.id = some (.Hollow ⟨spec.kind, n⟩) :=
    (hollowTensors_lookup hhollow).mpr ⟨spec, hspec, rfl, n, hn, rfl⟩
  refine ⟨n, hn, ?_⟩
  rw [shape_eq (AList.lookup_insert _) hlookup]
  rfl

/-! ## Filling -/

/-- The place has no tensor yet, and the other run has it. -/
def Waits (σ : Session B) (r source id : Nat) : Prop :=
  ∃ run from' hollow p, σ.runs.lookup r = some run ∧ σ.runs.lookup source = some from' ∧
    run.tensors.lookup id = some (.Hollow hollow) ∧ from'.tensors.lookup id = some (.Live p)

omit [Topology B] in
/-- `fill_from` between two runs whose tensor `id` is of one kind. -/
theorem fillFrom_eq {source id : Nat} {kind : DataKind} {n m : Nat}
    (hr : (σ.runs.lookup r).map Run.device = some d)
    (hsource : (σ.runs.lookup source).map Run.device = some d)
    (hplace : σ.shape r id = some (.ok kind, .ok n))
    (hlive : σ.shape source id = some (.ok kind, .ok m)) :
    (σ.Waits r source id → (fillFrom r source id σ).1 =
      if n = m then .ok () else .err (.LenMismatch n m)) ∧
    (¬σ.Waits r source id → (fillFrom r source id σ).1 = .err .NotHollow ∨
      (fillFrom r source id σ).1 = .err .Hollow) := by
  obtain ⟨run, hrun, rfl⟩ := Option.map_eq_some_iff.mp hr
  obtain ⟨from', hfrom, hdevice⟩ := Option.map_eq_some_iff.mp hsource
  obtain ⟨place, hid, hkind, hlen⟩ := exists_of_shape hrun hplace
  obtain ⟨live, hid', hkind', hlen'⟩ := exists_of_shape hfrom hlive
  have hfills : run.fills from' σ.world id =
      if !place.isHollow then .err .NotHollow
      else do
        let _ ← live.live
        Rules.sameLen n m
        return (place, live) := by
    simp only [Run.fills, Run.anyTensor, hid, hid', hkind, hlen, hkind', hlen', hdevice,
      Rules.sameDevice, Rules.sameKind, if_true, Outcome.okOr, Outcome.ok_bind]
  have hwaits : σ.Waits r source id ↔
      (∃ hollow, place = .Hollow hollow) ∧ ∃ p, live = .Live p := by
    constructor
    · intro h
      obtain ⟨run₁, from₁, hollow, p, hrun₁, hfrom₁, hid₁, hid₁'⟩ := h
      obtain rfl : run = run₁ := Option.some.inj (hrun.symm.trans hrun₁)
      obtain rfl : from' = from₁ := Option.some.inj (hfrom.symm.trans hfrom₁)
      exact ⟨⟨hollow, Option.some.inj (hid.symm.trans hid₁)⟩, p,
        Option.some.inj (hid'.symm.trans hid₁')⟩
    · intro h
      obtain ⟨⟨hollow, rfl⟩, p, rfl⟩ := h
      exact ⟨run, from', hollow, p, hrun, hfrom, hid, hid'⟩
  rw [fillFrom_run hrun hfrom, hfills, hwaits]
  cases place with
  | Live p =>
    refine ⟨fun h => ?_, fun _ => .inl rfl⟩
    obtain ⟨⟨_, hplace⟩, -⟩ := h
    cases hplace
  | Hollow hollow =>
    cases live with
    | Hollow other =>
      refine ⟨fun h => ?_, fun _ => .inr rfl⟩
      obtain ⟨-, _, hlive⟩ := h
      cases hlive
    | Live p =>
      refine ⟨fun _ => ?_, fun h => absurd ⟨⟨hollow, rfl⟩, p, rfl⟩ h⟩
      by_cases hnm : n = m
      · rw [if_pos hnm]
        simp [AnyTensor.isHollow, AnyTensor.live, Rules.sameLen, hnm]
      · rw [if_neg hnm]
        simp [AnyTensor.isHollow, AnyTensor.live, Rules.sameLen, hnm]

end Session

/-! ## Slots that are too short -/

/-- Refused since a tensor is too short for a slot. -/
def Short {α : Type} (out : Outcome Error α) : Prop :=
  ∃ shader slot needs holds, out = .err (.TooShort shader slot needs holds)

/-- An error of another kind. -/
def NotShort (e : Error) : Prop := ∀ shader slot needs holds, e ≠ .TooShort shader slot needs holds

theorem not_short {α : Type} {out : Outcome Error α} (h : out.Fails NotShort) : ¬Short out := by
  intro hshort
  obtain ⟨shader, slot, needs, holds, he⟩ := hshort
  exact h _ he shader slot needs holds rfl

/-- What the node, once built, needs in each slot. -/
def NodeSpec.lens (spec : NodeSpec) : Outcome Error (List Nat) := do
  let metaVals ← spec.metaSources.mapM MetaSource.buildValue
  let words ← metaWords spec.shader.signature metaVals
  return minLens spec.shader.signature words (← spec.workgroups.value)

/-- A call of the plan needs the tensor `id` to be as long as `needs`. -/
def RunSpec.Needs (plan : RunSpec) (id needs : Nat) : Prop :=
  ∃ call ∈ plan.calls, ∃ (lens : List Nat) (slot : Nat), call.node.lens = .ok lens ∧
    call.tensors[slot]? = some id ∧ lens[slot]? = some needs

omit [Storage B] [Dispatch B] [Capturable B] [Areable B] in
theorem value_notShort {α : Type} (r : Known α) : r.value.Fails NotShort :=
  Outcome.fails_okOr fun _ _ _ _ he => by cases he

theorem buildValue_notShort (source : MetaSource) : source.buildValue.Fails NotShort := by
  cases source with
  | Uint r | Float r =>
    exact Outcome.fails_bind (value_notShort r) fun _ _ => Outcome.fails_ok _
  | UintPerRun d | FloatPerRun d => exact Outcome.fails_ok _

theorem callReady_notShort (call : CallSpec) : call.ready.Fails NotShort :=
  Outcome.fails_bind (value_notShort _) fun _ _ => Outcome.fails_forM fun source _ =>
    Outcome.fails_bind (buildValue_notShort source) fun _ _ => Outcome.fails_ok _

/-- A test with another error. -/
theorem test_notShort {e : Error} (he : NotShort e) {c : Prop} [Decidable c] :
    (if c then .ok () else .err e : Outcome Error Unit).Fails NotShort := by
  split
  · exact Outcome.fails_ok ()
  · exact Outcome.fails_err he

theorem tensorReady_notShort (spec : TensorSpec) : spec.ready.Fails NotShort := by
  refine Outcome.fails_bind (value_notShort _) fun len _ => ?_
  cases spec.init with
  | Upload data => exact test_notShort fun _ _ _ _ he => by cases he
  | Blank | Zero => exact Outcome.fails_ok _

theorem byteRange_notShort (kind : DataKind) (tensorLen offset len : Nat) (write : Bool) :
    (byteRange kind tensorLen offset len write).Fails NotShort := by
  have herr : ∀ {e : Error}, NotShort e → (.err e : Outcome Error ByteRange).Fails NotShort :=
    fun he => Outcome.fails_err he
  rw [byteRange]
  split
  · exact herr fun _ _ _ _ he => by cases he
  · dsimp only
    split
    · exact herr fun _ _ _ _ he => by cases he
    · split
      · exact herr fun _ _ _ _ he => by cases he
      · exact Outcome.fails_ok _

theorem metaTypes_notShort (shader : Signature) (types : List MetaType) :
    (Rules.metaTypes shader types).Fails NotShort := by
  rw [Rules.metaTypes]
  split
  · refine Outcome.fails_forM fun x _ => ?_
    dsimp only
    split
    · exact Outcome.fails_ok _
    · exact Outcome.fails_err fun _ _ _ _ he => by cases he
  · exact Outcome.fails_err fun _ _ _ _ he => by cases he

section Lengths

variable [Topology B] {plan : RunSpec} {site : Site B} {d : Nat} {w₀ w w' : World B} {run : Run}
  {tensors : Places AnyTensor}

omit [Storage B] [Dispatch B] [Capturable B] [Areable B] [Topology B] in
theorem fails_buildAll {τ ε : Type} {P : ε → Prop} {order : List Nat → List Nat}
    {drop : Nat → Call τ ε Unit} {made : List Nat} {l : List (Nat × Call τ ε Unit)}
    (h : ∀ x ∈ l, Fails P x.2) : Fails P (buildAll order drop made l) := by
  induction l generalizing made with
  | nil => exact fun _ => Outcome.fails_ok ()
  | cons x rest ih =>
    exact fails_bind (fun s => fails_orDrop (h x (.head _) s)) fun _ =>
      ih fun y hy => h y (.tail _ hy)

theorem nodeBuild_lens {spec : NodeSpec} {a : Nat} (h : spec.build d a w = (.ok (), w')) :
    ∃ node, w'.nodes.lookup a = some node ∧ spec.lens = .ok node.lens := by
  rw [NodeSpec.build, Call.check_eq_ok] at h
  obtain ⟨vals, hvals, h⟩ := h
  rw [Call.check_eq_ok] at h
  obtain ⟨wg, hwg, h⟩ := h
  rw [buildNode_run] at h
  rcases hnode : ComputeDevice.node d w.nextUid spec.shader vals wg (w.devices d) with
    ⟨node | e | _, dev⟩ <;> rw [hnode] at h <;> cases h
  refine ⟨node, AList.lookup_insert _, ?_⟩
  obtain ⟨words, raw, hwords, -, -, rfl⟩ := deviceNode_ok hnode
  simp [NodeSpec.lens, hvals, hwords, hwg]

omit [Capturable B] [Areable B] in
theorem deviceNode_notShort (id uid : Nat) (shader : Shader) (metaVals : List MetaValue)
    (wg : Workgroups) :
    Fails NotShort (ComputeDevice.node (B := B) id uid shader metaVals wg) := by
  have hdims : (Rules.hasWorkgroups shader.signature wg).Fails NotShort := by
    rw [Rules.hasWorkgroups]
    split
    · exact Outcome.fails_err fun _ _ _ _ he => by cases he
    · exact Outcome.fails_ok ()
  have hbackend : ∀ {x : Outcome String Unit}, (x.mapErr Error.Backend).Fails NotShort :=
    Outcome.fails_mapErr fun _ _ _ _ _ he => by cases he
  refine fails_bind (fails_lift (test_notShort fun _ _ _ _ he => by cases he)) fun _ =>
    fails_bind (fails_lift hdims) fun _ => fails_bind (fails_lift hbackend) fun _ =>
      fails_bind fails_get fun dev => fails_bind (fails_lift ?_) fun _ =>
        fails_bind (fails_lift ?_) fun words => fails_bind ?_ fun raw => ?_
  · exact Outcome.fails_forM fun role _ => test_notShort fun _ _ _ _ he => by cases he
  · exact Outcome.fails_bind (metaTypes_notShort _ _) fun _ _ => Outcome.fails_ok _
  · exact fails_mapErr fun _ _ _ _ _ he => by cases he
  · exact fails_lift (Outcome.fails_ok _)

omit [Dispatch B] [Capturable B] [Areable B] in
theorem deviceAlloc_notShort (env : Storage.Env B) (kind : DataKind) (len : Nat) :
    Fails NotShort (ComputeDevice.alloc (B := B) d env kind len) := by
  refine fails_bind fails_get fun dev => fails_bind (fails_lift ?_) fun _ => fails_bind ?_ ?_
  · exact test_notShort fun _ _ _ _ he => by cases he
  · refine fails_bind (fails_total _) fun pooled => ?_
    cases pooled with
    | some buf => exact fun _ => Outcome.fails_ok _
    | none =>
      refine fails_bind (fails_attempt _) fun made => ?_
      cases made with
      | ok buf => exact fun _ => Outcome.fails_ok _
      | error e =>
        exact fails_bind (fails_modify _) fun _ => fails_mapErr fun _ _ _ _ _ he => by cases he
  · exact fun _ _ => Outcome.fails_ok _

omit [Topology B] in
theorem fill_notShort (spec : TensorSpec) (p : Nat) :
    Fails NotShort (spec.fill p : Call (World B) Error Unit) := by
  have hother : ∀ {α : Type} {c : Call B String α},
      Fails NotShort ((onRaw c).mapErr Error.Backend) :=
    fails_mapErr fun _ _ _ _ _ he => by cases he
  have on : ∀ {c : Tensor B → Call (ComputeDevice B) Error Unit}, (∀ t, Fails NotShort (c t)) →
      Fails NotShort (World.onTensor p c) := fun hc =>
    fails_bind fails_get fun w => fails_bind (fails_lift (Outcome.fails_expect _)) fun t =>
      fails_zoom (hc t)
  rw [TensorSpec.fill]
  cases spec.init with
  | Blank => exact fun _ => Outcome.fails_ok ()
  | Upload data =>
    refine on fun t => fails_bind (fails_lift ?_) fun _ => fails_bind (fails_lift ?_) fun _ =>
      fails_bind (fails_lift (byteRange_notShort _ _ _ _ _)) fun range => ?_
    · exact test_notShort fun _ _ _ _ he => by cases he
    · exact test_notShort fun _ _ _ _ he => by cases he
    · exact fails_mapErr fun e => e.elim
  | Zero => exact on fun t => fails_bind hother fun _ => fails_modify _

theorem tensorBuild_notShort (spec : TensorSpec) (env : Storage.Env B) (p : Nat) :
    Fails NotShort (spec.build d env p : Call (World B) Error Unit) := by
  refine fails_bind (fails_lift (tensorReady_notShort spec)) fun _ =>
    fails_bind (fails_lift (value_notShort _)) fun len => fails_bind ?_ fun _ s => ?_
  · exact fails_bind (fails_zoom (deviceAlloc_notShort env spec.kind len)) fun _ => fails_modify _
  · exact fails_orDrop (fill_notShort spec p s)

theorem nodeBuild_notShort (spec : NodeSpec) (a : Nat) :
    Fails NotShort (spec.build d a : Call (World B) Error Unit) := by
  refine fails_bind (fails_lift (Outcome.fails_mapM fun source _ => buildValue_notShort source))
    fun vals => fails_bind (fails_lift (value_notShort _)) fun wg =>
      fails_bind fails_get fun w =>
        fails_bind (fails_zoom (deviceNode_notShort _ _ _ _ _)) fun _ => fails_modify _

omit [Topology B] in
/-- What a check of a run's tensors against its calls finds. -/
theorem longEnough_ok {ids : List Nat} (h : run.longEnough w ids = .ok ()) {id : Nat}
    (hid : id ∈ ids) {call : RunCall} (hcall : run.calls.lookup id = some call) {node : Node B}
    (hnode : w.nodes.lookup call.node = some node) {slot tid needs n : Nat} {tensor : AnyTensor}
    (htid : call.tensors[slot]? = some tid) (hneeds : node.lens[slot]? = some needs)
    (htensor : run.tensors.lookup tid = some tensor) (hn : tensor.len w = .ok n) : needs ≤ n := by
  have hone := Outcome.forM_eq_ok.mp h id hid
  simp only [Run.call, hcall, World.node, hnode, Outcome.okOr, Outcome.expect,
    Outcome.ok_bind] at hone
  have hmem : ((tid, needs), slot) ∈ (call.tensors.zip node.lens).zipIdx := by
    rw [List.mem_zipIdx_iff_getElem?, List.getElem?_zip_eq_some]
    exact ⟨htid, hneeds⟩
  have hslot := Outcome.forM_eq_ok.mp hone _ hmem
  simpa [Run.anyTensor, htensor, Outcome.okOr, hn] using hslot

omit [Topology B] in
/-- A run in which every tensor is long enough isn't refused as too short. -/
theorem longEnough_notShort (ids : List Nat)
    (h : ∀ id call node, run.calls.lookup id = some call → w.nodes.lookup call.node = some node →
      ∀ (slot tid needs n : Nat) (tensor : AnyTensor), call.tensors[slot]? = some tid →
        node.lens[slot]? = some needs → run.tensors.lookup tid = some tensor →
          tensor.len w = .ok n → needs ≤ n) : (run.longEnough w ids).Fails NotShort := by
  have hplan : ∀ what, NotShort (.NotInPlan what) := fun _ _ _ _ _ he => by cases he
  refine Outcome.fails_forM fun id _ => Outcome.fails_bind (Outcome.fails_okOr (hplan _))
    fun call hcall => Outcome.fails_bind (Outcome.fails_expect _) fun node hnode =>
      Outcome.fails_forM fun x hx => ?_
  obtain ⟨⟨tid, needs⟩, slot⟩ := x
  rw [List.mem_zipIdx_iff_getElem?, List.getElem?_zip_eq_some] at hx
  refine Outcome.fails_bind (Outcome.fails_okOr (hplan _)) fun tensor htensor =>
    Outcome.fails_bind ?_ fun n hn => ?_
  · cases tensor with
    | Live p => exact Outcome.fails_bind (Outcome.fails_expect _) fun _ _ => Outcome.fails_ok _
    | Hollow t => exact Outcome.fails_ok _
  · have hle := h id call node (Outcome.okOr_eq_ok.mp hcall) (Outcome.expect_eq_ok.mp hnode) slot
      tid needs n tensor hx.1 hx.2 (Outcome.okOr_eq_ok.mp htensor) hn
    rw [Rules.longEnough_eq_ok.mpr hle]
    exact Outcome.fails_ok ()

/-- Where they are, none is refused as too short. -/
theorem withTensors_notShort (hv : Session.NodesVacant w₀ plan site)
    (hlong : ∀ id needs n tensor (w : World B), plan.Needs id needs →
      tensors.lookup id = some tensor → tensor.len w = .ok n → needs ≤ n) :
    Fails NotShort (Run.withTensors plan d site tensors) := by
  intro w
  refine fails_bind_at (fails_orDrop (fails_buildAll ?_ w)) fun _ w₁ hnodes => ?_
  · intro x hx
    obtain ⟨spec, -, rfl⟩ := List.mem_map.mp hx
    exact nodeBuild_notShort _ _
  rw [orDrop_eq_ok] at hnodes
  refine fails_bind_at (fails_orDrop ?_) fun _ w₂ _ => Outcome.fails_ok _
  rw [bind_of_ok (get_run w₁), lift_run]
  refine longEnough_notShort _ fun id call node hcall hnode slot tid needs n tensor htid hslot
    htensor hn => ?_
  have hbuilt : (builtCalls plan site).lookup id = some call := hcall
  obtain ⟨spec, hspec, -, rfl⟩ := AList.lookup_ofList.mp hbuilt
  obtain ⟨node', hnode', hlens⟩ :=
    buildNodes_ok hv (Q := fun spec node => spec.lens = .ok node.lens)
      (fun _ _ _ _ => nodeBuild_lens) hnodes spec hspec
  obtain rfl : node = node' := Option.some.inj (hnode.symm.trans hnode')
  exact hlong tid needs n tensor w₁ ⟨spec, hspec, _, slot, hlens, htid, hslot⟩ htensor hn

/-- A tensor in whole host words. -/
def TensorSpec.Whole (spec : TensorSpec) : Prop :=
  ∀ n, spec.len = some n → spec.kind.elemsPerHostWord ∣ n

omit [Storage B] [Dispatch B] [Capturable B] [Areable B] [Topology B] in
/-- It is one that `alloc` makes no longer. -/
theorem TensorSpec.whole_iff {spec : TensorSpec} {n : Nat} (h : spec.len = some n) :
    spec.Whole ↔ wholeWords spec.kind n = n := by
  constructor
  · intro hwhole
    rw [wholeWords, Rounding.nextMultipleOf, if_pos (Nat.mod_eq_zero_of_dvd (hwhole n h))]
  · intro hn m hm
    obtain rfl : n = m := Option.some.inj (h.symm.trans hm)
    rw [← hn]
    exact Nat.dvd_of_mod_eq_zero (wholeWords_mod spec.kind n)

/-- **A plan that is refused as too short when built hollow** needs more of a
tensor than its spec gives. -/
theorem buildHollow_short (hv : Session.NodesVacant w₀ plan site)
    (h : Short (plan.buildHollow d site w).1) :
    ∃ spec ∈ plan.tensors, ∃ n needs, spec.len = some n ∧ plan.Needs spec.id needs ∧ n < needs := by
  by_contra hnone
  refine not_short ?_ h
  rw [RunSpec.buildHollow]
  refine fails_bind_at ?_ fun _ w₁ _ => ?_
  · exact Outcome.fails_forM fun call _ => callReady_notShort call
  rw [Run.buildHollow]
  refine fails_bind_at ?_ fun tensors w₂ hhollow => withTensors_notShort hv ?_ w₂
  · refine Outcome.fails_mapM fun spec _ => ?_
    exact Outcome.fails_bind (Outcome.fails_bind (value_notShort _) fun _ _ => Outcome.fails_ok _)
      fun _ _ => Outcome.fails_ok _
  intro id needs n tensor w₃ hneeds htensor hn
  obtain ⟨spec, hspec, rfl, len, hlen, rfl⟩ :=
    (hollowTensors_lookup (Prod.mk.inj hhollow).1).mp htensor
  obtain rfl : len = n := Outcome.ok.inj hn
  by_contra hlt
  exact hnone ⟨spec, hspec, len, needs, hlen, hneeds, Nat.lt_of_not_le hlt⟩

/-! ### When built live -/

/-- All that `build` does before it looks at lengths. -/
def RunSpec.make (plan : RunSpec) (d : Nat) (site : Site B) : Call (World B) Error Unit := do
  plan.ready
  buildAll site.order (fun id => World.dropTensor (site.place id)) []
    (plan.tensors.map fun spec => (spec.id, spec.build d (site.env spec.id) (site.place spec.id)))
  buildAll site.order (fun id => World.dropNode (site.address id)) []
    (plan.calls.map fun spec => (spec.id, spec.node.build d (site.address spec.id)))

/-- `build` ends as that does, or as the look at lengths does. -/
theorem build_out (plan : RunSpec) (d : Nat) (site : Site B) (w : World B) :
    (plan.build d site w).1 =
      ((plan.make d site >>= fun _ => do
        let run := builtRun plan d site (builtTensors plan site)
        run.longEnough (← .get) (site.order run.calls.keys)
        return run : Call (World B) Error Run) w).1 := by
  rw [RunSpec.make]
  simp only [bind_assoc]
  refine bind_out_congr (fun _ w₁ => bind_out_congr (fun _ w₂ => ?_) w₁) w
  rw [Run.withTensors, orDrop_bind_out]
  refine bind_out_congr (fun _ w₃ => ?_) w₂
  rw [orDrop_bind_out, bind_assoc]
  rfl

theorem make_notShort : Fails NotShort (plan.make d site) := by
  refine fails_bind (fails_lift ?_) fun _ => fails_bind (fails_buildAll ?_) fun _ =>
    fails_buildAll ?_
  · exact Outcome.fails_bind (Outcome.fails_forM fun spec _ => tensorReady_notShort spec) fun _ _ =>
      Outcome.fails_forM fun call _ => callReady_notShort call
  · intro x hx
    obtain ⟨spec, -, rfl⟩ := List.mem_map.mp hx
    exact tensorBuild_notShort _ _ _
  · intro x hx
    obtain ⟨spec, -, rfl⟩ := List.mem_map.mp hx
    exact nodeBuild_notShort _ _

/-- What stands once all is made. -/
theorem make_ok (hv : Session.Vacant w₀ plan site) (h : plan.make d site w = (.ok (), w')) :
    TensorsBuilt plan d site w' ∧
      ∀ spec ∈ plan.calls, ∃ node, w'.nodes.lookup (site.address spec.id) = some node ∧
        spec.node.lens = .ok node.lens := by
  rw [RunSpec.make, Call.check_eq_ok] at h
  obtain ⟨_, -, h⟩ := h
  obtain ⟨_, w₁, htensors, hnodes⟩ := bind_eq_ok.mp h
  refine ⟨fun spec hspec => ?_, buildNodes_ok hv.toNodesVacant
    (Q := fun spec node => spec.lens = .ok node.lens) (fun _ _ _ _ => nodeBuild_lens) hnodes⟩
  rw [buildNodes_tensors hnodes]
  exact buildTensors_ok hv htensors spec hspec

omit [Storage B] [Dispatch B] [Capturable B] [Areable B] [Topology B] in
theorem forM_ok_or_short {α : Type} {f : α → Outcome Error Unit} {l : List α}
    (h : ∀ a ∈ l, f a = .ok () ∨ Short (f a)) : l.forM f = .ok () ∨ Short (l.forM f) := by
  induction l with
  | nil => exact .inl rfl
  | cons a rest ih =>
    change (f a >>= fun _ => rest.forM f) = _ ∨ Short (f a >>= fun _ => rest.forM f)
    rcases h a (.head _) with hok | ⟨shader, slot, needs, holds, he⟩
    · rw [hok, Outcome.ok_bind]
      exact ih fun b hb => h b (.tail _ hb)
    · exact .inr ⟨shader, slot, needs, holds, by rw [he]; rfl⟩

omit [Topology B] in
/-- **The look at lengths** finds every tensor long enough, or one too short. -/
theorem longEnough_ok_or_short
    (htensors : ∀ spec ∈ plan.tensors, ∃ tensor n, tensors.lookup spec.id = some tensor ∧
      tensor.len w = .ok n)
    (hnodes : ∀ spec ∈ plan.calls, ∃ node, w.nodes.lookup (site.address spec.id) = some node) :
    (builtRun plan d site tensors).longEnough w
        (site.order (builtRun plan d site tensors).calls.keys) = .ok () ∨
      Short ((builtRun plan d site tensors).longEnough w
        (site.order (builtRun plan d site tensors).calls.keys)) := by
  refine forM_ok_or_short fun id hid => ?_
  have hmem := AList.mem_keys.mpr ((site.perm _).mem_iff.mp hid)
  obtain ⟨call, hcall⟩ := Option.isSome_iff_exists.mp (AList.lookup_isSome.mpr hmem)
  obtain ⟨spec, hspec, -, rfl⟩ := (AList.lookup_ofList (h := plan.callIds)).mp hcall
  obtain ⟨node, hnode⟩ := hnodes spec hspec
  have hcall' : (builtRun plan d site tensors).call id = .ok _ := Outcome.okOr_eq_ok.mpr hcall
  have hnode' : w.node (site.address spec.id) = .ok node := Outcome.expect_eq_ok.mpr hnode
  simp only [hcall', Outcome.ok_bind, hnode']
  refine forM_ok_or_short fun x hx => ?_
  obtain ⟨⟨tid, needs⟩, slot⟩ := x
  rw [List.mem_zipIdx_iff_getElem?, List.getElem?_zip_eq_some] at hx
  obtain ⟨_, -, tspec, htspec, rfl, -⟩ :=
    (plan.fits hspec).1.exists_of_mem_left (List.mem_of_getElem? hx.1)
  obtain ⟨tensor, n, htensor, hn⟩ := htensors tspec htspec
  have htensor' : (builtRun plan d site tensors).anyTensor tspec.id = .ok tensor :=
    Outcome.okOr_eq_ok.mpr htensor
  simp only [htensor', Outcome.ok_bind, hn]
  rw [Rules.longEnough]
  split
  · exact .inl rfl
  · exact .inr ⟨_, _, _, _, rfl⟩

/-- **Building live is refused as too short**, once all is made, where a call
needs more of a tensor than `alloc` makes of it. -/
theorem build_short (hv : Session.Vacant w₀ plan site) (h : plan.make d site w = (.ok (), w'))
    {spec : TensorSpec} (hspec : spec ∈ plan.tensors) {n needs : Nat} (hn : spec.len = some n)
    (hneeds : plan.Needs spec.id needs) (hlt : wholeWords spec.kind n < needs) :
    Short (plan.build d site w).1 := by
  obtain ⟨htensors, hnodes⟩ := make_ok hv h
  have hlens : ∀ spec ∈ plan.tensors, ∃ n, spec.len = some n ∧
      (builtTensors plan site).lookup spec.id = some (.Live (site.place spec.id)) ∧
      (AnyTensor.Live (site.place spec.id)).len w' = .ok (wholeWords spec.kind n) := by
    intro spec hspec
    obtain ⟨t, ht, hbuilt⟩ := htensors spec hspec
    obtain ⟨n, hn, hlen⟩ := hbuilt.len
    refine ⟨n, hn, builtTensors_lookup.mpr ⟨spec, hspec, rfl, rfl⟩, ?_⟩
    simp [AnyTensor.len, World.tensor, ht, Outcome.expect, hlen]
  have hlook : ∀ run, run = builtRun plan d site (builtTensors plan site) →
      run.longEnough w' (site.order run.calls.keys) = .ok () ∨
      Short (run.longEnough w' (site.order run.calls.keys)) := by
    rintro run rfl
    refine longEnough_ok_or_short (fun spec hspec => ?_) fun spec hspec => ?_
    · obtain ⟨n, -, hlookup, hlen⟩ := hlens spec hspec
      exact ⟨_, _, hlookup, hlen⟩
    · obtain ⟨node, hnode, -⟩ := hnodes spec hspec
      exact ⟨node, hnode⟩
  rw [build_out, bind_of_ok h, bind_of_ok (get_run w'), check_run]
  rcases hlook _ rfl with hok | ⟨shader, slot, needs', holds, he⟩
  · -- what a slot needs, its tensor would have
    exfalso
    obtain ⟨call, hcall, lens, slot, hcallLens, hid, hslot⟩ := hneeds
    obtain ⟨node, hnode, hlens'⟩ := hnodes call hcall
    obtain rfl : lens = node.lens := Outcome.ok.inj (hcallLens.symm.trans hlens')
    have hbuilt : (builtCalls plan site).lookup call.id =
        some ⟨site.address call.id, call.tensors, call.node.metaSources⟩ :=
      AList.lookup_ofList.mpr ⟨call, hcall, rfl, rfl⟩
    have hmem : call.id ∈ site.order (builtCalls plan site).keys := (site.perm _).mem_iff.mpr
      (AList.mem_keys.mpr (AList.lookup_isSome.mp (by rw [hbuilt]; rfl)))
    obtain ⟨n', hn', hlookup, hlen⟩ := hlens spec hspec
    obtain rfl : n = n' := Option.some.inj (hn.symm.trans hn')
    have hle := longEnough_ok hok hmem hbuilt hnode hid hslot hlookup hlen
    omega
  · exact ⟨shader, slot, needs', holds, by rw [he]⟩

/-- **Refused hollow, refused live**: of tensors that are whole, `build` is
refused as too short exactly if it gets to look at lengths. -/
theorem build_short_iff {site' : Site B} (hv : Session.NodesVacant w plan site)
    (hshort : Short (plan.buildHollow d site w).1) (hv' : Session.Vacant w₀ plan site')
    (hwhole : ∀ spec ∈ plan.tensors, spec.Whole) :
    (Short (plan.build d site' w₀).1 ↔ (plan.make d site' w₀).1 = .ok ()) ∧
      ∀ run, (plan.build d site' w₀).1 ≠ .ok run := by
  obtain ⟨spec, hspec, n, needs, hn, hneeds, hlt⟩ := buildHollow_short hv hshort
  rw [← (TensorSpec.whole_iff hn).mp (hwhole spec hspec)] at hlt
  rcases hmake : plan.make d site' w₀ with ⟨_ | e | _, w₁⟩
  · have hbuild := build_short hv' hmake hspec hn hneeds hlt
    refine ⟨⟨fun _ => rfl, fun _ => hbuild⟩, fun run hok => ?_⟩
    obtain ⟨shader, slot, needs, holds, he⟩ := hbuild
    rw [he] at hok
    cases hok
  · have hbuild : (plan.build d site' w₀).1 = .err e := by
      rw [build_out, Call.bind_run, hmake]
    have hother : NotShort e := make_notShort w₀ e (by rw [hmake])
    rw [hbuild]
    refine ⟨⟨fun hs => absurd hs (not_short (Outcome.fails_err hother)), fun h => ?_⟩,
      fun _ h => ?_⟩
    all_goals cases h
  · have hbuild : (plan.build d site' w₀).1 = .panic := by
      rw [build_out, Call.bind_run, hmake]
    rw [hbuild]
    refine ⟨⟨fun ⟨_, _, _, _, h⟩ => ?_, fun h => ?_⟩, fun _ h => ?_⟩
    all_goals cases h

end Lengths

/-! ## Where they agree -/

/-- Refused for the tensor's kind or its length. -/
def Mismatch (out : Outcome Error Unit) : Prop :=
  (∃ expected got, out = .err (.KindMismatch expected got)) ∨
    ∃ expected got, out = .err (.LenMismatch expected got)

variable [Topology B]

/-- The program made the run at `r` so, and didn't edit it since. -/
def Session.Since (made : PlanAct B) (r : Nat) (σ : Session B) : Prop :=
  ∃ w es σ₁ σ₂ fs, Runs Session.Step (.init w) es σ₁ ∧ σ₁.Step ⟨made, .ok ()⟩ σ₂ ∧
    Runs (Where Session.Step (Session.NotEdited r)) σ₂ fs σ

namespace Session

variable {r : Nat} {plan : RunSpec} {d : Nat} {site : Site B}

theorem Since.shaped (h : σ.Since (.build r d plan site) r) : Shaped plan d wholeWords r σ := by
  obtain ⟨w, es, σ₁, σ₂, fs, hr, hbuild, hrest⟩ := h
  exact (Shaped.built hbuild).runs ((sound_of_runs hr).step hbuild) hrest

theorem Since.shapedHollow (h : σ.Since (.buildHollow r d plan site) r) :
    Shaped plan d (fun _ n => n) r σ := by
  obtain ⟨w, es, σ₁, σ₂, fs, hr, hbuild, hrest⟩ := h
  exact (Shaped.builtHollow hbuild).runs ((sound_of_runs hr).step hbuild) hrest

/-- **`fill_from`** takes a tensor that a place waits for if it is whole, and
else refuses it for its length. -/
theorem fillFrom_iff {source : Nat} {site' : Site B} (hr : σ.Since (.buildHollow r d plan site) r)
    (hsource : σ.Since (.build source d plan site') source) {spec : TensorSpec}
    (hspec : spec ∈ plan.tensors) :
    ((fillFrom r source spec.id σ).1 = .ok () ↔ σ.Waits r source spec.id ∧ spec.Whole) ∧
      (Mismatch (fillFrom r source spec.id σ).1 ↔ σ.Waits r source spec.id ∧ ¬spec.Whole) := by
  obtain ⟨hdevice, hshape⟩ := hr.shapedHollow
  obtain ⟨hdevice', hshape'⟩ := hsource.shaped
  obtain ⟨n, hn, hplace⟩ := hshape spec hspec
  obtain ⟨n', hn', hlive⟩ := hshape' spec hspec
  obtain rfl : n = n' := Option.some.inj (hn.symm.trans hn')
  obtain ⟨hwaits, hnot⟩ := fillFrom_eq hdevice hdevice' hplace hlive
  rw [TensorSpec.whole_iff hn]
  by_cases hw : σ.Waits r source spec.id
  · rw [hwaits hw]
    by_cases hwhole : wholeWords spec.kind n = n
    · rw [if_pos hwhole.symm]
      simp [hw, hwhole, Mismatch]
    · rw [if_neg (Ne.symm hwhole)]
      simp [hw, hwhole, Mismatch]
  · rcases hnot hw with h | h <;> rw [h] <;> simp [hw, Mismatch]

end Session

/-- **Where a hollow place agrees with the tensor it stands for**: exactly where
the spec's length is whole. There the two have one kind and one length, and
`fill_from` takes the tensor. And where all are, a plan that is refused as too
short when built hollow is refused so when built live, unless that stops before
it looks at lengths; it never succeeds. -/
theorem hollow_agrees_iff_whole (plan : RunSpec) (d : Nat) :
    (∀ {spec : TensorSpec} {env : Storage.Env B} {p : Nat} {w w' : World B} {t : Tensor B}
      {hollow : HollowTensor}, spec.build d env p w = (.ok (), w') →
      w'.tensors.lookup p = some t → spec.buildHollow = .ok hollow →
        (hollow.kind = t.kind ∧ hollow.len = t.len ↔ spec.Whole)) ∧
    (∀ {σ : Session B} {r source : Nat} {site site' : Site B},
      σ.Since (.buildHollow r d plan site) r → σ.Since (.build source d plan site') source →
      ∀ spec ∈ plan.tensors,
        ((Session.fillFrom r source spec.id σ).1 = .ok () ↔
          σ.Waits r source spec.id ∧ spec.Whole) ∧
        (Mismatch (Session.fillFrom r source spec.id σ).1 ↔
          σ.Waits r source spec.id ∧ ¬spec.Whole)) ∧
    ∀ {site site' : Site B} {w w₁ : World B}, Session.NodesVacant w plan site →
      Short (plan.buildHollow d site w).1 → Session.Vacant w₁ plan site' →
      (∀ spec ∈ plan.tensors, spec.Whole) →
        (Short (plan.build d site' w₁).1 ↔ (plan.make d site' w₁).1 = .ok ()) ∧
        ∀ run, (plan.build d site' w₁).1 ≠ .ok run := by
  refine ⟨fun {spec _ _ _ _ t hollow} hbuild ht hhollow => ?_, fun hr hsource spec hspec =>
    Session.fillFrom_iff hr hsource hspec, fun hv hshort hv' hwhole =>
      build_short_iff hv hshort hv' hwhole⟩
  obtain ⟨t', ht', hbuilt⟩ := tensorBuild_ok hbuild
  obtain rfl : t = t' := Option.some.inj (ht.symm.trans ht')
  obtain ⟨n, hn, hlen⟩ := hbuilt.len
  have hhollow' : hollow = ⟨spec.kind, n⟩ := by
    rw [TensorSpec.buildHollow, hn] at hhollow
    exact (Outcome.ok.inj hhollow).symm
  rw [TensorSpec.whole_iff hn, hhollow', hbuilt.kind, hlen]
  exact ⟨fun h => h.2.symm, fun h => ⟨rfl, h.symm⟩⟩

/-! ## A plan of a packed tensor -/

namespace Sample

open Backends

theorem built_live : start.Step ⟨.build 0 0 tensorOnly site, .ok ()⟩ live :=
  ⟨⟨rfl, ⟨by decide, by decide⟩, by decide, by decide⟩, rfl⟩

theorem built_both : live.Step ⟨.buildHollow 1 0 tensorOnly site, .ok ()⟩ both :=
  ⟨⟨rfl, by decide, by decide⟩, rfl⟩

/-- Five elements, of which a word packs eight. -/
def packed : TensorSpec := ⟨0, .Int4, some 5, .Zero, rfl⟩

def packedOnly : RunSpec := ⟨⟨[packed], [], by decide, List.nodup_nil⟩, rfl⟩

def packedLive : Session CpuBackend := ((PlanAct.build 0 0 packedOnly site).perform start).2

def packedBoth : Session CpuBackend :=
  ((PlanAct.buildHollow 1 0 packedOnly site).perform packedLive).2

theorem built_packedLive : start.Step ⟨.build 0 0 packedOnly site, .ok ()⟩ packedLive :=
  ⟨⟨rfl, ⟨by decide, by decide⟩, by decide, by decide⟩, rfl⟩

theorem built_packedBoth : packedLive.Step ⟨.buildHollow 1 0 packedOnly site, .ok ()⟩ packedBoth :=
  ⟨⟨rfl, by decide, by decide⟩, rfl⟩

/-- A shader that needs eight elements in its slot. -/
def fillEight : Shader :=
  ⟨⟨"fill_eight", [], [.Output .Int8], fun _ _ lens => lens.map fun _ => 8,
    fun _ _ _ => List.length_map _, (1, 1, 1)⟩, .Native Backends.Sample.sevens⟩

/-- A call of it, on the tensor of four. -/
def tooFew : RunSpec :=
  ⟨⟨[bytes], [⟨1, ⟨fillEight, [], some (.linear 1), rfl⟩, [0], rfl⟩], List.nodup_singleton _,
    List.nodup_singleton _⟩, rfl⟩

theorem whole_bytes : bytes.Whole := by
  intro n hn
  cases hn
  decide

end Sample

/-- Four bytes are whole words, and move; a call that needs eight is refused
when built live as it is when built hollow. -/
theorem whole_tensor_moves : (Session.fillFrom 1 0 0 Sample.both).1 = .ok () ∧
    Short (Sample.tooFew.build 0 Sample.site Sample.start.world).1 := by
  obtain ⟨-, hfill, -⟩ := hollow_agrees_iff_whole (B := Backends.CpuBackend) Sample.tensorOnly 0
  obtain ⟨-, -, hrefused⟩ := hollow_agrees_iff_whole (B := Backends.CpuBackend) Sample.tooFew 0
  have hlive : Sample.both.Since (.build 0 0 Sample.tensorOnly Sample.site) 0 := by
    refine ⟨_, [], _, _, _, .nil _, Sample.built_live, .single ⟨Sample.built_both, ?_⟩⟩
    intro _ _ _ he
    cases he
  have hhollow : Sample.both.Since (.buildHollow 1 0 Sample.tensorOnly Sample.site) 1 :=
    ⟨_, _, _, _, [], .single Sample.built_live, Sample.built_both, .nil _⟩
  have hvacant : Session.Vacant Sample.start.world Sample.tooFew Sample.site :=
    ⟨⟨by decide, by decide⟩, by decide, by decide⟩
  have hwhole : ∀ spec ∈ Sample.tooFew.tensors, spec.Whole := by
    intro spec hspec
    obtain rfl := List.mem_singleton.mp hspec
    exact Sample.whole_bytes
  refine ⟨(hfill hhollow hlive Sample.bytes (.head _)).1.mpr
    ⟨⟨_, _, _, _, rfl, rfl, rfl, rfl⟩, Sample.whole_bytes⟩, ?_⟩
  exact (hrefused hvacant.toNodesVacant ⟨_, _, _, _, rfl⟩ hvacant hwhole).1.mpr rfl

/-- Five elements of four bits are allocated as eight, and don't fill a place for
five. -/
theorem packed_tensor_stays :
    Runs Session.Step Sample.start
      [⟨.build 0 0 Sample.packedOnly Sample.site, .ok ()⟩,
        ⟨.buildHollow 1 0 Sample.packedOnly Sample.site, .ok ()⟩] Sample.packedBoth ∧
      Sample.packed.buildHollow = .ok ⟨.Int4, 5⟩ ∧
      (Session.fillFrom 1 0 0 Sample.packedBoth).1 = .err (.LenMismatch 5 8) :=
  ⟨.cons Sample.built_packedLive (.single Sample.built_packedBoth), rfl, rfl⟩

end Wilupgu.Plan
