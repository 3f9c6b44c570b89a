import Wilupgu.Lib.Lists
import Wilupgu.Plan.Session
import Wilupgu.Safe.Nodes

/-! # What building a plan leaves behind

A build that succeeds has put every tensor and every node where its site says,
each with what its spec gives it. Whether it succeeds or fails, nothing else
stands anywhere else than before. -/

namespace Wilupgu.Plan

open Backend Call

variable {B : Type} [Storage B] [Dispatch B] [Capturable B] [Areable B]

/-! ## Where it works -/

/-- Tensors come and go only at places of `P`, nodes only at places of `A`. -/
structure Within (P A : Nat → Prop) (w w' : World B) : Prop where
  tensors : ∀ p, ¬P p → w'.tensors.lookup p = w.tensors.lookup p
  nodes : ∀ a, ¬A a → w'.nodes.lookup a = w.nodes.lookup a
  scopes : w'.scopes = w.scopes

section Frames

variable {P A : Nat → Prop} {ε α : Type}

theorem frame_within (P A : Nat → Prop) : Frame (Within (B := B) P A) where
  refl _ := ⟨fun _ _ => rfl, fun _ _ => rfl, rfl⟩
  trans h h' :=
    ⟨fun p hp => (h'.tensors p hp).trans (h.tensors p hp),
      fun a ha => (h'.nodes a ha).trans (h.nodes a ha), h'.scopes.trans h.scopes⟩

theorem onDevice_within (d : Nat) (c : Call (ComputeDevice B) ε α) :
    Keeps (Within P A) (World.onDevice d c) :=
  fun _ => ⟨fun _ _ => rfl, fun _ _ => rfl, rfl⟩

theorem onTensor_within (p : Nat) (c : Tensor B → Call (ComputeDevice B) Error α) :
    Keeps (Within P A) (World.onTensor p c) := by
  have hF := frame_within (B := B) P A
  exact hF.get_bind fun _ => hF.lift_bind fun t => onDevice_within t.dev (c t)

theorem dropTensor_within {p : Nat} (hp : P p) :
    Keeps (Within P A) (World.dropTensor (B := B) p) := by
  have hF := frame_within (B := B) P A
  refine hF.get_bind fun _ => hF.lift_bind fun t => hF.bind (keeps_modify fun w => ?_) fun _ =>
    onDevice_within t.dev t.drop
  refine ⟨fun q hq => AList.lookup_erase_ne ?_, fun _ _ => rfl, rfl⟩
  rintro rfl
  exact hq hp

theorem dropNode_within {a : Nat} (ha : A a) :
    Keeps (Within P A) (World.dropNode (B := B) a) := by
  have hF := frame_within (B := B) P A
  refine hF.get_bind fun _ => hF.lift_bind fun node => hF.bind (keeps_modify fun w => ?_) fun _ =>
    onDevice_within node.dev node.drop
  refine ⟨fun _ _ => rfl, fun b hb => AList.lookup_erase_ne ?_, rfl⟩
  rintro rfl
  exact hb ha

theorem buildAll_keeps {σ : Type} {R : σ → σ → Prop} (hR : Frame R) {order : List Nat → List Nat}
    (hperm : ∀ ids, (order ids).Perm ids) {drop : Nat → Call σ ε Unit} {made : List Nat}
    {l : List (Nat × Call σ ε Unit)} (hbuild : ∀ x ∈ l, Keeps R x.2)
    (hdrop : ∀ id ∈ made ++ l.map Prod.fst, Keeps R (drop id)) :
    Keeps R (buildAll order drop made l) := by
  induction l generalizing made with
  | nil => exact hR.pure _
  | cons x rest ih =>
    refine hR.bind (hR.orDrop (hbuild x List.mem_cons_self) (hR.forM ?_)) fun _ => ih ?_ ?_
    · intro id hid
      exact hdrop id (List.mem_append_left _ ((hperm made).mem_iff.mp hid))
    · exact fun y hy => hbuild y (List.mem_cons_of_mem x hy)
    · intro id hid
      refine hdrop id ?_
      simp only [List.map_cons, List.mem_append, List.mem_cons] at hid ⊢
      tauto

theorem fill_within (spec : TensorSpec) (p : Nat) :
    Keeps (Within P A) (spec.fill (B := B) p) := by
  unfold TensorSpec.fill
  split
  · exact (frame_within P A).pure _
  · exact onTensor_within p _
  · exact onTensor_within p _

variable [Topology B]

theorem alloc_within {p : Nat} (hp : P p) (d : Nat) (env : Storage.Env B) (kind : DataKind)
    (len : Nat) : Keeps (Within P A) (World.alloc d env p kind len) := by
  have hF := frame_within (B := B) P A
  refine hF.bind (onDevice_within d _) fun t => keeps_modify fun w => ?_
  refine ⟨fun q hq => AList.lookup_insert_ne ?_, fun _ _ => rfl, rfl⟩
  rintro rfl
  exact hq hp

theorem buildNode_within {a : Nat} (ha : A a) (d : Nat) (shader : Shader)
    (metaVals : List MetaValue) (wg : Workgroups) :
    Keeps (Within P A) (World.buildNode (B := B) d a shader metaVals wg) := by
  have hF := frame_within (B := B) P A
  refine hF.get_bind fun _ => hF.bind (onDevice_within d _) fun node => keeps_modify fun w => ?_
  refine ⟨fun _ _ => rfl, fun b hb => AList.lookup_insert_ne ?_, rfl⟩
  rintro rfl
  exact hb ha

theorem tensorBuild_within {p : Nat} (hp : P p) (spec : TensorSpec) (d : Nat)
    (env : Storage.Env B) : Keeps (Within P A) (spec.build d env p) := by
  have hF := frame_within (B := B) P A
  refine hF.lift_bind fun _ => hF.lift_bind fun len => hF.bind (alloc_within hp _ _ _ _) fun _ =>
    hF.orDrop (fill_within spec p) (dropTensor_within hp)

theorem nodeBuild_within {a : Nat} (ha : A a) (spec : NodeSpec) (d : Nat) :
    Keeps (Within P A) (spec.build (B := B) d a) := by
  have hF := frame_within (B := B) P A
  exact hF.lift_bind fun _ => hF.lift_bind fun _ => buildNode_within ha _ _ _ _

omit [Topology B] in
theorem drop_within {run : Run} {order : List Nat → List Nat}
    (hP : ∀ p, .Live p ∈ run.tensors.values → P p)
    (hA : ∀ call ∈ run.calls.values, A call.node) :
    Keeps (Within P A) (run.drop (B := B) order) := by
  have hF := frame_within (B := B) P A
  refine hF.bind (hF.forM fun id _ => ?_) fun _ => hF.forM fun id _ => ?_
  · split
    · rename_i p hp
      exact dropTensor_within (hP p (AList.mem_values.mpr ⟨id, hp⟩))
    · exact hF.pure _
  · split
    · rename_i call hcall
      exact dropNode_within (hA call (AList.mem_values.mpr ⟨id, hcall⟩))
    · exact hF.pure _

/-- The places a plan's site gives its tensors and its nodes. -/
def Site.places (site : Site B) (plan : RunSpec) (p : Nat) : Prop :=
  ∃ spec ∈ plan.tensors, site.place spec.id = p

def Site.addresses (site : Site B) (plan : RunSpec) (a : Nat) : Prop :=
  ∃ spec ∈ plan.calls, site.address spec.id = a

theorem RunSpec.nodup_tensors (plan : RunSpec) : (plan.tensors.map TensorSpec.id).Nodup :=
  plan.tensorIds

theorem RunSpec.nodup_calls (plan : RunSpec) : (plan.calls.map CallSpec.id).Nodup := plan.callIds

/-- The calls of a run built at a site. -/
def builtCalls (plan : RunSpec) (site : Site B) : Places RunCall :=
  .ofList CallSpec.id (fun spec => ⟨site.address spec.id, spec.tensors, spec.node.metaSources⟩)
    plan.calls plan.nodup_calls

omit [Storage B] [Dispatch B] [Capturable B] [Areable B] [Topology B] in
theorem builtCalls_values [Storage B] {plan : RunSpec} {site : Site B} {call : RunCall}
    (h : call ∈ (builtCalls plan site).values) : site.addresses plan call.node := by
  obtain ⟨id, hid⟩ := AList.mem_values.mp h
  obtain ⟨spec, hspec, -, rfl⟩ := AList.lookup_ofList.mp hid
  exact ⟨spec, hspec, rfl⟩

theorem withTensors_within {plan : RunSpec} {site : Site B} {tensors : Places AnyTensor} (d : Nat)
    (hP : ∀ p, .Live p ∈ tensors.values → P p) (hA : ∀ a, site.addresses plan a → A a) :
    Keeps (Within P A) (Run.withTensors plan d site tensors) := by
  have hF := frame_within (B := B) P A
  have hcalls : ∀ call ∈ (builtCalls plan site).values, A call.node :=
    fun call hcall => hA _ (builtCalls_values hcall)
  refine hF.bind (hF.orDrop (buildAll_keeps hF site.perm ?_ ?_) (drop_within hP nofun)) fun _ =>
    hF.bind (hF.orDrop (hF.get_bind fun _ => hF.lift _) (drop_within hP hcalls)) fun _ => hF.pure _
  · intro x hx
    obtain ⟨spec, hspec, rfl⟩ := List.mem_map.mp hx
    exact nodeBuild_within (hA _ ⟨spec, hspec, rfl⟩) _ _
  · intro id hid
    simp only [List.map_map, List.nil_append, List.mem_map] at hid
    obtain ⟨spec, hspec, rfl⟩ := hid
    exact dropNode_within (hA _ ⟨spec, hspec, rfl⟩)

/-- The live tensors of a run built at a site. -/
def builtTensors (plan : RunSpec) (site : Site B) : Places AnyTensor :=
  .ofList TensorSpec.id (fun spec => .Live (site.place spec.id)) plan.tensors plan.nodup_tensors

omit [Dispatch B] [Capturable B] [Areable B] [Topology B] in
theorem builtTensors_lookup {plan : RunSpec} {site : Site B} {id p : Nat} :
    (builtTensors plan site).lookup id = some (.Live p) ↔
      ∃ spec ∈ plan.tensors, spec.id = id ∧ site.place spec.id = p := by
  rw [builtTensors, AList.lookup_ofList]
  simp only [AnyTensor.Live.injEq]

omit [Dispatch B] [Capturable B] [Areable B] [Topology B] in
theorem builtTensors_values {plan : RunSpec} {site : Site B} {p : Nat}
    (h : .Live p ∈ (builtTensors plan site).values) : site.places plan p := by
  obtain ⟨id, hid⟩ := AList.mem_values.mp h
  obtain ⟨spec, hspec, -, hp⟩ := builtTensors_lookup.mp hid
  exact ⟨spec, hspec, hp⟩

/-- **A build** puts and drops things at the places of its site only. -/
theorem build_within (plan : RunSpec) (d : Nat) (site : Site B) :
    Keeps (Within (site.places plan) (site.addresses plan)) (plan.build d site) := by
  have hF := frame_within (B := B) (site.places plan) (site.addresses plan)
  refine hF.lift_bind fun _ => hF.bind (buildAll_keeps hF site.perm ?_ ?_) fun _ =>
    withTensors_within d (fun p hp => builtTensors_values hp) fun _ ha => ha
  · intro x hx
    obtain ⟨spec, hspec, rfl⟩ := List.mem_map.mp hx
    exact tensorBuild_within ⟨spec, hspec, rfl⟩ _ _ _
  · intro id hid
    simp only [List.map_map, List.nil_append, List.mem_map] at hid
    obtain ⟨spec, hspec, rfl⟩ := hid
    exact dropTensor_within ⟨spec, hspec, rfl⟩

omit [Storage B] [Dispatch B] [Capturable B] [Areable B] [Topology B] in
theorem hollowTensors_lookup {plan : RunSpec} {tensors : List ((_ : Nat) × AnyTensor)} {id : Nat}
    {t : AnyTensor} (h : Run.hollowTensors plan = .ok tensors) :
    tensors.toAList.lookup id = some t ↔
      ∃ spec ∈ plan.tensors, spec.id = id ∧ ∃ len, spec.len = some len ∧
        t = .Hollow ⟨spec.kind, len⟩ := by
  have hall := Outcome.mapM_eq_ok.mp h
  have hspec : ∀ (spec : TensorSpec) (e : (_ : Nat) × AnyTensor),
      ((do return ⟨spec.id, .Hollow (← spec.buildHollow)⟩ : Outcome Error _) = .ok e) ↔
        ∃ len, spec.len = some len ∧ e = ⟨spec.id, .Hollow ⟨spec.kind, len⟩⟩ := by
    intro spec e
    simp only [TensorSpec.buildHollow, Known.value, Outcome.bind_eq_ok, Outcome.okOr_eq_ok,
      Outcome.pure_def, Outcome.ok.injEq]
    constructor
    · rintro ⟨_, ⟨len, hlen, rfl⟩, rfl⟩
      exact ⟨len, hlen, rfl⟩
    · rintro ⟨len, hlen, rfl⟩
      exact ⟨_, ⟨len, hlen, rfl⟩, rfl⟩
  have hkeys : tensors.NodupKeys := by
    have hids := hall.map_eq_map (f := TensorSpec.id) (g := Sigma.fst) fun spec e he => by
      obtain ⟨len, -, rfl⟩ := (hspec spec e).mp he
      rfl
    rw [List.NodupKeys, List.keys, ← hids]
    exact plan.nodup_tensors
  rw [AList.lookup_to_alist, ← Option.mem_def, List.mem_dlookup_iff hkeys]
  constructor
  · intro hm
    obtain ⟨spec, hspec', he⟩ := hall.exists_of_mem_right hm
    obtain ⟨len, hlen, he⟩ := (hspec spec _).mp he
    cases he
    exact ⟨spec, hspec', rfl, len, hlen, rfl⟩
  · rintro ⟨spec, hspec', rfl, len, hlen, rfl⟩
    obtain ⟨e, he, hbuilt⟩ := hall.exists_of_mem_left hspec'
    obtain ⟨len', hlen', rfl⟩ := (hspec spec e).mp hbuilt
    obtain rfl : len = len' := Option.some.inj (hlen.symm.trans hlen')
    exact he

/-- So does one of hollow tensors, at those of its nodes. -/
theorem buildHollow_within (plan : RunSpec) (d : Nat) (site : Site B) :
    Keeps (Within (fun _ => False) (site.addresses plan)) (plan.buildHollow d site) := by
  have hF := frame_within (B := B) (fun _ => False) (site.addresses plan)
  refine hF.lift_bind fun _ => hF.check_bind fun tensors htensors =>
    withTensors_within d ?_ fun _ ha => ha
  intro p hp
  obtain ⟨id, hid⟩ := AList.mem_values.mp hp
  obtain ⟨_, -, -, _, -, ht⟩ := (hollowTensors_lookup htensors).mp hid
  cases ht

end Frames

/-! ## What it makes -/

section Made

variable {σ ε : Type}

/-- What each call leaves true of its own thing, and the others don't undo,
holds of all of them in the end. -/
theorem buildAll_ok {Q : Nat → σ → Prop} {order : List Nat → List Nat} {drop : Nat → Call σ ε Unit}
    {made : List Nat} {l : List (Nat × Call σ ε Unit)} {s t : σ} (hl : (l.map Prod.fst).Nodup)
    (hmakes : ∀ x ∈ l, ∀ s t, x.2 s = (.ok (), t) → Q x.1 t)
    (hleaves : ∀ x ∈ l, ∀ y ∈ l, y.1 ≠ x.1 → ∀ s t, x.2 s = (.ok (), t) → Q y.1 s → Q y.1 t)
    (h : buildAll order drop made l s = (.ok (), t)) : ∀ x ∈ l, Q x.1 t := by
  -- the things made already are carried along
  suffices hall : ∀ done : List (Nat × Call σ ε Unit), ((done ++ l).map Prod.fst).Nodup →
      (∀ x ∈ done ++ l, ∀ s t, x.2 s = (.ok (), t) → Q x.1 t) →
      (∀ x ∈ done ++ l, ∀ y ∈ done ++ l, y.1 ≠ x.1 → ∀ s t, x.2 s = (.ok (), t) →
        Q y.1 s → Q y.1 t) → (∀ x ∈ done, Q x.1 s) → ∀ x ∈ done ++ l, Q x.1 t from
    hall [] hl hmakes hleaves nofun
  clear hl hmakes hleaves
  induction l generalizing made s with
  | nil =>
    intro done _ _ _ hdone
    cases h
    simpa using hdone
  | cons x rest ih =>
    intro done hnodup hmakes hleaves hdone
    obtain ⟨_, s', hx, hrest⟩ := bind_eq_ok.mp h
    rw [orDrop_eq_ok] at hx
    have happend : done ++ x :: rest = (done ++ [x]) ++ rest := by simp
    rw [happend] at hnodup hmakes hleaves ⊢
    have hmem : x ∈ (done ++ [x]) ++ rest := by simp
    refine ih hrest (done ++ [x]) hnodup hmakes hleaves fun y hy => ?_
    rcases List.mem_append.mp hy with hy | hy
    · refine hleaves x hmem y (by simp [hy]) ?_ s s' hx (hdone y hy)
      -- two things have two ids
      rw [List.append_assoc, List.map_append] at hnodup
      exact List.disjoint_of_nodup_append hnodup (List.mem_map_of_mem hy) ∘
        fun he => he ▸ List.mem_map_of_mem (by simp)
    · obtain rfl := List.mem_singleton.mp hy
      exact hmakes y hmem s s' hx

end Made

/-- A node as its spec builds it. -/
structure BuiltNode (spec : NodeSpec) (d : Nat) (node : Node B) : Prop where
  dev : node.dev = d
  metaVals : spec.metaSources.mapM MetaSource.buildValue = .ok node.metaVals
  raw : ∃ words wg raw raw', metaWords spec.shader.signature node.metaVals = .ok words ∧
    Dispatch.buildNode spec.shader words wg raw = (.ok node.raw, raw') ∧
    node.lens = minLens spec.shader.signature words wg

omit [Capturable B] [Areable B] in
theorem BuiltNode.agrees [LawfulDispatch B] {spec : NodeSpec} {d : Nat} {node : Node B}
    (h : BuiltNode spec d node) : node.Agrees := by
  obtain ⟨words, wg, raw, raw', hwords, hraw, hlens⟩ := h.raw
  rcases node with ⟨rawNode, lens, metaVals, dev, uid⟩
  obtain rfl : lens = _ := hlens
  exact agrees_of_build hwords hraw

omit [Capturable B] [Areable B] in
theorem BuiltNode.signature [LawfulDispatch B] {spec : NodeSpec} {d : Nat} {node : Node B}
    (h : BuiltNode spec d node) : node.signature = spec.shader.signature := by
  obtain ⟨words, wg, raw, raw', -, hraw, -⟩ := h.raw
  exact (LawfulDispatch.buildNode_spec hraw).1

/-- The nodes of a plan, where its site puts them. -/
def NodesBuilt (plan : RunSpec) (d : Nat) (site : Site B) (w : World B) : Prop :=
  ∀ spec ∈ plan.calls, ∃ node, w.nodes.lookup (site.address spec.id) = some node ∧
    BuiltNode spec.node d node

/-- A tensor as its spec builds it. -/
structure BuiltTensor (spec : TensorSpec) (d : Nat) (t : Tensor B) : Prop where
  dev : t.dev = d
  kind : t.kind = spec.kind
  len : ∃ len, spec.len = some len ∧ t.len = wholeWords spec.kind len

/-- The tensors of a plan, where its site puts them. -/
def TensorsBuilt (plan : RunSpec) (d : Nat) (site : Site B) (w : World B) : Prop :=
  ∀ spec ∈ plan.tensors, ∃ t, w.tensors.lookup (site.place spec.id) = some t ∧
    BuiltTensor spec d t

/-- The run built of a plan around these tensors. -/
def builtRun (plan : RunSpec) (d : Nat) (site : Site B) (tensors : Places AnyTensor) : Run :=
  { device := d
    tensors
    calls := builtCalls plan site
    order := plan.calls.map CallSpec.id }

section Built

variable [Topology B] {plan : RunSpec} {site : Site B} {d : Nat} {w₀ w w' : World B} {run : Run}
  {tensors : Places AnyTensor}

theorem nodeBuild_ok {spec : NodeSpec} {a : Nat}
    (h : spec.build d a w = (.ok (), w')) :
    ∃ node, w'.nodes.lookup a = some node ∧ BuiltNode spec d node := by
  rw [NodeSpec.build, check_eq_ok] at h
  obtain ⟨vals, hvals, h⟩ := h
  rw [check_eq_ok] at h
  obtain ⟨wg, -, h⟩ := h
  rw [buildNode_run] at h
  rcases hnode : ComputeDevice.node d w.nextUid spec.shader vals wg (w.devices d) with
    ⟨node | e | _, dev⟩ <;> rw [hnode] at h <;> cases h
  refine ⟨node, AList.lookup_insert _, ?_⟩
  obtain ⟨words, raw, hwords, hraw, -, rfl⟩ := deviceNode_ok hnode
  exact ⟨rfl, hvals, words, wg, _, _, hwords, hraw, rfl⟩

/-- What each node of a plan is once all are built. -/
theorem buildNodes_ok (hv : Session.NodesVacant w₀ plan site) {Q : NodeSpec → Node B → Prop}
    (hQ : ∀ spec a w w', NodeSpec.build spec d a w = (.ok (), w') →
      ∃ node, w'.nodes.lookup a = some node ∧ Q spec node) {drop : Nat → Call (World B) Error Unit}
    (h : buildAll site.order drop []
      (plan.calls.map fun spec => (spec.id, spec.node.build d (site.address spec.id))) w =
        (.ok (), w')) :
    ∀ spec ∈ plan.calls, ∃ node, w'.nodes.lookup (site.address spec.id) = some node ∧
      Q spec.node node := by
  have hall := buildAll_ok (Q := fun id w => ∀ spec ∈ plan.calls, spec.id = id →
    ∃ node, w.nodes.lookup (site.address id) = some node ∧ Q spec.node node) ?_ ?_ ?_ h
  · exact fun spec hspec => hall _ (List.mem_map_of_mem hspec) spec hspec rfl
  · rw [List.map_map]
    exact plan.nodup_calls
  · intro x hx s t hbuild spec hspec hid
    obtain ⟨spec', hspec', rfl⟩ := List.mem_map.mp hx
    obtain rfl := List.inj_on_of_nodup_map plan.nodup_calls hspec hspec' hid
    exact hQ _ _ s t hbuild
  · intro x hx y hy hne s t hbuild hQ spec hspec hid
    obtain ⟨built, hbuilt, rfl⟩ := List.mem_map.mp hx
    obtain ⟨other, hother, rfl⟩ := List.mem_map.mp hy
    obtain ⟨node, hnode, hspecNode⟩ := hQ spec hspec hid
    refine ⟨node, ?_, hspecNode⟩
    -- another node stands at another address
    have hwithin := nodeBuild_within (P := fun _ => False)
      (A := fun a => a = site.address built.id) rfl built.node d s
    rw [hbuild] at hwithin
    rw [hwithin.nodes _ fun he => ?_, hnode]
    obtain rfl := List.inj_on_of_nodup_map hv.addresses hother hbuilt he
    exact hne rfl

/-- Building nodes moves no tensor. -/
theorem buildNodes_tensors
    (h : buildAll site.order (fun id => World.dropNode (site.address id)) []
      (plan.calls.map fun spec => (spec.id, spec.node.build d (site.address spec.id))) w =
        (.ok (), w')) (p : Nat) : w'.tensors.lookup p = w.tensors.lookup p := by
  have hkeeps : Keeps (Within (fun _ => False) (site.addresses plan))
      (buildAll site.order (fun id => World.dropNode (site.address id)) []
        (plan.calls.map fun spec =>
          (spec.id, (spec.node.build d (site.address spec.id) : Call (World B) Error Unit)))) := by
    refine buildAll_keeps (frame_within (fun _ => False) (site.addresses plan)) site.perm ?_ ?_
    · intro x hx
      obtain ⟨spec, hspec, rfl⟩ := List.mem_map.mp hx
      exact nodeBuild_within ⟨spec, hspec, rfl⟩ _ _
    · intro id hid
      simp only [List.map_map, List.nil_append, List.mem_map] at hid
      obtain ⟨spec, hspec, rfl⟩ := hid
      exact dropNode_within ⟨spec, hspec, rfl⟩
  have hwithin := hkeeps w
  rw [h] at hwithin
  exact hwithin.tensors p not_false

theorem withTensors_ok (hv : Session.NodesVacant w₀ plan site)
    (h : Run.withTensors plan d site tensors w = (.ok run, w')) :
    run = builtRun plan d site tensors ∧ (∀ p, w'.tensors.lookup p = w.tensors.lookup p) ∧
      NodesBuilt plan d site w' ∧
      run.longEnough w' (site.order run.calls.keys) = .ok () := by
  obtain ⟨_, w₁, hnodes, h⟩ := bind_eq_ok.mp h
  obtain ⟨_, w₂, hchecked, h⟩ := bind_eq_ok.mp h
  rw [orDrop_eq_ok] at hnodes hchecked
  cases h
  rw [bind_of_ok (get_run w₁), lift_run] at hchecked
  obtain ⟨hlong, rfl⟩ := Prod.mk.inj hchecked
  exact ⟨rfl, buildNodes_tensors hnodes,
    buildNodes_ok hv (fun _ _ _ _ => nodeBuild_ok) hnodes, hlong⟩

theorem tensorBuild_ok {spec : TensorSpec} {env : Storage.Env B} {p : Nat}
    (h : spec.build d env p w = (.ok (), w')) :
    ∃ t, w'.tensors.lookup p = some t ∧ BuiltTensor spec d t := by
  rw [TensorSpec.build, check_eq_ok] at h
  obtain ⟨_, -, h⟩ := h
  rw [check_eq_ok] at h
  obtain ⟨len, hlen, h⟩ := h
  obtain ⟨_, w₁, halloc, hfill⟩ := bind_eq_ok.mp h
  have hstands : ∃ t, w₁.tensors.lookup p = some t ∧ BuiltTensor spec d t := by
    rw [alloc_run] at halloc
    rcases ht : ComputeDevice.alloc d env spec.kind len (w.devices d) with
      ⟨t | e | _, dev⟩ <;> rw [ht] at halloc <;> cases halloc
    obtain ⟨buf, rfl, -⟩ := deviceAlloc_ok ht
    exact ⟨_, AList.lookup_insert _, rfl, rfl, len, Outcome.okOr_eq_ok.mp hlen, rfl⟩
  obtain ⟨t, ht, hbuilt⟩ := hstands
  refine ⟨t, ?_, hbuilt⟩
  -- what fills it works on the device only
  have hwithin := fill_within (P := fun _ => False) (A := fun _ => False) spec p w₁
  rw [orDrop_eq_ok] at hfill
  rw [hfill] at hwithin
  exact (hwithin.tensors p not_false).trans ht

/-- What each tensor of a plan is once all are built. -/
theorem buildTensors_ok (hv : Session.Vacant w₀ plan site) {drop : Nat → Call (World B) Error Unit}
    (h : buildAll site.order drop [] (plan.tensors.map fun spec =>
      (spec.id, spec.build d (site.env spec.id) (site.place spec.id))) w = (.ok (), w')) :
    TensorsBuilt plan d site w' := by
  have hall := buildAll_ok (Q := fun id w => ∀ spec ∈ plan.tensors, spec.id = id →
    ∃ t, w.tensors.lookup (site.place id) = some t ∧ BuiltTensor spec d t) ?_ ?_ ?_ h
  · exact fun spec hspec => hall _ (List.mem_map_of_mem hspec) spec hspec rfl
  · rw [List.map_map]
    exact plan.nodup_tensors
  · intro x hx s t hbuild spec hspec hid
    obtain ⟨spec', hspec', rfl⟩ := List.mem_map.mp hx
    obtain rfl := List.inj_on_of_nodup_map plan.nodup_tensors hspec hspec' hid
    exact tensorBuild_ok hbuild
  · intro x hx y hy hne s t hbuild hQ spec hspec hid
    obtain ⟨built, hbuilt, rfl⟩ := List.mem_map.mp hx
    obtain ⟨other, hother, rfl⟩ := List.mem_map.mp hy
    obtain ⟨tensor, htensor, hspecTensor⟩ := hQ spec hspec hid
    refine ⟨tensor, ?_, hspecTensor⟩
    have hwithin := tensorBuild_within (P := fun p => p = site.place built.id)
      (A := fun _ => False) rfl built d (site.env built.id) s
    rw [hbuild] at hwithin
    rw [hwithin.tensors _ fun he => ?_, htensor]
    obtain rfl := List.inj_on_of_nodup_map hv.places hother hbuilt he
    exact hne rfl

/-- **A plan that is built** has its tensors and nodes where its site says. -/
theorem build_ok (hv : Session.Vacant w₀ plan site)
    (h : plan.build d site w = (.ok run, w')) :
    run = builtRun plan d site (builtTensors plan site) ∧ NodesBuilt plan d site w' ∧
      TensorsBuilt plan d site w' ∧ run.longEnough w' (site.order run.calls.keys) = .ok () := by
  rw [RunSpec.build, check_eq_ok] at h
  obtain ⟨_, -, h⟩ := h
  obtain ⟨_, w₁, htensors, h⟩ := bind_eq_ok.mp h
  obtain ⟨rfl, hsame, hnodes, hlong⟩ := withTensors_ok hv.toNodesVacant h
  refine ⟨rfl, hnodes, fun spec hspec => ?_, hlong⟩
  rw [hsame]
  exact buildTensors_ok hv htensors spec hspec

theorem buildHollow_ok (hv : Session.NodesVacant w₀ plan site)
    (h : plan.buildHollow d site w = (.ok run, w')) :
    ∃ tensors, Run.hollowTensors plan = .ok tensors ∧
      run = builtRun plan d site tensors.toAList ∧ NodesBuilt plan d site w' ∧
      run.longEnough w' (site.order run.calls.keys) = .ok () := by
  rw [RunSpec.buildHollow, check_eq_ok] at h
  obtain ⟨_, -, h⟩ := h
  rw [Run.buildHollow, check_eq_ok] at h
  obtain ⟨tensors, htensors, h⟩ := h
  obtain ⟨rfl, -, hnodes, hlong⟩ := withTensors_ok hv h
  exact ⟨tensors, htensors, rfl, hnodes, hlong⟩

end Built

end Wilupgu.Plan
