import Wilupgu.Safe.Frame
import Wilupgu.Safe.Spec

/-! # References stay good

What is bound in an open scope stays where it is and on the scope's device,
whatever the program does meanwhile, and a carved tensor's area outlives it.
So no call ever follows a reference to nothing. -/

namespace Wilupgu

open Backend Call

variable {B : Type} [Storage B] [Dispatch B] [Capturable B] [Areable B] {w w' : World B}

/-- **What every world a program gets to satisfies.** -/
structure World.Valid (w : World B) : Prop where
  bufs : ∀ s scope, w.scopes.lookup s = some scope → ∀ p ∈ scope.bufs,
    ∃ t, w.tensors.lookup p = some t ∧ t.dev = scope.dev
  nodes : ∀ s scope, w.scopes.lookup s = some scope → ∀ a ∈ scope.nodes,
    ∃ node, w.nodes.lookup a = some node ∧ node.dev = scope.dev
  bufs_nodup : ∀ s scope, w.scopes.lookup s = some scope → scope.bufs.Nodup
  nodes_nodup : ∀ s scope, w.scopes.lookup s = some scope → scope.nodes.Nodup
  inCapture : ∀ s scope, w.scopes.lookup s = some scope → scope.inCapture = true →
    scope.recording.isSome = true
  carved : ∀ p t a buf, w.tensors.lookup p = some t → t.mem = .Carved a buf →
    ∃ area, w.areas.lookup a = some area ∧ area.dev = t.dev

/-! ## Bound things stay -/

theorem TensorAct.lookup_bound [Topology B] {a : TensorAct B} (ha : a.Allowed w) {p : Nat}
    (hb : w.TensorBound p) (hp : p ∈ w.tensors) :
    (a.run w).2.tensors.lookup p = w.tensors.lookup p := by
  have hfree : ∀ q, w.tensors.Free q → p ≠ q := by
    rintro q hq rfl
    exact AList.free_iff.mp hq hp
  have hheld : ∀ q, w.HoldsTensor q → p ≠ q := by
    rintro q hq rfl
    exact hq.2 hb
  cases a with
  | alloc d env q kind len =>
    rw [TensorAct.run, silent_world, alloc_run]
    split
    · exact AList.lookup_insert_ne (hfree q ha)
    · rfl
    · rfl
  | reserve d env a bytes => rfl
  | carve a q kind len =>
    obtain ⟨area, harea⟩ := exists_of_mem ha.1
    rw [TensorAct.run, silent_world, carve_run harea]
    split
    · exact AList.lookup_insert_ne (hfree q ha.2)
    · rfl
    · rfl
  | dropArea a =>
    obtain ⟨area, harea⟩ := exists_of_mem ha.1
    rw [TensorAct.run, silent_world, dropArea_run harea]
    rfl
  | dropTensor q =>
    obtain ⟨t, ht⟩ := exists_of_mem ha.1
    rw [TensorAct.run, silent_world, dropTensor_run ht]
    exact AList.lookup_erase_ne (hheld q ha)
  | moveTensor q q' =>
    obtain ⟨t, ht⟩ := exists_of_mem ha.1.1
    change (w.tensors.move q q').lookup p = _
    rw [AList.lookup_move ht, if_neg (hfree q' ha.2), if_neg (hheld q ha.1)]
  | replaceTensor q q' =>
    obtain ⟨t, ht⟩ := exists_of_mem ha.2.1.1
    obtain ⟨t', ht'⟩ := exists_of_mem ha.2.2.1
    rw [TensorAct.run, silent_world, replaceTensor_run ht ht']
    split
    · exact (AList.lookup_swap ht ht' p).trans
        (by rw [if_neg (hheld q' ha.2.2), if_neg (hheld q ha.2.1)])
    · rfl
    · rfl

omit [Capturable B] [Areable B] in
/-- Updating a node's meta leaves it the node it is. -/
theorem nodeUpdateMeta_same (metaVals : List MetaValue) (s : ComputeDevice B × Node B) :
    (Node.updateMeta metaVals s).2.2.dev = s.2.dev ∧
      (Node.updateMeta metaVals s).2.2.uid = s.2.uid := by
  have hF : Frame fun s t : ComputeDevice B × Node B => t.2.dev = s.2.dev ∧ t.2.uid = s.2.uid :=
    (frame_eq fun s : ComputeDevice B × Node B => s.2.dev).and
      (frame_eq fun s : ComputeDevice B × Node B => s.2.uid)
  have h : Keeps (fun s t : ComputeDevice B × Node B => t.2.dev = s.2.dev ∧ t.2.uid = s.2.uid)
      (Node.updateMeta metaVals) :=
    hF.get_bind fun _ => hF.lift_bind fun _ => hF.bind (keeps_modify fun _ => ⟨rfl, rfl⟩) fun _ =>
      hF.get_bind fun _ => hF.bind (fun _ => ⟨rfl, rfl⟩) fun _ => keeps_modify fun _ => ⟨rfl, rfl⟩
  exact h s

theorem updateMeta_lookup {a b : Nat} {node node' : Node B} (h : w.nodes.lookup a = some node)
    (h' : w.nodes.lookup b = some node') (metaVals : List MetaValue) :
    ∃ node'', (World.updateMeta a metaVals w).2.nodes.lookup b = some node'' ∧
      node''.dev = node'.dev ∧ node''.uid = node'.uid := by
  rw [updateMeta_run h]
  simp only [World.setNodes_nodes, AList.lookup_insert_eq]
  by_cases hb : b = a
  · subst hb
    obtain rfl : node = node' := Option.some.inj (h.symm.trans h')
    rw [if_pos rfl]
    exact ⟨_, rfl, nodeUpdateMeta_same metaVals (w.devices node.dev, node)⟩
  · rw [if_neg hb]
    exact ⟨node', h', rfl, rfl⟩

/-- A bound node stays, updated at most. -/
theorem NodeAct.lookup_bound [Topology B] {a : NodeAct} (ha : a.Allowed w) (hw : w.Valid) {b : Nat}
    {node : Node B} (hb : w.NodeBound b) (hn : w.nodes.lookup b = some node) :
    ∃ node', (a.run w).2.nodes.lookup b = some node' ∧ node'.dev = node.dev ∧
      node'.uid = node.uid := by
  have hfree : ∀ c, w.nodes.Free c → b ≠ c := by
    rintro c hc rfl
    rw [AList.Free, hn] at hc
    cases hc
  have hheld : ∀ c, w.HoldsNode c → b ≠ c := by
    rintro c hc rfl
    exact hc.2 hb
  have kept : (a.run w).2.nodes.lookup b = w.nodes.lookup b → ∃ node',
      (a.run w).2.nodes.lookup b = some node' ∧ node'.dev = node.dev ∧ node'.uid = node.uid :=
    fun h => ⟨node, h.trans hn, rfl, rfl⟩
  cases a with
  | build d c shader vals wg =>
    refine kept ?_
    rw [NodeAct.run, silent_world, buildNode_run]
    split
    · exact AList.lookup_insert_ne (hfree c ha)
    · rfl
    · rfl
  | dropNode c =>
    obtain ⟨node', hn'⟩ := exists_of_mem ha.1
    refine kept ?_
    rw [NodeAct.run, silent_world, dropNode_run hn']
    exact AList.lookup_erase_ne (hheld c ha)
  | moveNode c c' =>
    obtain ⟨node', hn'⟩ := exists_of_mem ha.1.1
    refine kept ?_
    change (w.nodes.move c c').lookup b = _
    rw [AList.lookup_move hn', if_neg (hfree c' ha.2), if_neg (hheld c ha.1)]
  | replaceNode c c' =>
    obtain ⟨node', hn'⟩ := exists_of_mem ha.2.1.1
    obtain ⟨node'', hn''⟩ := exists_of_mem ha.2.2.1
    refine kept ?_
    rw [NodeAct.run, silent_world, replaceNode_run hn' hn'']
    split
    · exact (AList.lookup_swap hn' hn'' b).trans
        (by rw [if_neg (hheld c' ha.2.2), if_neg (hheld c ha.2.1)])
    · rfl
    · rfl
  | updateMeta c vals =>
    obtain ⟨node', hn'⟩ := exists_of_mem ha.1
    rw [NodeAct.run, silent_world]
    exact updateMeta_lookup hn' hn vals
  | scopeUpdateMeta s i vals =>
    obtain ⟨scope, hs, hi⟩ := ha
    obtain ⟨node', hn', -⟩ := hw.nodes s scope hs _ (List.getElem_mem hi)
    rw [NodeAct.run, silent_world,
      scopeUpdateMeta_run hs (boundNode_eq_ok.mpr ⟨List.getElem?_eq_getElem hi, hn'⟩)]
    exact updateMeta_lookup hn' hn vals

/-! ## Areas outlive what is cut out of them -/

theorem TensorAct.carved [Topology B] {a : TensorAct B} (ha : a.Allowed w) (hw : w.Valid)
    {p : Nat} {t : Tensor B} {key : Nat} {buf : Storage.Buffer B}
    (ht : (a.run w).2.tensors.lookup p = some t) (hm : t.mem = .Carved key buf) :
    ∃ area, (a.run w).2.areas.lookup key = some area ∧ area.dev = t.dev := by
  cases a with
  | alloc d env q kind len =>
    rw [TensorAct.run, silent_world, alloc_run] at ht ⊢
    split at ht
    · rename_i t' dev h
      simp only [World.setTensors_tensors, AList.lookup_insert_eq] at ht
      split at ht
      · obtain ⟨buf', rfl, -⟩ := deviceAlloc_ok h
        cases ht
        cases hm
      · exact hw.carved p t key buf ht hm
    · exact hw.carved p t key buf ht hm
    · exact hw.carved p t key buf ht hm
  | reserve d env a bytes =>
    obtain ⟨area, harea, hdev⟩ := hw.carved p t key buf ht hm
    refine ⟨area, (AList.lookup_insert_ne ?_).trans harea, hdev⟩
    rintro rfl
    rw [TensorAct.Allowed, AList.Free, harea] at ha
    cases ha
  | carve a q kind len =>
    obtain ⟨area, harea⟩ := exists_of_mem ha.1
    rw [TensorAct.run, silent_world, carve_run harea] at ht ⊢
    split at ht
    · rename_i t' area' dev h
      obtain ⟨buf', raw', rfl, rfl, -⟩ := areaAlloc_ok h
      simp only [World.setAreas_tensors, World.setTensors_tensors, AList.lookup_insert_eq] at ht
      simp only [World.setAreas_areas, AList.lookup_insert_eq]
      split at ht
      · cases ht
        cases hm
        exact ⟨_, if_pos rfl, rfl⟩
      · obtain ⟨area', harea', hdev⟩ := hw.carved p t key buf ht hm
        split
        · subst key
          obtain rfl : area = area' := Option.some.inj (harea.symm.trans harea')
          exact ⟨_, rfl, hdev⟩
        · exact ⟨area', harea', hdev⟩
    · exact hw.carved p t key buf ht hm
    · exact hw.carved p t key buf ht hm
  | dropArea a =>
    obtain ⟨area, harea⟩ := exists_of_mem ha.1
    rw [TensorAct.run, silent_world, dropArea_run harea] at ht ⊢
    obtain ⟨area', harea', hdev⟩ := hw.carved p t key buf ht hm
    refine ⟨area', (AList.lookup_erase_ne ?_).trans harea', hdev⟩
    rintro rfl
    exact ha.2 ⟨t, AList.mem_values.mpr ⟨p, ht⟩, buf, hm⟩
  | dropTensor q =>
    obtain ⟨t', ht'⟩ := exists_of_mem ha.1
    rw [TensorAct.run, silent_world, dropTensor_run ht'] at ht ⊢
    simp only [World.setDevice_tensors, World.setTensors_tensors, AList.lookup_erase_eq] at ht
    split at ht
    · cases ht
    · exact hw.carved p t key buf ht hm
  | moveTensor q q' =>
    obtain ⟨t', ht'⟩ := exists_of_mem ha.1.1
    change (w.tensors.move q q').lookup p = some t at ht
    rw [AList.lookup_move ht'] at ht
    split at ht
    · cases ht
      exact hw.carved q t key buf ht' hm
    · split at ht
      · cases ht
      · exact hw.carved p t key buf ht hm
  | replaceTensor q q' =>
    obtain ⟨t₁, ht₁⟩ := exists_of_mem ha.2.1.1
    obtain ⟨t₂, ht₂⟩ := exists_of_mem ha.2.2.1
    rw [TensorAct.run, silent_world, replaceTensor_run ht₁ ht₂] at ht ⊢
    split at ht
    · rw [World.setTensors_tensors, AList.lookup_swap ht₁ ht₂] at ht
      split at ht
      · cases ht
        exact hw.carved q t key buf ht₁ hm
      · split at ht
        · cases ht
          exact hw.carved q' t key buf ht₂ hm
        · exact hw.carved p t key buf ht hm
    · exact hw.carved p t key buf ht hm
    · exact hw.carved p t key buf ht hm

/-! ## Scopes -/

/-- A run changes at most what a scope records, and whether it does. -/
def Scope.SameBindings (scope scope' : Scope) : Prop :=
  scope'.dev = scope.dev ∧ scope'.bufs = scope.bufs ∧ scope'.nodes = scope.nodes

theorem RunAct.scopes {a : RunAct} (ha : a.Allowed w) (hw : w.Valid) {s : Nat} {scope' : Scope}
    (hs : (a.run w).2.scopes.lookup s = some scope') : ∃ scope, w.scopes.lookup s = some scope ∧
      scope.SameBindings scope' ∧ (scope'.inCapture = true → scope'.recording.isSome = true) := by
  have kept : w.scopes.lookup s = some scope' → ∃ scope, w.scopes.lookup s = some scope ∧
      scope.SameBindings scope' ∧ (scope'.inCapture = true → scope'.recording.isSome = true) :=
    fun h => ⟨scope', h, ⟨rfl, rfl, rfl⟩, hw.inCapture s scope' h⟩
  have set : ∀ {s' scope₀ scope₁}, w.scopes.lookup s' = some scope₀ →
      (w.scopes.insert s' scope₁).lookup s = some scope' → scope₀.SameBindings scope₁ →
      (scope₁.inCapture = true → scope₁.recording.isSome = true) →
      ∃ scope, w.scopes.lookup s = some scope ∧ scope.SameBindings scope' ∧
        (scope'.inCapture = true → scope'.recording.isSome = true) := by
    intro s' scope₀ scope₁ h₀ h hb hc
    rw [AList.lookup_insert_eq] at h
    split at h
    · subst s
      cases h
      exact ⟨scope₀, h₀, hb, hc⟩
    · exact kept h
  cases a with
  | execute s' n args =>
    obtain ⟨scope, hscope, hn, -⟩ := ha
    obtain ⟨node, hnode, -⟩ := hw.nodes s' scope hscope _ (List.getElem_mem hn)
    rw [RunAct.run, silent_world,
      execute_run hscope (boundNode_eq_ok.mpr ⟨List.getElem?_eq_getElem hn, hnode⟩)] at hs
    split at hs
    · split at hs
      · unfold Scope.executed at hs
        simp only at hs
        split at hs
        · exact set hscope hs ⟨rfl, rfl, rfl⟩ fun _ => rfl
        · exact kept hs
      · exact kept hs
      · exact kept hs
    · exact kept hs
    · exact kept hs
  | beginCapture s' =>
    obtain ⟨scope, hscope⟩ := exists_of_mem ha
    rw [RunAct.run, silent_world, beginCapture_run hscope] at hs
    split at hs
    · exact kept hs
    · simp only at hs
      split at hs
      · simp only [World.setScope_scopes, World.setDevice_scopes, AList.insert_insert] at hs
        exact set hscope hs ⟨rfl, rfl, rfl⟩ fun _ => rfl
      · exact set hscope hs ⟨rfl, rfl, rfl⟩ fun _ => rfl
  | endCapture s' r result =>
    obtain ⟨⟨scope, hscope, hc⟩, -⟩ := ha
    obtain ⟨calls, hcalls⟩ := Option.isSome_iff_exists.mp (hw.inCapture s' scope hscope hc)
    rw [RunAct.run, silent_world, endCapture_run hscope hcalls] at hs
    simp only at hs
    split at hs <;> exact set hscope hs ⟨rfl, rfl, rfl⟩ nofun
  | unwindCapture s' =>
    obtain ⟨scope, hscope, -⟩ := ha
    rw [RunAct.run, silent_world, unwindCapture_run hscope] at hs
    simp only at hs
    split at hs <;> exact set hscope hs ⟨rfl, rfl, rfl⟩ nofun
  | replay s' r =>
    obtain ⟨scope, hscope⟩ := exists_of_mem ha.1
    obtain ⟨recording, hr⟩ := exists_of_mem ha.2
    rw [RunAct.run, silent_world, replay_run hscope hr] at hs
    split at hs <;> exact kept hs
  | dropRecording r =>
    obtain ⟨recording, hr⟩ := exists_of_mem ha
    rw [RunAct.run, silent_world, dropRecording_run hr] at hs
    exact kept hs

/-- What binding, opening and closing leaves true of every scope. -/
theorem ScopeAct.valid {a : ScopeAct} (ha : a.Allowed w) (hw : w.Valid) {s : Nat} {scope' : Scope}
    (hs : (a.run w).2.scopes.lookup s = some scope') :
    (∀ p ∈ scope'.bufs, ∃ t, w.tensors.lookup p = some t ∧ t.dev = scope'.dev) ∧
      (∀ b ∈ scope'.nodes, ∃ node, w.nodes.lookup b = some node ∧ node.dev = scope'.dev) ∧
      scope'.bufs.Nodup ∧ scope'.nodes.Nodup ∧
      (scope'.inCapture = true → scope'.recording.isSome = true) := by
  have kept : ∀ {s}, w.scopes.lookup s = some scope' → _ := fun {s} h =>
    (⟨hw.bufs s scope' h, hw.nodes s scope' h, hw.bufs_nodup s scope' h, hw.nodes_nodup s scope' h,
      hw.inCapture s scope' h⟩ :
      (∀ p ∈ scope'.bufs, ∃ t, w.tensors.lookup p = some t ∧ t.dev = scope'.dev) ∧
      (∀ b ∈ scope'.nodes, ∃ node, w.nodes.lookup b = some node ∧ node.dev = scope'.dev) ∧
      scope'.bufs.Nodup ∧ scope'.nodes.Nodup ∧
      (scope'.inCapture = true → scope'.recording.isSome = true))
  cases a with
  | openOn s' d =>
    change (w.scopes.insert s' _).lookup s = _ at hs
    rw [AList.lookup_insert_eq] at hs
    split at hs
    · cases hs
      exact ⟨nofun, nofun, .nil, .nil, nofun⟩
    · exact kept hs
  | close s' =>
    obtain ⟨scope, hscope, -⟩ := ha
    rw [ScopeAct.run, silent_world, close_run hscope] at hs
    simp only [World.setDevice_scopes, World.setScopes_scopes, AList.lookup_erase_eq] at hs
    split at hs
    · cases hs
    · exact kept hs
  | bind s' p =>
    obtain ⟨hs', hp, hfree⟩ := ha
    obtain ⟨scope, hscope⟩ := exists_of_mem hs'
    obtain ⟨t, ht⟩ := exists_of_mem hp
    rw [ScopeAct.run, giving!_world, scopeBind_run hscope ht] at hs
    split at hs
    · rename_i hdev
      simp only [World.setScope_scopes, AList.lookup_insert_eq] at hs
      split at hs
      · cases hs
        refine ⟨fun q hq => ?_, hw.nodes s' scope hscope, ?_, hw.nodes_nodup s' scope hscope,
          hw.inCapture s' scope hscope⟩
        · rcases List.mem_append.mp hq with hq | hq
          · exact hw.bufs s' scope hscope q hq
          · obtain rfl := List.mem_singleton.mp hq
            exact ⟨t, ht, hdev.symm⟩
        · refine (hw.bufs_nodup s' scope hscope).append (List.nodup_singleton p) ?_
          rintro q hq hq'
          obtain rfl := List.mem_singleton.mp hq'
          exact hfree ⟨scope, AList.mem_values.mpr ⟨s', hscope⟩, hq⟩
      · exact kept hs
    · exact kept hs
  | bindNode s' b =>
    obtain ⟨hs', hb, hfree⟩ := ha
    obtain ⟨scope, hscope⟩ := exists_of_mem hs'
    obtain ⟨node, hn⟩ := exists_of_mem hb
    rw [ScopeAct.run, giving!_world, scopeBindNode_run hscope hn] at hs
    split at hs
    · rename_i hdev
      simp only [World.setScope_scopes, AList.lookup_insert_eq] at hs
      split at hs
      · cases hs
        refine ⟨hw.bufs s' scope hscope, fun c hc => ?_, hw.bufs_nodup s' scope hscope, ?_,
          hw.inCapture s' scope hscope⟩
        · rcases List.mem_append.mp hc with hc | hc
          · exact hw.nodes s' scope hscope c hc
          · obtain rfl := List.mem_singleton.mp hc
            exact ⟨node, hn, hdev.symm⟩
        · refine (hw.nodes_nodup s' scope hscope).append (List.nodup_singleton b) ?_
          rintro c hc hc'
          obtain rfl := List.mem_singleton.mp hc'
          exact hfree ⟨scope, AList.mem_values.mpr ⟨s', hscope⟩, hc⟩
      · exact kept hs
    · exact kept hs

/-! ## Every step, every run -/

section Runs

variable [Topology B] {e : Event B}

omit [Topology B] in
theorem World.Valid.init (raws : Nat → B) (poolBytes : Nat → Nat) :
    (World.init raws poolBytes).Valid where
  bufs _ _ h := by cases h
  nodes _ _ h := by cases h
  bufs_nodup _ _ h := by cases h
  nodes_nodup _ _ h := by cases h
  inCapture _ _ h := by cases h
  carved _ _ _ _ h := by cases h

omit [Topology B] in
/-- Where the scopes stay, it is enough that what is bound stays. -/
theorem World.Valid.of_scopes (hw : w.Valid) (hs : w'.scopes = w.scopes)
    (ht : ∀ p, w.TensorBound p → ∀ t, w.tensors.lookup p = some t →
      ∃ t', w'.tensors.lookup p = some t' ∧ t'.dev = t.dev)
    (hn : ∀ b, w.NodeBound b → ∀ node, w.nodes.lookup b = some node →
      ∃ node', w'.nodes.lookup b = some node' ∧ node'.dev = node.dev)
    (hc : ∀ p t a buf, w'.tensors.lookup p = some t → t.mem = .Carved a buf →
      ∃ area, w'.areas.lookup a = some area ∧ area.dev = t.dev) : w'.Valid where
  bufs s scope h p hp := by
    rw [hs] at h
    obtain ⟨t, hl, hd⟩ := hw.bufs s scope h p hp
    obtain ⟨t', hl', hd'⟩ := ht p ⟨scope, AList.mem_values.mpr ⟨s, h⟩, hp⟩ t hl
    exact ⟨t', hl', hd'.trans hd⟩
  nodes s scope h b hb := by
    rw [hs] at h
    obtain ⟨node, hl, hd⟩ := hw.nodes s scope h b hb
    obtain ⟨node', hl', hd'⟩ := hn b ⟨scope, AList.mem_values.mpr ⟨s, h⟩, hb⟩ node hl
    exact ⟨node', hl', hd'.trans hd⟩
  bufs_nodup s scope h := hw.bufs_nodup s scope (hs ▸ h)
  nodes_nodup s scope h := hw.nodes_nodup s scope (hs ▸ h)
  inCapture s scope h := hw.inCapture s scope (hs ▸ h)
  carved := hc

/-- **No step makes a reference bad.** -/
theorem World.Valid.step (hw : w.Valid) (h : w.Step e w') : w'.Valid := by
  obtain ⟨ha, hr⟩ := h
  rcases e with ⟨a, out⟩
  obtain rfl : (a.perform w).2 = w' := congrArg Prod.snd hr
  cases a with
  | tensor a =>
    have hf := (TensorAct.keeps frame_any tensors_any a w).1
    refine hw.of_scopes hf.scopes (fun p hb t ht => ⟨t, ?_, rfl⟩)
      (fun b _ node hn => ⟨node, hf.nodes ▸ hn, rfl⟩) fun p t key buf => TensorAct.carved ha hw
    exact (TensorAct.lookup_bound ha hb (AList.lookup_isSome.mp (by rw [ht]; rfl))).trans ht
  | memory a =>
    have hf := (MemoryAct.keeps frame_any memory_any a w).1
    refine hw.of_scopes hf.scopes (fun p _ t ht => ⟨t, hf.tensors ▸ ht, rfl⟩)
      (fun b _ node hn => ⟨node, hf.nodes ▸ hn, rfl⟩) fun p t key buf ht hm => ?_
    exact hf.areas ▸ hw.carved p t key buf (hf.tensors ▸ ht) hm
  | node a =>
    have hf := (NodeAct.keeps frame_any nodes_any a w).1
    refine hw.of_scopes hf.scopes (fun p _ t ht => ⟨t, hf.tensors ▸ ht, rfl⟩)
      (fun b hb node hn => ?_) fun p t key buf ht hm => ?_
    · obtain ⟨node', hn', hd, -⟩ := NodeAct.lookup_bound ha hw hb hn
      exact ⟨node', hn', hd⟩
    · exact hf.areas ▸ hw.carved p t key buf (hf.tensors ▸ ht) hm
  | scope a =>
    have hf := (ScopeAct.keeps frame_any memory_any.synchronize a w).1
    have hv := fun s scope (hs : (a.run w).2.scopes.lookup s = some scope) =>
      ScopeAct.valid ha hw hs
    exact
      { bufs := fun s scope hs p hp => hf.tensors ▸ (hv s scope hs).1 p hp
        nodes := fun s scope hs b hb => hf.nodes ▸ (hv s scope hs).2.1 b hb
        bufs_nodup := fun s scope hs => (hv s scope hs).2.2.1
        nodes_nodup := fun s scope hs => (hv s scope hs).2.2.2.1
        inCapture := fun s scope hs => (hv s scope hs).2.2.2.2
        carved := fun p t key buf ht hm => hf.areas ▸ hw.carved p t key buf (hf.tensors ▸ ht) hm }
  | run a =>
    change World.Valid (a.run w).2
    have hf := (RunAct.keeps frame_any runs_any a w).1
    have hv := fun s scope (hs : (a.run w).2.scopes.lookup s = some scope) =>
      RunAct.scopes ha hw hs
    refine ⟨fun s scope hs p hp => ?_, fun s scope hs b hb => ?_, fun s scope hs => ?_,
      fun s scope hs => ?_, fun s scope hs => ?_, fun p t key buf ht hm => ?_⟩
    · obtain ⟨scope₀, hs₀, ⟨hdev, hbufs, -⟩, -⟩ := hv s scope hs
      rw [hf.tensors, hdev]
      exact hw.bufs s scope₀ hs₀ p (hbufs ▸ hp)
    · obtain ⟨scope₀, hs₀, ⟨hdev, -, hnodes⟩, -⟩ := hv s scope hs
      rw [hf.nodes, hdev]
      exact hw.nodes s scope₀ hs₀ b (hnodes ▸ hb)
    · obtain ⟨scope₀, hs₀, ⟨-, hbufs, -⟩, -⟩ := hv s scope hs
      exact hbufs ▸ hw.bufs_nodup s scope₀ hs₀
    · obtain ⟨scope₀, hs₀, ⟨-, -, hnodes⟩, -⟩ := hv s scope hs
      exact hnodes ▸ hw.nodes_nodup s scope₀ hs₀
    · obtain ⟨scope₀, -, -, hc⟩ := hv s scope hs
      exact hc
    · exact hf.areas ▸ hw.carved p t key buf (hf.tensors ▸ ht) hm

theorem World.Valid.run {es : List (Event B)} (hw : w.Valid) (h : w.Runs es w') : w'.Valid :=
  h.preserves (fun _ _ _ hw h => hw.step h) hw

/-- **Every world a program gets to is valid.** -/
theorem World.Reachable.valid {raws : Nat → B} {poolBytes : Nat → Nat}
    (h : World.Reachable raws poolBytes w) : w.Valid :=
  Transition.Reachable.invariant h (.init raws poolBytes) fun _ _ _ hw h => hw.step h

end Runs
end Wilupgu
