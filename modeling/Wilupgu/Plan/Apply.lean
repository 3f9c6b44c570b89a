import Wilupgu.Lib.Lists
import Wilupgu.Plan.Fill
import Wilupgu.Plan.Handles

/-! # Dynamics

`apply_dynamics` reads every `Dynamic` of a run before it sets any meta, so it
sets all of them or none, and it sets the per-run fields only: what a handle
keeps of the other fields is what the run was built with. -/

namespace Wilupgu.Plan

open Backend Call Transition

variable {B : Type} [Storage B] [Dispatch B] [Capturable B] [Areable B] {w w' : World B}

namespace MetaSource

/-- The `Dynamic` it is read from. -/
def dynamic : MetaSource → Option Nat
  | UintPerRun d | FloatPerRun d => some d
  | _ => none

/-- The value of its field that a `Dynamic`'s value is. -/
def valueOf (v : UInt32) : MetaSource → MetaValue
  | Uint _ | UintPerRun _ => .Uint v
  | Float _ | FloatPerRun _ => .Float v

theorem isPerRun_iff {source : MetaSource} :
    source.isPerRun = true ↔ ∃ d, source.dynamic = some d := by
  cases source <;> simp [isPerRun, dynamic]

theorem buildValue_ty {source : MetaSource} {v : MetaValue} (h : source.buildValue = .ok v) :
    v.ty = source.ty := by
  cases source with
  | Uint r | Float r =>
    obtain ⟨_, -, hv⟩ := Outcome.bind_eq_ok.mp h
    cases hv
    rfl
  | UintPerRun d | FloatPerRun d =>
    cases h
    rfl

variable {dynamics : Dynamics} {source : MetaSource} {now v : MetaValue}

/-- A read fails only where the `Dynamic` was never set. -/
theorem read_cases (dynamics : Dynamics) (source : MetaSource) (now : MetaValue) :
    (∃ v, source.read dynamics now = .ok v) ∨ source.read dynamics now = .err .DynamicUnset := by
  cases source with
  | Uint r | Float r => exact .inl ⟨now, rfl⟩
  | UintPerRun d | FloatPerRun d =>
    simp only [read, Dynamics.read]
    rcases dynamics d with _ | v
    · exact .inr rfl
    · exact .inl ⟨_, rfl⟩

theorem read_eq_err : source.read dynamics now = .err .DynamicUnset ↔
    ∃ d, source.dynamic = some d ∧ dynamics d = none := by
  cases source with
  | Uint r | Float r => simp [read, dynamic]
  | UintPerRun d | FloatPerRun d =>
    simp only [read, Dynamics.read, dynamic, Option.some.injEq, exists_eq_left']
    rcases dynamics d with _ | v <;> simp [Outcome.okOr]

/-- What is read is of the field's type. -/
theorem read_ok (h : source.read dynamics now = .ok v) (hty : now.ty = source.ty) :
    v.ty = source.ty ∧ (source.dynamic = none → v = now) ∧
      ∀ d, source.dynamic = some d → ∃ bits, dynamics d = some bits ∧ v = source.valueOf bits := by
  cases source with
  | Uint r | Float r =>
    cases h
    exact ⟨hty, fun _ => rfl, nofun⟩
  | UintPerRun d | FloatPerRun d =>
    obtain ⟨bits, hbits, hv⟩ := Outcome.bind_eq_ok.mp h
    cases hv
    refine ⟨rfl, nofun, fun d' hd => ?_⟩
    cases hd
    exact ⟨bits, Outcome.okOr_eq_ok.mp hbits, rfl⟩

end MetaSource

/-! ## Metas -/

/-- Values of the fields' types, of which those that aren't per-run are what
they were built with. -/
structure AsBuilt (sources : List MetaSource) (built now : List MetaValue) : Prop where
  length : built.length = sources.length
  types : now.map MetaValue.ty = sources.map MetaSource.ty
  kept : ∀ (i : Nat) (source : MetaSource), sources[i]? = some source → source.dynamic = none →
    now[i]? = built[i]?

/-- Every per-run field has its `Dynamic`'s value. -/
def Applied (dynamics : Dynamics) (sources : List MetaSource) (now : List MetaValue) : Prop :=
  ∀ (i : Nat) (source : MetaSource) (d : Nat), sources[i]? = some source →
    source.dynamic = some d → ∃ v, dynamics d = some v ∧ now[i]? = some (source.valueOf v)

theorem AsBuilt.refl {sources : List MetaSource} {vals : List MetaValue}
    (h : sources.mapM MetaSource.buildValue = .ok vals) : AsBuilt sources vals vals := by
  have hall := Outcome.mapM_eq_ok.mp h
  refine ⟨hall.length_eq.symm, ?_, fun _ _ _ _ => rfl⟩
  exact (hall.map_eq_map fun _ _ hv => (MetaSource.buildValue_ty hv).symm).symm

theorem AsBuilt.now_length {sources : List MetaSource} {built now : List MetaValue}
    (h : AsBuilt sources built now) : now.length = sources.length := by
  have hlen := congrArg List.length h.types
  simpa using hlen

/-- What the fields of one node are read as. -/
def readMeta (dynamics : Dynamics) (sources : List MetaSource) (now : List MetaValue) :
    Outcome Error (List MetaValue) :=
  (sources.zip now).mapM fun (source, now) => source.read dynamics now

theorem readDynamics_eq (dynamics : Dynamics) (perRun : List PerRun) :
    readDynamics dynamics perRun = perRun.mapM fun entry => do
      return (entry.node, ← readMeta dynamics entry.sources entry.metaVals) := rfl

section Reading

variable {dynamics : Dynamics} {sources : List MetaSource} {built now vals : List MetaValue}

/-- Reading changes the per-run fields, and these only. -/
theorem readMeta_ok (h : readMeta dynamics sources now = .ok vals)
    (hb : AsBuilt sources built now) :
    AsBuilt sources built vals ∧ Applied dynamics sources vals := by
  have hall := Outcome.mapM_eq_ok.mp h
  have hlen : vals.length = sources.length := by
    rw [← hall.length_eq, List.length_zip, hb.now_length, Nat.min_self]
  -- each field on its own
  have hnth : ∀ (i : Nat) (source : MetaSource), sources[i]? = some source →
      ∃ old v, now[i]? = some old ∧ vals[i]? = some v ∧ old.ty = source.ty ∧
        source.read dynamics old = .ok v := by
    intro i source hi
    have hlt : i < now.length := by
      rw [hb.now_length]
      exact (List.getElem?_eq_some_iff.mp hi).1
    have hold : now[i]? = some now[i] := List.getElem?_eq_getElem hlt
    obtain ⟨v, hv, hread⟩ := hall.exists_getElem?_left
      (List.getElem?_zip_eq_some (z := (source, now[i])) |>.mpr ⟨hi, hold⟩)
    refine ⟨now[i], v, hold, hv, ?_, hread⟩
    have htypes := congrArg (·[i]?) hb.types
    simpa [hi, hold] using htypes
  refine ⟨⟨hb.length, ?_, fun i source hi hd => ?_⟩, fun i source d hi hd => ?_⟩
  · refine List.ext_getElem? fun i => ?_
    rw [List.getElem?_map, List.getElem?_map]
    rcases hi : sources[i]? with _ | source
    · rw [List.getElem?_eq_none (hlen ▸ List.getElem?_eq_none_iff.mp hi)]
      rfl
    · obtain ⟨old, v, -, hv, hty, hread⟩ := hnth i source hi
      rw [hv, Option.map_some, Option.map_some, (MetaSource.read_ok hread hty).1]
  · obtain ⟨old, v, hold, hv, hty, hread⟩ := hnth i source hi
    rw [hv, (MetaSource.read_ok hread hty).2.1 hd, ← hold]
    exact hb.kept i source hi hd
  · obtain ⟨old, v, -, hv, hty, hread⟩ := hnth i source hi
    obtain ⟨bits, hbits, rfl⟩ := (MetaSource.read_ok hread hty).2.2 d hd
    exact ⟨bits, hbits, hv⟩

/-- It fails exactly if a `Dynamic` of one of its fields was never set. -/
theorem readMeta_cases (hb : AsBuilt sources built now) :
    ((∃ vals, readMeta dynamics sources now = .ok vals) ∧
        ∀ source ∈ sources, ∀ d, source.dynamic = some d → dynamics d ≠ none) ∨
      (readMeta dynamics sources now = .err .DynamicUnset ∧
        ∃ source ∈ sources, ∃ d, source.dynamic = some d ∧ dynamics d = none) := by
  have hcases := Outcome.mapM_ok_or_err (l := sources.zip now)
    (f := fun (source, now) => source.read dynamics now) (e := .DynamicUnset)
    fun x _ => MetaSource.read_cases dynamics x.1 x.2
  rcases hcases with ⟨hok, hall⟩ | ⟨herr, ⟨source, old⟩, hm, he⟩
  · refine .inl ⟨hok, fun source hs d hd hnone => ?_⟩
    obtain ⟨i, hi⟩ := List.mem_iff_getElem?.mp hs
    have hlt : i < now.length := by
      rw [hb.now_length]
      exact (List.getElem?_eq_some_iff.mp hi).1
    have hzip : (sources.zip now)[i]? = some (source, now[i]) :=
      List.getElem?_zip_eq_some.mpr ⟨hi, List.getElem?_eq_getElem hlt⟩
    obtain ⟨v, hv⟩ := hall _ (List.mem_of_getElem? hzip)
    have hunset : source.read dynamics now[i] = .err .DynamicUnset :=
      MetaSource.read_eq_err.mpr ⟨d, hd, hnone⟩
    cases hunset.symm.trans hv
  · exact .inr ⟨herr, source, (List.of_mem_zip hm).1, MetaSource.read_eq_err.mp he⟩

end Reading

/-! ## Setting metas -/

theorem NodeSlot.unique {s i a a' : Nat} (h : NodeSlot w s i a) (h' : NodeSlot w s i a') :
    a = a' := by
  obtain ⟨scope, hs, hi⟩ := h
  obtain ⟨scope', hs', hi'⟩ := h'
  obtain rfl : scope = scope' := Option.some.inj (hs.symm.trans hs')
  exact Option.some.inj (hi.symm.trans hi')

/-- The node at `b`, which no slot of `slots` is, stays as it is. -/
def Spares (s : Nat) (slots : List Nat) (b : Nat) (w w' : World B) : Prop :=
  (∀ i ∈ slots, ¬NodeSlot w s i b) →
    w'.scopes = w.scopes ∧ w'.nodes.lookup b = w.nodes.lookup b

theorem frame_spares (s : Nat) (slots : List Nat) (b : Nat) :
    Frame (Spares (B := B) s slots b) where
  refl _ _ := ⟨rfl, rfl⟩
  trans h h' := by
    intro hnone
    obtain ⟨hscopes, hb⟩ := h hnone
    obtain ⟨hscopes', hb'⟩ := h' fun i hi hslot => hnone i hi (by rwa [NodeSlot, hscopes] at hslot)
    exact ⟨hscopes'.trans hscopes, hb'.trans hb⟩

theorem scopeUpdateMeta_spares {s i b : Nat} {slots : List Nat} (hi : i ∈ slots)
    (vals : List MetaValue) : Keeps (Spares s slots b) (Scope.updateMeta (B := B) s i vals) := by
  intro w
  have hF := frame_spares (B := B) s slots b
  rw [Scope.updateMeta, bind_of_ok (get_run w)]
  refine hF.check_bind_at fun scope hscope => hF.check_bind_at fun x hx => fun hnone => ?_
  obtain ⟨hslot, hnode⟩ := boundNode_eq_ok.mp hx
  rw [updateMeta_run hnode]
  refine ⟨rfl, AList.lookup_insert_ne ?_⟩
  rintro rfl
  exact hnone i hi ⟨scope, Outcome.expect_eq_ok.mp hscope, hslot⟩

theorem applyDynamics_spares (bound : Bound) (dynamics : Dynamics) (b : Nat) :
    Keeps (Spares bound.scope (bound.perRun.map PerRun.node) b)
      (bound.applyDynamics (B := B) dynamics) := by
  have hF := frame_spares (B := B) bound.scope (bound.perRun.map PerRun.node) b
  refine hF.check_bind fun metas hmetas => hF.forM fun e he => scopeUpdateMeta_spares ?_ e.2
  rw [readDynamics_eq] at hmetas
  obtain ⟨entry, hentry, hread⟩ := (Outcome.mapM_eq_ok.mp hmetas).exists_of_mem_right he
  obtain ⟨vals, -, hread⟩ := Outcome.bind_eq_ok.mp hread
  cases hread
  exact List.mem_map_of_mem hentry

theorem bind_nodes (run : Run) (s : Nat) (ts cs : List Nat) :
    Keeps (fun w w' => w'.nodes = w.nodes) (run.bind (B := B) s ts cs) := by
  have hF := frame_eq (World.nodes (B := B))
  refine bind_keeps hF (fun s p => ?_) (fun s a => ?_) run s ts cs
  · exact hF.get_bind fun _ => hF.lift_bind fun _ => hF.lift_bind fun _ => hF.lift_bind fun _ =>
      hF.bind (keeps_modify fun _ => rfl) fun _ => hF.pure _
  · exact hF.get_bind fun _ => hF.lift_bind fun _ => hF.lift_bind fun _ => hF.lift_bind fun _ =>
      hF.bind (keeps_modify fun _ => rfl) fun _ => hF.pure _

section Lawful

variable [LawfulDispatch B]

/-- Values of the types the node has are set, on it and on no other node. -/
theorem scopeUpdateMeta_ok {s i a : Nat} {node : Node B} {vals : List MetaValue}
    (hslot : NodeSlot w s i a) (hnode : w.nodes.lookup a = some node) (ha : node.Agrees)
    (htypes : vals.map MetaValue.ty = node.metaVals.map MetaValue.ty) :
    ∃ node' dev, Scope.updateMeta s i vals w =
        (.ok (), (w.setDevice node.dev dev).setNodes (w.nodes.insert a node')) ∧
      node'.Agrees ∧ node'.metaVals = vals := by
  obtain ⟨scope, hscope, hi⟩ := hslot
  have hwords : metaWords node.signature vals = .ok (vals.map MetaValue.word) :=
    metaWords_eq_ok.mpr ⟨ha.types.trans htypes.symm, rfl⟩
  have hlen : (vals.map MetaValue.word).length = (Dispatch.metaWords node.raw).length := by
    have := congrArg List.length htypes
    rw [ha.words]
    simpa using this
  obtain ⟨raw, b, hu, -⟩ :=
    LawfulDispatch.updateMeta_spec node.raw (vals.map MetaValue.word) (w.devices node.dev).raw hlen
  have hagrees := ha.updateMeta vals (w.devices node.dev)
  have hrun := nodeUpdateMeta_run vals (w.devices node.dev) node
  simp only [hwords, hu] at hrun
  rw [hrun] at hagrees
  rw [scopeUpdateMeta_run hscope (boundNode_eq_ok.mpr ⟨hi, hnode⟩), updateMeta_run hnode, hrun]
  exact ⟨_, _, rfl, hagrees, rfl⟩

/-- **All metas are set**: each node that has an entry ends with the values of
one of its entries, and no other node changes. -/
theorem forM_updateMeta {P : Nat → List MetaValue → Prop} {s : Nat}
    {metas : List (Nat × List MetaValue)}
    (hm : ∀ e ∈ metas, ∃ a node, NodeSlot w s e.1 a ∧ w.nodes.lookup a = some node ∧
      node.Agrees ∧ e.2.map MetaValue.ty = node.metaVals.map MetaValue.ty ∧ P a e.2) :
    ∃ w', metas.forM (fun e => Scope.updateMeta s e.1 e.2) w = (.ok (), w') ∧
      (∀ e ∈ metas, ∀ a, NodeSlot w s e.1 a → ∃ node', w'.nodes.lookup a = some node' ∧
        node'.Agrees ∧ P a node'.metaVals) ∧
      ∀ a, (∀ e ∈ metas, ¬NodeSlot w s e.1 a) → w'.nodes.lookup a = w.nodes.lookup a := by
  induction metas generalizing w with
  | nil => exact ⟨w, rfl, nofun, fun _ _ => rfl⟩
  | cons e rest ih =>
    obtain ⟨a, node, hslot, hnode, ha, htypes, hP⟩ := hm e List.mem_cons_self
    obtain ⟨node', dev, hrun, ha', hvals⟩ := scopeUpdateMeta_ok hslot hnode ha htypes
    -- the scopes are as they were, and the nodes but for this one
    have hlookup : ∀ b, ((w.setDevice node.dev dev).setNodes (w.nodes.insert a node')).nodes.lookup
        b = if b = a then some node' else w.nodes.lookup b :=
      fun b => AList.lookup_insert_eq w.nodes a b node'
    obtain ⟨w', hrest, hset, hother⟩ :=
      ih (w := (w.setDevice node.dev dev).setNodes (w.nodes.insert a node')) fun e' he' => by
        obtain ⟨b, nodeb, hslotb, hnodeb, hb, htypesb, hPb⟩ := hm e' (List.mem_cons_of_mem e he')
        by_cases hab : b = a
        · subst hab
          obtain rfl : node = nodeb := Option.some.inj (hnode.symm.trans hnodeb)
          refine ⟨b, node', hslotb, by rw [hlookup, if_pos rfl], ha', ?_, hPb⟩
          rw [hvals, htypes, htypesb]
        · exact ⟨b, nodeb, hslotb, by rw [hlookup, if_neg hab, hnodeb], hb, htypesb, hPb⟩
    refine ⟨w', ?_, fun e' he' b hb => ?_, fun b hb => ?_⟩
    · change (Scope.updateMeta s e.1 e.2 >>= fun _ => rest.forM _) w = _
      rw [bind_of_ok hrun, hrest]
    · by_cases hmore : ∃ e'' ∈ rest, NodeSlot w s e''.1 b
      · obtain ⟨e'', he'', hb''⟩ := hmore
        exact hset e'' he'' b hb''
      · have hlast := hother b fun e'' he'' hb'' => hmore ⟨e'', he'', hb''⟩
        rcases List.mem_cons.mp he' with rfl | he'
        · obtain rfl := hb.unique hslot
          rw [hlookup, if_pos rfl] at hlast
          exact ⟨node', hlast, ha', hvals ▸ hP⟩
        · exact absurd ⟨e', he', hb⟩ hmore
    · rw [hother b fun e' he' => hb e' (List.mem_cons_of_mem e he'), hlookup, if_neg]
      rintro rfl
      exact hb e List.mem_cons_self hslot

end Lawful

/-! ## A run that isn't edited -/

/-- A call with a per-run field has an entry in a handle of its run. -/
theorem Bound.Holds.covered {Copy : RunCall → List MetaValue → Prop} {run : Run} {bound : Bound}
    {id : Nat} {call : RunCall} (h : bound.Holds Copy run w)
    (hmem : ∀ id, id ∈ bound.calls ↔ id ∈ run.calls) (hid : run.calls.lookup id = some call)
    (hsource : ∃ source ∈ call.sources, ∃ d, source.dynamic = some d) :
    ∃ entry ∈ bound.perRun, NodeSlot w bound.scope entry.node call.node ∧
      entry.sources = call.sources := by
  obtain ⟨source, hsource, hd⟩ := hsource
  obtain ⟨⟨slot, args⟩, hslot⟩ :=
    exists_of_mem ((hmem id).mpr (AList.lookup_isSome.mp (by rw [hid]; rfl)))
  obtain ⟨call', -, hcall', -, -, hperRun⟩ := h.calls id slot args hslot
  obtain rfl : call = call' := Option.some.inj (hid.symm.trans hcall')
  exact hperRun (List.any_eq_true.mpr ⟨source, hsource, MetaSource.isPerRun_iff.mpr hd⟩)

namespace Session

variable {σ σ' : Session B} {r : Nat} {calls : Places RunCall}

/-- The run at `r` has these calls, and of the nodes' metas, first found in the
world `first`, only per-run fields have changed. -/
structure Kept (calls : Places RunCall) (first : World B) (r : Nat) (σ : Session B) : Prop where
  run : ∃ run, σ.runs.lookup r = some run ∧ run.calls = calls
  node : ∀ id call, calls.lookup id = some call →
    ∃ built node, first.nodes.lookup call.node = some built ∧
      σ.world.nodes.lookup call.node = some node ∧ node.Agrees ∧
        AsBuilt call.sources built.metaVals node.metaVals

/-- What a handle of the run at `r` keeps of a call's meta. -/
def Copies (first : World B) (r r' : Nat) (call : RunCall) (vals : List MetaValue) : Prop :=
  r' = r → ∃ built, first.nodes.lookup call.node = some built ∧
    AsBuilt call.sources built.metaVals vals

variable {first : World B}

theorem Kept.same (h : Kept calls first r σ)
    (hrun : ∀ run, σ.runs.lookup r = some run →
      ∃ run', σ'.runs.lookup r = some run' ∧ run'.calls = run.calls)
    (hnodes : ∀ id a, σ.OwnsNode r id a →
      σ'.world.nodes.lookup a = σ.world.nodes.lookup a) : Kept calls first r σ' := by
  obtain ⟨run, hr, hcalls⟩ := h.run
  obtain ⟨run', hr', hcalls'⟩ := hrun run hr
  refine ⟨⟨run', hr', hcalls'.trans hcalls⟩, fun id call hcall => ?_⟩
  obtain ⟨built, node, hbuilt, hnode, hall⟩ := h.node id call hcall
  refine ⟨built, node, hbuilt, ?_, hall⟩
  rw [hnodes id call.node ⟨run, call, hr, hcalls ▸ hcall, rfl⟩, hnode]

theorem Kept.copies (h : Kept calls first r σ) (r' : Nat) (run : Run)
    (hr : σ.runs.lookup r' = some run) :
    ∀ call ∈ run.calls.values, ∀ node, σ.world.nodes.lookup call.node = some node →
      Copies first r r' call node.metaVals := by
  intro call hcall node hnode he
  subst he
  obtain ⟨run', hr', rfl⟩ := h.run
  obtain rfl : run' = run := Option.some.inj (hr'.symm.trans hr)
  obtain ⟨id, hid⟩ := AList.mem_values.mp hcall
  obtain ⟨built, node', hbuilt, hnode', -, hkept⟩ := h.node id call hid
  obtain rfl : node' = node := Option.some.inj (hnode'.symm.trans hnode)
  exact ⟨built, hbuilt, hkept⟩

/-- Values that the node at `a` may be set to. -/
def Fresh (calls : Places RunCall) (first : World B) (dynamics : Dynamics) (a : Nat)
    (vals : List MetaValue) : Prop :=
  ∃ id call built, calls.lookup id = some call ∧ call.node = a ∧
    first.nodes.lookup a = some built ∧ AsBuilt call.sources built.metaVals vals ∧
      Applied dynamics call.sources vals

/-- Some `Dynamic` of some call of the run at `r` was never set. -/
def Unset (σ : Session B) (r : Nat) : Prop :=
  ∃ run, σ.runs.lookup r = some run ∧ ∃ call ∈ run.calls.values, ∃ source ∈ call.sources,
    ∃ d, source.dynamic = some d ∧ σ.dynamics d = none

/-- An entry's copy, read, is what its node may be set to. -/
theorem Kept.fresh (h : Kept calls first r σ) {id : Nat} {call : RunCall} {built : Node B}
    {now vals : List MetaValue} (hcall : calls.lookup id = some call)
    (hbuilt : first.nodes.lookup call.node = some built)
    (hnow : AsBuilt call.sources built.metaVals now)
    (hread : readMeta σ.dynamics call.sources now = .ok vals) :
    ∃ node, σ.world.nodes.lookup call.node = some node ∧ node.Agrees ∧
      vals.map MetaValue.ty = node.metaVals.map MetaValue.ty ∧
      Fresh calls first σ.dynamics call.node vals := by
  obtain ⟨hvals, happlied⟩ := readMeta_ok hread hnow
  obtain ⟨_, node, -, hnode, hagrees, hkept⟩ := h.node id call hcall
  exact ⟨node, hnode, hagrees, hvals.types.trans hkept.types.symm, id, call, built, hcall, rfl,
    hbuilt, hvals, happlied⟩

/-- What `apply_dynamics` on the run's handle does. -/
theorem Kept.applyDynamics [LawfulDispatch B] (h : Kept calls first r σ) (hs : σ.Sound)
    (hh : σ.Handled (Copies first r)) {bound : Bound} (hb : σ.Binds r bound) :
    (σ.Unset r ∧ bound.applyDynamics σ.dynamics σ.world = (.err .DynamicUnset, σ.world)) ∨
      (¬σ.Unset r ∧ ∃ w, bound.applyDynamics σ.dynamics σ.world = (.ok (), w) ∧
        (∀ id call, calls.lookup id = some call → ∃ built node,
          first.nodes.lookup call.node = some built ∧ w.nodes.lookup call.node = some node ∧
            node.Agrees ∧ AsBuilt call.sources built.metaVals node.metaVals ∧
              Applied σ.dynamics call.sources node.metaVals) ∧
        ∀ a, (∀ call ∈ calls.values, call.node ≠ a) →
          w.nodes.lookup a = σ.world.nodes.lookup a) := by
  obtain ⟨borrow, hborrow, hhandle⟩ := hb
  obtain ⟨hscope, run, hrun, hholds, hmem⟩ := hh r borrow bound hborrow hhandle
  obtain ⟨run', hrun', rfl⟩ := h.run
  obtain rfl : run = run' := Option.some.inj (hrun.symm.trans hrun')
  -- every entry is a call's, with a copy of its meta that is as it was built
  have hentry : ∀ entry ∈ bound.perRun, ∃ id call built, run.calls.lookup id = some call ∧
      NodeSlot σ.world bound.scope entry.node call.node ∧ entry.sources = call.sources ∧
        first.nodes.lookup call.node = some built ∧
          AsBuilt call.sources built.metaVals entry.metaVals := by
    intro entry hm
    obtain ⟨id, call, hcall, hslot, hsources, hcopy⟩ := hholds.perRun entry hm
    obtain ⟨built, hbuilt, hasBuilt⟩ := hcopy rfl
    exact ⟨id, call, built, hcall, hslot, hsources, hbuilt, hasBuilt⟩
  have hreads : ∀ entry ∈ bound.perRun,
      ((∃ vals, readMeta σ.dynamics entry.sources entry.metaVals = .ok vals) ∧
        ∀ source ∈ entry.sources, ∀ d, source.dynamic = some d → σ.dynamics d ≠ none) ∨
      (readMeta σ.dynamics entry.sources entry.metaVals = .err .DynamicUnset ∧
        ∃ source ∈ entry.sources, ∃ d, source.dynamic = some d ∧ σ.dynamics d = none) := by
    intro entry hm
    obtain ⟨_, call, _, -, -, hsources, -, hasBuilt⟩ := hentry entry hm
    rw [hsources]
    exact readMeta_cases hasBuilt
  rw [Bound.applyDynamics, readDynamics_eq]
  rcases Outcome.mapM_ok_or_err (e := Error.DynamicUnset) (l := bound.perRun)
    (f := fun entry => do
      return (entry.node, ← readMeta σ.dynamics entry.sources entry.metaVals)) (fun entry hm => by
      rcases hreads entry hm with ⟨⟨vals, hvals⟩, -⟩ | ⟨herr, -⟩
      · exact .inl ⟨_, by rw [hvals]; rfl⟩
      · exact .inr (by rw [herr]; rfl)) with ⟨⟨metas, hmetas⟩, hall⟩ | ⟨herr, entry, hm, hread⟩
  · refine .inr ⟨?_, ?_⟩
    · intro hunset
      obtain ⟨run', hrun'', call, hcall, source, hsource, d, hd, hnone⟩ := hunset
      obtain rfl : run = run' := Option.some.inj (hrun.symm.trans hrun'')
      obtain ⟨id, hid⟩ := AList.mem_values.mp hcall
      obtain ⟨entry, hm, -, hsources⟩ := hholds.covered hmem hid ⟨source, hsource, d, hd⟩
      rcases hreads entry hm with ⟨-, hset⟩ | ⟨herr, -⟩
      · exact hset source (hsources ▸ hsource) d hd hnone
      · obtain ⟨v, hv⟩ := hall entry hm
        rw [herr] at hv
        cases hv
    · have hpairs := Outcome.mapM_eq_ok.mp hmetas
      -- what is set are values of the call's own types, read from its own fields
      have hset : ∀ e ∈ metas, ∃ a node, NodeSlot σ.world bound.scope e.1 a ∧
          σ.world.nodes.lookup a = some node ∧ node.Agrees ∧
          e.2.map MetaValue.ty = node.metaVals.map MetaValue.ty ∧
          Fresh run.calls first σ.dynamics a e.2 := by
        intro e he
        obtain ⟨entry, hm, hread⟩ := hpairs.exists_of_mem_right he
        obtain ⟨vals, hvals, hread⟩ := Outcome.bind_eq_ok.mp hread
        cases hread
        obtain ⟨id, call, built, hcall, hslot, hsources, hbuilt, hasBuilt⟩ := hentry entry hm
        obtain ⟨node, hnode⟩ := h.fresh hcall hbuilt hasBuilt (hsources ▸ hvals)
        exact ⟨call.node, node, hslot, hnode⟩
      obtain ⟨w, hw, hdone, hother⟩ := forM_updateMeta (P := Fresh run.calls first σ.dynamics) hset
      refine ⟨w, ?_, fun id call hcall => ?_, fun a ha => hother a fun e he hslot => ?_⟩
      · rw [hmetas, check_run]
        exact hw
      · by_cases hhit : ∃ e ∈ metas, NodeSlot σ.world bound.scope e.1 call.node
        · obtain ⟨e, he, hslot⟩ := hhit
          obtain ⟨node, hnode, hagrees, id', call', built, hcall', hsame, hbuilt, hnow⟩ :=
            hdone e he call.node hslot
          obtain ⟨-, rfl⟩ := hs.node_once r id r id' call.node ⟨run, call, hrun, hcall, rfl⟩
            ⟨run, call', hrun, hcall', hsame⟩
          obtain rfl : call = call' := Option.some.inj (hcall.symm.trans hcall')
          exact ⟨built, node, hbuilt, hnode, hagrees, hnow⟩
        · obtain ⟨built, node, hbuilt, hnode, hagrees, hkept⟩ := h.node id call hcall
          refine ⟨built, node, hbuilt, ?_, hagrees, hkept, fun i source d hi hd => ?_⟩
          · rw [hother _ fun e he hslot => hhit ⟨e, he, hslot⟩, hnode]
          · obtain ⟨entry, hm, hslot, -⟩ :=
              hholds.covered hmem hcall ⟨source, List.mem_of_getElem? hi, d, hd⟩
            obtain ⟨e, he, hread⟩ := hpairs.exists_of_mem_left hm
            obtain ⟨vals, -, hread⟩ := Outcome.bind_eq_ok.mp hread
            cases hread
            exact absurd ⟨_, he, hslot⟩ hhit
      · obtain ⟨a', _, hslot', -, -, -, id, call, _, hcall, rfl, -⟩ := hset e he
        exact ha call (AList.mem_values.mpr ⟨id, hcall⟩) (hslot'.unique hslot)
  · refine .inl ⟨?_, by rw [herr]; rfl⟩
    rcases hreads entry hm with ⟨⟨vals, hvals⟩, -⟩ | ⟨-, source, hsource, d, hd, hnone⟩
    · rw [hvals] at hread
      cases hread
    · obtain ⟨id, call, _, hcall, -, hsources, -⟩ := hentry entry hm
      exact ⟨run, hrun, call, AList.mem_values.mpr ⟨id, hcall⟩, source, hsources ▸ hsource, d, hd,
        hnone⟩

/-! ## Whole sessions -/

theorem Handled.mono {Copy Copy' : Nat → RunCall → List MetaValue → Prop}
    (h : σ.Handled Copy) (hcopy : ∀ r, r ∈ σ.runs → ∀ call vals, Copy r call vals →
      Copy' r call vals) : σ.Handled Copy' := by
  intro r borrow bound hb hh
  obtain ⟨hscope, run, hrun, hholds, hmem⟩ := h r borrow bound hb hh
  refine ⟨hscope, run, hrun, ⟨hholds.order, hholds.tensors, hholds.calls, ?_⟩, hmem⟩
  intro entry hm
  obtain ⟨id, call, hcall, hslot, hsources, hold⟩ := hholds.perRun entry hm
  exact ⟨id, call, hcall, hslot, hsources,
    hcopy r (AList.lookup_isSome.mp (by rw [hrun]; rfl)) call _ hold⟩

variable [Topology B] {e : PlanEvent B}

/-- The step isn't an edit of the run at `r`. -/
def NotEdited (r : Nat) (_ : Session B) (e : PlanEvent B) : Prop :=
  ∀ ts cs f, e.act ≠ .edit r ts cs f

omit [Topology B] in
/-- A new run elsewhere, that leaves this one's nodes alone. -/
theorem Kept.put (h : Kept calls first r σ) (hs : σ.Sound) {r' : Nat} {P A : Nat → Prop}
    {c : Call (World B) Error Run} (hr : σ.runs.Free r') (hA : ∀ a, A a → σ.world.nodes.Free a)
    (hc : Keeps (Within P A) c) : Kept calls first r (Session.put r' c σ).2 := by
  have hnodes : ∀ id a, σ.OwnsNode r id a →
      (c σ.world).2.nodes.lookup a = σ.world.nodes.lookup a := by
    intro id a ho
    exact (hc σ.world).nodes a fun ha => AList.free_iff.mp (hA a ha) (hs.node r id a ho)
  rw [put_run]
  rcases hrun : c σ.world with ⟨run | e | _, w⟩ <;> rw [hrun] at hnodes
  · refine h.same (fun run' hr' => ⟨run', ?_, rfl⟩) hnodes
    rw [AList.lookup_insert_ne, hr']
    rintro rfl
    cases hr.symm.trans hr'
  all_goals exact h.same (fun run' hr' => ⟨run', hr', rfl⟩) hnodes

/-- **Step rule.** Only an edit of the run changes the other fields. -/
theorem Kept.step [LawfulDispatch B] (h : Kept calls first r σ) (hs : σ.Sound)
    (hh : σ.Handled (Copies first r)) (hstep : Where Step (NotEdited r) σ e σ') :
    Kept calls first r σ' := by
  obtain ⟨⟨ha, hp⟩, hedit⟩ := hstep
  rcases e with ⟨act, out⟩
  obtain rfl : (act.perform σ).2 = σ' := congrArg Prod.snd hp
  clear hp
  have hsame : ∀ (run : Run), σ.runs.lookup r = some run →
      ∃ run', σ.runs.lookup r = some run' ∧ run'.calls = run.calls :=
    fun run hr => ⟨run, hr, rfl⟩
  cases act with
  | build r' d plan site =>
    refine h.put hs ha.1 ?_ (build_within plan d site)
    intro a hfree
    obtain ⟨spec, hspec, rfl⟩ := hfree
    exact ha.2.address spec hspec
  | buildHollow r' d plan site =>
    refine h.put hs ha.1 ?_ (buildHollow_within plan d site)
    intro a hfree
    obtain ⟨spec, hspec, rfl⟩ := hfree
    exact ha.2.address spec hspec
  | fillFrom r' source id =>
    obtain ⟨hne, hr', hsource⟩ := ha
    obtain ⟨run', hrun'⟩ := exists_of_mem hr'.1
    obtain ⟨from', hfrom⟩ := exists_of_mem hsource.1
    change Kept calls first r (Session.fillFrom r' source id σ).2
    rw [fillFrom_run hrun' hfrom]
    rcases run'.fills from' σ.world id with ⟨place, live⟩ | e | _
    · refine h.same (fun run hr => ?_) fun _ _ _ => rfl
      simp only [filled, AList.lookup_insert_eq]
      by_cases h₁ : r = source
      · subst h₁
        obtain rfl : from' = run := Option.some.inj (hfrom.symm.trans hr)
        exact ⟨{ from' with tensors := from'.tensors.insert id place }, by rw [if_pos rfl], rfl⟩
      · by_cases h₂ : r = r'
        · subst h₂
          obtain rfl : run' = run := Option.some.inj (hrun'.symm.trans hr)
          exact ⟨{ run' with tensors := run'.tensors.insert id live }, by rw [if_neg h₁, if_pos rfl], rfl⟩
        · exact ⟨run, by rw [if_neg h₁, if_neg h₂, hr], rfl⟩
    all_goals
      refine h.same (fun run hr => ⟨run, ?_, rfl⟩) fun _ _ _ => rfl
      rw [unchanged_lookup hrun' hfrom, hr]
  | edit r' ts cs f =>
    obtain ⟨-, hleaves, run', hrun', -⟩ := ha
    rw [PlanAct.perform, bind_of_ok (get_run σ), Session.run, hrun', check_run]
    simp only [Outcome.expect, Session.onWorld, zoom_run, edit_world]
    refine h.same hsame fun id a ho => ?_
    obtain ⟨run, call, hr, hcall, rfl⟩ := ho
    refine hleaves.nodes r run hr ?_ call (AList.mem_values.mpr ⟨id, hcall⟩)
    intro he
    cases he
    exact hedit ts cs f rfl
  | bind r' s ts cs =>
    obtain ⟨-, -, run', hrun', -⟩ := ha
    have hnodes := bind_nodes run' s ts cs σ.world
    change Kept calls first r (Session.bind r' s ts cs σ).2
    rw [bind_session_run hrun']
    rcases hb : run'.bind s ts cs σ.world with ⟨bound | e | _, w⟩ <;> rw [hb] at hnodes
    all_goals exact h.same hsame fun _ a _ => by rw [hnodes]
  | execute r' =>
    obtain ⟨bound, hb⟩ := ha
    have hrun := bound_run hb fun _ bound => bound.execute
    refine hrun ▸ h.same hsame fun _ a _ => ?_
    rw [(execute_executed bound σ.world).nodes]
  | executeCall r' id =>
    obtain ⟨bound, hb⟩ := ha
    have hrun := bound_run hb fun _ bound => bound.executeCall id
    refine hrun ▸ h.same hsame fun _ a _ => ?_
    rw [(executeCall_executed bound id σ.world).nodes]
  | applyDynamics r' =>
    obtain ⟨bound, hb⟩ := ha
    have hrun := bound_run hb fun dynamics bound => bound.applyDynamics dynamics
    refine hrun ▸ ?_
    by_cases he : r' = r
    · subst he
      rcases h.applyDynamics hs hh hb with ⟨-, herr⟩ | ⟨-, w, hok, hset, -⟩
      · rw [herr]
        exact h
      · rw [hok]
        refine ⟨h.run, fun id call hcall => ?_⟩
        obtain ⟨built, node, hbuilt, hnode, hagrees, hkept, -⟩ := hset id call hcall
        exact ⟨built, node, hbuilt, hnode, hagrees, hkept⟩
    · refine h.same hsame fun id a ho => ?_
      refine (applyDynamics_spares bound σ.dynamics a σ.world ?_).2
      -- the nodes of its entries are the other run's
      intro slot hslot hnode
      obtain ⟨entry, hm, rfl⟩ := List.mem_map.mp hslot
      obtain ⟨borrow, hborrow, hhandle⟩ := hb
      obtain ⟨-, run', hrun', hholds, -⟩ := hh r' borrow bound hborrow hhandle
      obtain ⟨id', call, hcall, hslot', -⟩ := hholds.perRun entry hm
      exact he (hs.node_once r' id' r id a
        ⟨run', call, hrun', hcall, hslot'.unique hnode⟩ ho).1
  | setDynamic d value => exact h.same hsame fun _ _ _ => rfl
  | closeScope s =>
    obtain ⟨scope, hscope⟩ := exists_of_mem ha
    rw [PlanAct.perform, closeScope_run s ha, close_run hscope]
    exact h.same hsame fun _ _ _ => rfl
  | elsewhere f =>
    refine h.same hsame fun id a ho => ?_
    obtain ⟨run, call, hr, hcall, rfl⟩ := ho
    exact ha.nodes r run hr (fun he => by cases he) call (AList.mem_values.mpr ⟨id, hcall⟩)

/-- The step builds the run at `r`. -/
def Builds (r : Nat) (e : PlanEvent B) : Prop :=
  e.out = .ok () ∧ ∃ d plan site, e.act = .build r d plan site ∨ e.act = .buildHollow r d plan site

/-- A run starts as it was built. -/
theorem Kept.built [LawfulDispatch B] (hb : Builds r e) (hstep : σ.Step e σ') :
    ∃ run, σ'.runs.lookup r = some run ∧ Kept run.calls σ'.world r σ' := by
  obtain ⟨hout, d, plan, site, hact⟩ := hb
  obtain ⟨ha, hp⟩ := hstep
  rcases e with ⟨act, out⟩
  obtain rfl : out = .ok () := hout
  have hstart : ∀ {tensors w}, NodesBuilt plan d site w →
      Kept (builtCalls plan site) w r { σ with
        world := w, runs := σ.runs.insert r (builtRun plan d site tensors) } := by
    intro tensors w hnodes
    refine ⟨⟨_, AList.lookup_insert _, rfl⟩, fun id call hcall => ?_⟩
    obtain ⟨spec, hspec, -, rfl⟩ := AList.lookup_ofList.mp hcall
    obtain ⟨node, hnode, hbuilt⟩ := hnodes spec hspec
    exact ⟨node, node, hnode, hnode, hbuilt.agrees, .refl hbuilt.metaVals⟩
  rcases hact with rfl | rfl
  · change Session.put r (plan.build d site) σ = _ at hp
    rw [put_run] at hp
    rcases hrun : plan.build d site σ.world with ⟨run | e | _, w⟩ <;> rw [hrun] at hp <;> cases hp
    obtain ⟨rfl, hnodes, -⟩ := build_ok ha.2 hrun
    exact ⟨_, AList.lookup_insert _, hstart hnodes⟩
  · change Session.put r (plan.buildHollow d site) σ = _ at hp
    rw [put_run] at hp
    rcases hrun : plan.buildHollow d site σ.world with ⟨run | e | _, w⟩ <;> rw [hrun] at hp <;>
      cases hp
    obtain ⟨tensors, -, rfl, hnodes, -⟩ := buildHollow_ok ha.2 hrun
    exact ⟨_, AList.lookup_insert _, hstart hnodes⟩

/-- No handle is of a run that isn't built yet. -/
theorem Handled.built (h : σ.Handled fun _ _ _ => True) (hb : Builds r e)
    (hstep : σ.Step e σ') : σ'.Handled (Copies first r) := by
  obtain ⟨-, d, plan, site, hact⟩ := hb
  obtain ⟨ha, hp⟩ := hstep
  rcases e with ⟨act, out⟩
  obtain rfl : (act.perform σ).2 = σ' := congrArg Prod.snd hp
  have hnone : σ.runs.Free r → σ.Handled (Copies first r) := by
    intro hfree
    refine h.mono fun r' hr' call vals _ he => ?_
    subst he
    exact absurd hr' (AList.free_iff.mp hfree)
  rcases hact with rfl | rfl
  · exact (hnone ha.1).put ha.1 fun w => (build_within plan d site w).scopes
  · exact (hnone ha.1).put ha.1 fun w => (buildHollow_within plan d site w).scopes

/-- Only `set` changes a `Dynamic`. -/
theorem Step.dynamics (h : σ.Step e σ') (hset : ∀ d v, e.act ≠ .setDynamic d v) :
    σ'.dynamics = σ.dynamics := by
  obtain ⟨-, hp⟩ := h
  rcases e with ⟨act, out⟩
  obtain rfl : (act.perform σ).2 = σ' := congrArg Prod.snd hp
  have hF := frame_eq (Session.dynamics (B := B))
  have hworld : ∀ {α : Type} (c : Call (World B) Error α),
      Keeps (fun σ σ' => σ'.dynamics = σ.dynamics) (onWorld c) := fun _ _ => rfl
  suffices h : Keeps (fun σ σ' => σ'.dynamics = σ.dynamics) act.perform from h σ
  cases act with
  | build r d plan site | buildHollow r d plan site =>
    exact hF.bind (hworld _) fun _ => keeps_modify fun _ => rfl
  | fillFrom r source id =>
    exact hF.get_bind fun σ => hF.lift_bind fun _ => hF.lift_bind fun _ => fun _ => rfl
  | edit r ts cs f => exact hF.get_bind fun σ => hF.lift_bind fun _ => hworld _
  | bind r s ts cs =>
    exact hF.get_bind fun σ => hF.lift_bind fun _ => hF.bind (keeps_modify fun _ => rfl) fun _ =>
      hF.bind (hworld _) fun _ => keeps_modify fun _ => rfl
  | execute r | executeCall r id | applyDynamics r =>
    exact hF.get_bind fun σ => hF.lift_bind fun _ => hworld _
  | setDynamic d v => exact absurd rfl (hset d v)
  | closeScope s => exact hF.bind (hworld _) fun _ => keeps_modify fun _ => rfl
  | elsewhere f => exact hworld f

/-- A `Dynamic` has a value once the program has set one. -/
theorem dynamics_eq_none {es : List (PlanEvent B)} {d : Nat} (h : Runs Step σ es σ') :
    σ'.dynamics d = none ↔ σ.dynamics d = none ∧ ∀ e ∈ es, ∀ v, e.act ≠ .setDynamic d v := by
  induction h with
  | nil => simp
  | @cons σ σ₁ σ₂ e es hs _ ih =>
    rw [ih, List.forall_mem_cons, ← and_assoc]
    refine and_congr_left fun _ => ?_
    by_cases hset : ∃ d' v, e.act = .setDynamic d' v
    · obtain ⟨d', v, hact⟩ := hset
      rcases e with ⟨act, out⟩
      obtain rfl : act = _ := hact
      obtain rfl : { σ with dynamics := Function.update σ.dynamics d' (some v) } = σ₁ :=
        congrArg Prod.snd hs.2
      by_cases hd : d = d'
      · subst hd
        simp
      · simp [Function.update_of_ne hd, Ne.symm hd]
    · have hne : ∀ d v, e.act ≠ .setDynamic d v := fun d v he => hset ⟨d, v, he⟩
      rw [hs.dynamics hne]
      exact ⟨fun hn => ⟨hn, hne d⟩, And.left⟩

/-- **All or nothing.** `apply_dynamics` on the handle of the run at `r`, which was built in `first`. -/
structure AllOrNothing (first : Session B) (r : Nat) (σ : Session B) (out : Outcome Error Unit)
    (σ' : Session B) : Prop where
  fails_iff : (∃ e, out = .err e) ↔ σ.Unset r
  unchanged : ∀ e, out = .err e → e = .DynamicUnset ∧ σ' = σ
  applied : ¬σ.Unset r → out = .ok () ∧
    ∃ run₀ run, first.runs.lookup r = some run₀ ∧ σ.runs.lookup r = some run ∧
      run.calls = run₀.calls ∧ ∀ id call, run.calls.lookup id = some call →
        ∃ built node, first.world.nodes.lookup call.node = some built ∧
          σ'.world.nodes.lookup call.node = some node ∧ node.Agrees ∧
          AsBuilt call.sources built.metaVals node.metaVals ∧
          Applied σ.dynamics call.sources node.metaVals
  others : ∀ a, (∀ id, ¬σ.OwnsNode r id a) →
    σ'.world.nodes.lookup a = σ.world.nodes.lookup a

/-- **Dynamics are applied all or nothing**, to a run that isn't edited after it
was built, whatever else the program does. -/
theorem dynamics_all_or_nothing [LawfulDispatch B] {w : World B} {es fs : List (PlanEvent B)}
    {σ₀ σ₁ σ₂ σ₃ : Session B} {out : Outcome Error Unit} (h : Runs Step (init w) es σ₀)
    (hb : Builds r e) (hbuild : σ₀.Step e σ₁) (hrun : Runs (Where Step (NotEdited r)) σ₁ fs σ₂)
    (happly : σ₂.Step ⟨.applyDynamics r, out⟩ σ₃) : AllOrNothing σ₁ r σ₂ out σ₃ ∧
      ∀ d, σ₂.dynamics d = none ↔ ∀ e' ∈ es ++ e :: fs, ∀ v, e'.act ≠ .setDynamic d v := by
  refine ⟨?_, fun d => ?_⟩
  swap
  · rw [dynamics_eq_none (h.append (.cons hbuild hrun.of_where))]
    exact and_iff_right rfl
  have hsound := sound_of_runs h
  have hhandled : σ₀.Handled fun _ _ _ => True :=
    h.preserves (fun _ _ _ h hs => h.step hs fun _ _ _ _ _ _ _ => trivial) (.init w)
  obtain ⟨run, hr, hkept⟩ := Kept.built hb hbuild
  have hinv : σ₂.Sound ∧ Kept run.calls σ₁.world r σ₂ ∧ σ₂.Handled (Copies σ₁.world r) := by
    refine hrun.preserves (I := fun σ => σ.Sound ∧ Kept run.calls σ₁.world r σ ∧
      σ.Handled (Copies σ₁.world r)) ?_ ⟨hsound.step hbuild, hkept, hhandled.built hb hbuild⟩
    intro σ e σ' hi hs
    obtain ⟨hi, hk, hh⟩ := hi
    exact ⟨hi.step hs.1, hk.step hi hh hs, hh.step hs.1 hk.copies⟩
  obtain ⟨hs₂, hk₂, hh₂⟩ := hinv
  obtain ⟨⟨bound, hbound⟩, hp⟩ := happly
  change (do let σ ← Call.get; Session.onWorld ((← σ.bound r).applyDynamics σ.dynamics) :
    Call (Session B) Error Unit) σ₂ = _ at hp
  rw [bound_run hbound fun dynamics bound => bound.applyDynamics dynamics] at hp
  obtain ⟨run₂, hr₂, hcalls⟩ := hk₂.run
  rcases hk₂.applyDynamics hs₂ hh₂ hbound with ⟨hunset, herr⟩ | ⟨hset, w', hok, hall, hothers⟩
  · rw [herr] at hp
    cases hp
    refine ⟨⟨fun _ => hunset, fun _ => ⟨_, rfl⟩⟩, fun e he => ?_, fun hset => absurd hunset hset,
      fun _ _ => rfl⟩
    cases he
    exact ⟨rfl, rfl⟩
  · rw [hok] at hp
    cases hp
    refine ⟨⟨nofun, fun hunset => absurd hunset hset⟩, nofun, fun _ => ⟨rfl, run, run₂, hr, hr₂,
      hcalls, fun id call hcall => hall id call (hcalls ▸ hcall)⟩, fun a ha => ?_⟩
    refine hothers a fun call hcall he => ?_
    obtain ⟨id, hid⟩ := AList.mem_values.mp hcall
    exact ha id ⟨run₂, call, hr₂, hcalls ▸ hid, he⟩

end Session

/-! ## Two nodes with one `Dynamic` -/

namespace Sample

open Backends

/-- A shader with two fields and no slot. -/
def counted : Shader :=
  ⟨⟨"counted", [⟨"n", .Uint⟩, ⟨"t", .Uint⟩], [], fun _ _ lens => lens,
    Backends.Sample.same_length, (1, 1, 1)⟩, .Native Backends.Sample.sevens⟩

/-- Its second field is the `Dynamic` 0. -/
def countedNode : NodeSpec := ⟨counted, [.Uint (some 3), .UintPerRun 0], some (.linear 1), rfl⟩

def sharing : RunSpec :=
  ⟨⟨[], [⟨0, countedNode, [], rfl⟩, ⟨1, countedNode, [], rfl⟩], by decide, by decide⟩, rfl⟩

def counting : Session CpuBackend := ((PlanAct.build 0 0 sharing site).perform (.init opened)).2

def unset : Session CpuBackend := ((PlanAct.bind 0 0 [] [0, 1]).perform counting).2

def set : Session CpuBackend := ((PlanAct.setDynamic 0 5).perform unset).2

def applied : Session CpuBackend := ((PlanAct.applyDynamics 0).perform set).2

def metaVals (σ : Session CpuBackend) (a : Nat) : Option (List MetaValue) :=
  Node.metaVals <$> σ.world.nodes.lookup a

end Sample

open Backends

set_option maxRecDepth 4000

/-- Before the `Dynamic` is set, no meta changes; once it is 5, both do. -/
theorem both_fields_are_applied :
    Sample.unset.Unset 0 ∧ (PlanAct.applyDynamics 0).perform Sample.unset =
      (.err .DynamicUnset, Sample.unset) ∧
    Session.AllOrNothing Sample.counting 0 Sample.set (.ok ()) Sample.applied ∧
    Sample.metaVals Sample.applied 100 = some [.Uint 3, .Uint 5] ∧
    Sample.metaVals Sample.applied 101 = some [.Uint 3, .Uint 5] := by
  have hbuilt : Session.Step (.init Sample.opened) ⟨.build 0 0 Sample.sharing Sample.site, .ok ()⟩
      Sample.counting :=
    ⟨⟨rfl, ⟨by decide, by decide⟩, by decide, by decide⟩, rfl⟩
  have hbuilds : Session.Builds 0
      (⟨.build 0 0 Sample.sharing Sample.site, .ok ()⟩ : PlanEvent CpuBackend) :=
    ⟨rfl, 0, Sample.sharing, Sample.site, .inl rfl⟩
  have hbound : Transition.Where Session.Step (Session.NotEdited 0) Sample.counting
      ⟨.bind 0 0 [] [0, 1], .ok ()⟩ Sample.unset := by
    refine ⟨⟨⟨⟨by decide, rfl⟩, by decide, _, rfl, by decide, by decide⟩, rfl⟩, ?_⟩
    intro ts cs f he
    cases he
  have hset : Transition.Where Session.Step (Session.NotEdited 0) Sample.unset
      ⟨.setDynamic 0 5, .ok ()⟩ Sample.set := by
    refine ⟨⟨trivial, rfl⟩, ?_⟩
    intro ts cs f he
    cases he
  have hfails := Session.dynamics_all_or_nothing (.nil _) hbuilds hbuilt (.single hbound)
    (show Session.Step Sample.unset ⟨.applyDynamics 0, .err .DynamicUnset⟩ _ from
      ⟨⟨_, _, rfl, rfl⟩, rfl⟩)
  have happlies := Session.dynamics_all_or_nothing (.nil _) hbuilds hbuilt
    (.cons hbound (.single hset))
    (show Session.Step Sample.set ⟨.applyDynamics 0, .ok ()⟩ Sample.applied from
      ⟨⟨_, _, rfl, rfl⟩, rfl⟩)
  exact ⟨hfails.1.fails_iff.mp ⟨_, rfl⟩, rfl, happlies.1, by decide, by decide⟩

end Wilupgu.Plan
