import Wilupgu.Plan.Owners

/-! # What a handle names

A handle has a slot of its scope for each tensor and each node of its run, and
the slots stay theirs until the scope ends. -/

namespace Wilupgu.Plan

open Backend Call Transition

variable {B : Type} [Storage B] [Dispatch B] [Capturable B] [Areable B] {w w' : World B}

/-- Slot `i` of the scope `s` is the tensor at `p`. -/
def TensorSlot (w : World B) (s i p : Nat) : Prop :=
  ∃ scope, w.scopes.lookup s = some scope ∧ scope.bufs[i]? = some p

/-- Slot `i` of the scope `s` is the node at `a`. -/
def NodeSlot (w : World B) (s i a : Nat) : Prop :=
  ∃ scope, w.scopes.lookup s = some scope ∧ scope.nodes[i]? = some a

/-- The scope `s` is still open, with no less bound in it. -/
def StaysOpen (w w' : World B) (s : Nat) : Prop :=
  ∀ scope, w.scopes.lookup s = some scope →
    ∃ scope', w'.scopes.lookup s = some scope' ∧ Session.Extends scope scope'

theorem getElem?_of_prefix {α : Type} {l l' : List α} {i : Nat} {a : α} (h : l <+: l')
    (ha : l[i]? = some a) : l'[i]? = some a := by
  obtain ⟨rest, rfl⟩ := h
  obtain ⟨hi, -⟩ := List.getElem?_eq_some_iff.mp ha
  rw [List.getElem?_append_left hi, ha]

theorem TensorSlot.stays {s i p : Nat} (h : TensorSlot w s i p) (hs : StaysOpen w w' s) :
    TensorSlot w' s i p := by
  obtain ⟨scope, hscope, hi⟩ := h
  obtain ⟨scope', hscope', he⟩ := hs scope hscope
  exact ⟨scope', hscope', getElem?_of_prefix he.bufs hi⟩

theorem NodeSlot.stays {s i a : Nat} (h : NodeSlot w s i a) (hs : StaysOpen w w' s) :
    NodeSlot w' s i a := by
  obtain ⟨scope, hscope, hi⟩ := h
  obtain ⟨scope', hscope', he⟩ := hs scope hscope
  exact ⟨scope', hscope', getElem?_of_prefix he.nodes hi⟩

theorem Onward.staysOpen (h : Onward w w') (s : Nat) : StaysOpen w w' s := h.scopes s

theorem scopeBind_ok {s p slot : Nat} (h : Scope.bind s p w = (.ok slot, w')) :
    TensorSlot w' s slot p ∧ w'.nodes = w.nodes := by
  rw [Scope.bind, bind_of_ok (get_run w), check_eq_ok] at h
  obtain ⟨scope, hscope, h⟩ := h
  rw [check_eq_ok] at h
  obtain ⟨t, -, h⟩ := h
  rw [check_eq_ok] at h
  obtain ⟨_, -, h⟩ := h
  rw [bind_of_ok (modify_run _ w)] at h
  cases h
  exact ⟨⟨_, AList.lookup_insert _, List.getElem?_concat_length⟩, rfl⟩

theorem scopeBindNode_ok {s a slot : Nat} (h : Scope.bindNode s a w = (.ok slot, w')) :
    NodeSlot w' s slot a ∧ w'.nodes = w.nodes := by
  rw [Scope.bindNode, bind_of_ok (get_run w), check_eq_ok] at h
  obtain ⟨scope, hscope, h⟩ := h
  rw [check_eq_ok] at h
  obtain ⟨node, -, h⟩ := h
  rw [check_eq_ok] at h
  obtain ⟨_, -, h⟩ := h
  rw [bind_of_ok (modify_run _ w)] at h
  cases h
  exact ⟨⟨_, AList.lookup_insert _, List.getElem?_concat_length⟩, rfl⟩

/-! ## A handle of a run -/

/-- **What a handle says of its run**: which slots its tensors and nodes have,
the arguments of each call, and the metas it keeps, of which `Copy` holds. -/
structure Bound.Holds (Copy : RunCall → List MetaValue → Prop) (run : Run) (w : World B)
    (bound : Bound) : Prop where
  order : bound.order = run.order
  tensors : ∀ id slot, bound.tensors.lookup id = some slot →
    ∃ p, run.tensors.lookup id = some (.Live p) ∧ TensorSlot w bound.scope slot p
  calls : ∀ id slot args, bound.calls.lookup id = some (slot, args) →
    ∃ call layout, run.calls.lookup id = some call ∧ NodeSlot w bound.scope slot call.node ∧
      Run.args call layout bound.tensors = .ok args ∧
      (call.sources.any MetaSource.isPerRun = true → ∃ entry ∈ bound.perRun,
        NodeSlot w bound.scope entry.node call.node ∧ entry.sources = call.sources)
  perRun : ∀ entry ∈ bound.perRun, ∃ id call, run.calls.lookup id = some call ∧
    NodeSlot w bound.scope entry.node call.node ∧ entry.sources = call.sources ∧
    Copy call entry.metaVals

variable {Copy : RunCall → List MetaValue → Prop} {run : Run} {bound bound' : Bound} {s : Nat}

/-- It stays so while the scope stays open. -/
theorem Bound.Holds.stays (h : bound.Holds Copy run w) (hs : StaysOpen w w' bound.scope) :
    bound.Holds Copy run w' := by
  refine ⟨h.order, fun id slot hid => ?_, fun id slot args hid => ?_, fun entry hentry => ?_⟩
  · obtain ⟨p, hp, hslot⟩ := h.tensors id slot hid
    exact ⟨p, hp, hslot.stays hs⟩
  · obtain ⟨call, layout, hcall, hslot, hargs, hperRun⟩ := h.calls id slot args hid
    refine ⟨call, layout, hcall, hslot.stays hs, hargs, fun hany => ?_⟩
    obtain ⟨entry, hentry, hnode, hsources⟩ := hperRun hany
    exact ⟨entry, hentry, hnode.stays hs, hsources⟩
  · obtain ⟨id, call, hcall, hslot, hsources, hcopy⟩ := h.perRun entry hentry
    exact ⟨id, call, hcall, hslot.stays hs, hsources, hcopy⟩

theorem bindTensors_ok {ids : List Nat} {tensors tensors' : Places Nat}
    (h : run.bindTensors s ids tensors w = (.ok tensors', w'))
    (ht : ∀ id slot, tensors.lookup id = some slot →
      ∃ p, run.tensors.lookup id = some (.Live p) ∧ TensorSlot w s slot p) :
    (∀ id slot, tensors'.lookup id = some slot →
      ∃ p, run.tensors.lookup id = some (.Live p) ∧ TensorSlot w' s slot p) ∧
      w'.nodes = w.nodes := by
  induction ids generalizing tensors w with
  | nil =>
    cases h
    exact ⟨ht, rfl⟩
  | cons id rest ih =>
    rw [Run.bindTensors, check_eq_ok] at h
    obtain ⟨tensor, htensor, h⟩ := h
    rw [check_eq_ok] at h
    obtain ⟨p, hlive, h⟩ := h
    obtain ⟨slot, w₁, hbind, h⟩ := bind_eq_ok.mp h
    obtain ⟨hslot, hnodes⟩ := scopeBind_ok hbind
    have honward := scopeBind_onward s p w
    rw [hbind] at honward
    obtain rfl : tensor = .Live p := by
      cases tensor with
      | Live q =>
        cases hlive
        rfl
      | Hollow _ => cases hlive
    have hall := ih h fun id' slot' hid' => ?_
    · exact ⟨hall.1, hall.2.trans hnodes⟩
    · rw [AList.lookup_insert_eq] at hid'
      by_cases he : id' = id
      · subst he
        obtain rfl : slot = slot' := by simpa using hid'
        exact ⟨p, Outcome.okOr_eq_ok.mp htensor, hslot⟩
      · rw [if_neg he] at hid'
        obtain ⟨q, hq, hold⟩ := ht id' slot' hid'
        exact ⟨q, hq, hold.stays (honward.staysOpen s)⟩

theorem bindCall_ok {id : Nat} (h : run.bindCall id bound w = (.ok bound', w'))
    (hholds : bound.Holds Copy run w)
    (hcopy : ∀ call ∈ run.calls.values, ∀ node, w.nodes.lookup call.node = some node →
      Copy call node.metaVals) :
    bound'.scope = bound.scope ∧ bound'.Holds Copy run w' ∧ w'.nodes = w.nodes ∧
      ∀ id', id' ∈ bound'.calls ↔ id' = id ∨ id' ∈ bound.calls := by
  rw [Run.bindCall, check_eq_ok] at h
  obtain ⟨call, hcall, h⟩ := h
  rw [bind_of_ok (get_run w), check_eq_ok] at h
  obtain ⟨node, hnode, h⟩ := h
  rw [check_eq_ok] at h
  obtain ⟨args, hargs, h⟩ := h
  obtain ⟨slot, w₁, hbind, h⟩ := bind_eq_ok.mp h
  obtain ⟨hslot, hnodes⟩ := scopeBindNode_ok hbind
  have honward := scopeBindNode_onward bound.scope call.node w
  rw [hbind] at honward
  have hold := hholds.stays (honward.staysOpen bound.scope)
  have hid : run.calls.lookup id = some call := Outcome.okOr_eq_ok.mp hcall
  cases h
  refine ⟨rfl, ⟨hold.order, hold.tensors, fun id' slot' args' hid' => ?_, fun entry hentry => ?_⟩,
    hnodes, fun id' => AList.mem_insert _⟩
  · rw [AList.lookup_insert_eq] at hid'
    by_cases he : id' = id
    · subst he
      rw [if_pos rfl] at hid'
      cases hid'
      refine ⟨call, node.signature.layout, hid, hslot, hargs, fun hany => ?_⟩
      simp only [hany, if_true]
      exact ⟨⟨slot, node.metaVals, call.sources⟩, by simp, hslot, rfl⟩
    · rw [if_neg he] at hid'
      obtain ⟨call', layout, hcall', hslot', hargs', hperRun⟩ := hold.calls id' slot' args' hid'
      refine ⟨call', layout, hcall', hslot', hargs', fun hany => ?_⟩
      obtain ⟨entry, hentry, hentries⟩ := hperRun hany
      refine ⟨entry, ?_, hentries⟩
      simp only
      split
      · exact List.mem_append_left _ hentry
      · exact hentry
  · simp only at hentry
    split at hentry
    · rcases List.mem_append.mp hentry with hentry | hentry
      · exact hold.perRun entry hentry
      · obtain rfl := List.mem_singleton.mp hentry
        exact ⟨id, call, hid, hslot, rfl, hcopy call (AList.mem_values.mpr ⟨id, hid⟩) node
          (Outcome.expect_eq_ok.mp hnode)⟩
    · exact hold.perRun entry hentry

theorem bindCalls_ok {ids : List Nat} (h : run.bindCalls ids bound w = (.ok bound', w'))
    (hholds : bound.Holds Copy run w)
    (hcopy : ∀ call ∈ run.calls.values, ∀ node, w.nodes.lookup call.node = some node →
      Copy call node.metaVals) :
    bound'.scope = bound.scope ∧ bound'.Holds Copy run w' ∧
      ∀ id, id ∈ bound'.calls ↔ id ∈ ids ∨ id ∈ bound.calls := by
  induction ids generalizing bound w with
  | nil =>
    cases h
    exact ⟨rfl, hholds, by simp⟩
  | cons id rest ih =>
    obtain ⟨bound₁, w₁, hcall, hrest⟩ := bind_eq_ok.mp h
    obtain ⟨hscope, hholds₁, hnodes, hmem⟩ := bindCall_ok hcall hholds hcopy
    obtain ⟨hscope', hholds', hmem'⟩ := ih hrest hholds₁ (hnodes ▸ hcopy)
    refine ⟨hscope'.trans hscope, hholds', fun id' => ?_⟩
    rw [hmem', hmem, List.mem_cons]
    tauto

/-- **`bind`** gives a handle that holds every tensor and every call. -/
theorem bind_ok {ts cs : List Nat} (h : run.bind s ts cs w = (.ok bound, w'))
    (hcopy : ∀ call ∈ run.calls.values, ∀ node, w.nodes.lookup call.node = some node →
      Copy call node.metaVals) :
    bound.scope = s ∧ bound.Holds Copy run w' ∧ ∀ id, id ∈ bound.calls ↔ id ∈ cs := by
  obtain ⟨tensors, w₁, htensors, h⟩ := bind_eq_ok.mp h
  obtain ⟨hslots, hnodes⟩ := bindTensors_ok htensors nofun
  obtain ⟨hscope, hholds, hmem⟩ := bindCalls_ok h ⟨rfl, hslots, nofun, nofun⟩ (hnodes ▸ hcopy)
  exact ⟨hscope, hholds, fun id => by simp [hmem]⟩

/-! ## Every handle of a session -/

namespace Session

variable {Copy : Nat → RunCall → List MetaValue → Prop} {σ σ' : Session B}

/-- **Every handle holds its run**, in the scope it was borrowed for. -/
def Handled (Copy : Nat → RunCall → List MetaValue → Prop) (σ : Session B) : Prop :=
  ∀ r borrow bound, σ.borrows.lookup r = some borrow → borrow.handle = some bound →
    bound.scope = borrow.scope ∧ ∃ run, σ.runs.lookup r = some run ∧
      bound.Holds (Copy r) run σ.world ∧ ∀ id, id ∈ bound.calls ↔ id ∈ run.calls

theorem Handled.init (w : World B) : (init w).Handled Copy := by
  intro r borrow bound hb
  cases hb

/-- Handles stay good if their runs stay as they are and their scopes open. -/
theorem Handled.stays (h : σ.Handled Copy)
    (hborrows : ∀ r borrow, σ'.borrows.lookup r = some borrow → σ.borrows.lookup r = some borrow)
    (hruns : ∀ r run, r ∈ σ.borrows → σ.runs.lookup r = some run → σ'.runs.lookup r = some run)
    (hopen : ∀ r borrow, σ'.borrows.lookup r = some borrow →
      StaysOpen σ.world σ'.world borrow.scope) : σ'.Handled Copy := by
  intro r borrow bound hb hh
  have hold := hborrows r borrow hb
  obtain ⟨hscope, run, hrun, hholds, hmem⟩ := h r borrow bound hold hh
  refine ⟨hscope, run, hruns r run (AList.lookup_isSome.mp (by rw [hold]; rfl)) hrun, ?_, hmem⟩
  exact hholds.stays (hscope ▸ hopen r borrow hb)

/-- A call on the world that leaves open scopes open. -/
theorem Handled.onward (h : σ.Handled Copy) (hborrows : σ'.borrows = σ.borrows)
    (hruns : σ'.runs = σ.runs) (hw : Onward σ.world σ'.world) : σ'.Handled Copy :=
  h.stays (fun _ _ hb => hborrows ▸ hb) (fun _ _ _ hr => hruns ▸ hr)
    fun _ borrow _ => hw.staysOpen borrow.scope

theorem Handled.leaves (h : σ.Handled Copy) (hborrows : σ'.borrows = σ.borrows)
    (hruns : σ'.runs = σ.runs) {lent : Option Nat} (hw : σ.Leaves lent σ'.world) :
    σ'.Handled Copy := by
  refine h.stays (fun _ _ hb => hborrows ▸ hb) (fun _ _ _ hr => hruns ▸ hr) ?_
  intro r borrow hb scope hscope
  rw [hborrows] at hb
  exact hw.scopes r borrow scope hb hscope

/-- A new run, which no handle is of. -/
theorem Handled.put (h : σ.Handled Copy) {r : Nat} {c : Call (World B) Error Run}
    (hr : σ.runs.Free r) (hc : ∀ w, (c w).2.scopes = w.scopes) :
    (Session.put r c σ).2.Handled Copy := by
  have hscopes := hc σ.world
  rw [put_run]
  rcases hb : c σ.world with ⟨run | e | _, w⟩ <;> rw [hb] at hscopes
  all_goals
    refine h.stays (fun _ _ hb => hb) (fun r' run' _ hr' => ?_) fun r' borrow _ scope hscope =>
      ⟨scope, by rw [hscopes, hscope], .refl scope⟩
  · rw [AList.lookup_insert_ne, hr']
    rintro rfl
    cases hr.symm.trans hr'
  · exact hr'
  · exact hr'

variable [Topology B] {e : PlanEvent B}

/-- **Step rule.** Every step leaves good handles, if the metas that a `bind`
finds are ones that `Copy` holds of. -/
theorem Handled.step (h : σ.Handled Copy) (hs : σ.Step e σ')
    (hcopy : ∀ r run, σ.runs.lookup r = some run → ∀ call ∈ run.calls.values, ∀ node,
      σ.world.nodes.lookup call.node = some node → Copy r call node.metaVals) :
    σ'.Handled Copy := by
  obtain ⟨ha, hp⟩ := hs
  rcases e with ⟨act, out⟩
  obtain rfl : (act.perform σ).2 = σ' := congrArg Prod.snd hp
  clear hp
  cases act with
  | build r d plan site => exact h.put ha.1 fun w => (build_within plan d site w).scopes
  | buildHollow r d plan site => exact h.put ha.1 fun w => (buildHollow_within plan d site w).scopes
  | fillFrom r source id =>
    obtain ⟨hne, hr, hs⟩ := ha
    obtain ⟨run, hrun⟩ := exists_of_mem hr.1
    obtain ⟨from', hfrom⟩ := exists_of_mem hs.1
    have hsame : ∀ r', r' ∈ σ.borrows → r' ≠ r ∧ r' ≠ source := by
      intro r' hb
      refine ⟨?_, ?_⟩
      · rintro rfl
        exact AList.free_iff.mp hr.2 hb
      · rintro rfl
        exact AList.free_iff.mp hs.2 hb
    have hopen : ∀ borrow : Borrow, StaysOpen σ.world σ.world borrow.scope :=
      fun borrow scope hscope => ⟨scope, hscope, .refl scope⟩
    change (Session.fillFrom r source id σ).2.Handled Copy
    rw [fillFrom_run hrun hfrom]
    rcases run.fills from' σ.world id with ⟨place, live⟩ | e | _
    all_goals
      refine h.stays (fun _ _ hb => hb) (fun r' run' hb hr' => ?_) fun _ borrow _ => hopen borrow
      obtain ⟨h₁, h₂⟩ := hsame r' hb
    · change ((σ.runs.insert r _).insert source _).lookup r' = some run'
      rw [AList.lookup_insert_ne h₂, AList.lookup_insert_ne h₁, hr']
    · rw [AList.lookup_insert_ne h₂, AList.lookup_insert_ne h₁, hr']
    · rw [AList.lookup_insert_ne h₂, AList.lookup_insert_ne h₁, hr']
  | edit r ts cs f =>
    obtain ⟨-, hleaves, run, hrun, -⟩ := ha
    rw [PlanAct.perform, bind_of_ok (get_run σ), Session.run, hrun, check_run]
    simp only [Outcome.expect, Session.onWorld, zoom_run, edit_world]
    exact h.leaves rfl rfl hleaves
  | bind r s ts cs =>
    obtain ⟨hr, -, run, hrun, -, hcs⟩ := ha
    have hw := bind_onward run s ts cs σ.world
    -- the other runs' handles are as they were
    have hothers : ∀ w borrows, Onward σ.world w → (∀ r', r' ≠ r →
        borrows.lookup r' = σ.borrows.lookup r') → (∀ borrow bound, borrows.lookup r = some borrow →
        borrow.handle = some bound → bound.scope = borrow.scope ∧ bound.Holds (Copy r) run w ∧
          ∀ id, id ∈ bound.calls ↔ id ∈ run.calls) →
        Handled Copy { σ with world := w, borrows } := by
      intro w borrows hw hsame hnew r' borrow bound hb hh
      by_cases he : r' = r
      · subst he
        obtain ⟨hscope, hholds, hmem⟩ := hnew borrow bound hb hh
        exact ⟨hscope, run, hrun, hholds, hmem⟩
      · obtain ⟨hscope, run', hrun', hholds, hmem⟩ := h r' borrow bound (hsame r' he ▸ hb) hh
        exact ⟨hscope, run', hrun', hholds.stays (hw.staysOpen bound.scope), hmem⟩
    change (Session.bind r s ts cs σ).2.Handled Copy
    rw [bind_session_run hrun]
    rcases hb : run.bind s ts cs σ.world with ⟨bound | e | _, w⟩ <;> rw [hb] at hw
    · refine hothers w _ hw (fun r' he => ?_) fun borrow bound' hl hh => ?_
      · rw [AList.lookup_insert_ne he, AList.lookup_insert_ne he]
      · rw [AList.lookup_insert] at hl
        cases hl
        cases hh
        obtain ⟨hscope, hholds, hmem⟩ := bind_ok hb (hcopy r run hrun)
        exact ⟨hscope, hholds, fun id => by rw [hmem, hcs.mem_iff, ← AList.mem_keys]⟩
    all_goals
      refine hothers w _ hw (fun r' he => AList.lookup_insert_ne he) fun borrow bound hl hh => ?_
      rw [AList.lookup_insert] at hl
      cases hl
      cases hh
  | execute r =>
    obtain ⟨bound, hb⟩ := ha
    have hrun := bound_run hb fun _ bound => bound.execute
    exact hrun ▸ h.onward rfl rfl (execute_executed bound σ.world).onward
  | executeCall r id =>
    obtain ⟨bound, hb⟩ := ha
    have hrun := bound_run hb fun _ bound => bound.executeCall id
    exact hrun ▸ h.onward rfl rfl (executeCall_executed bound id σ.world).onward
  | applyDynamics r =>
    obtain ⟨bound, hb⟩ := ha
    have hrun := bound_run hb fun dynamics bound => bound.applyDynamics dynamics
    exact hrun ▸ h.onward rfl rfl (applyDynamics_onward bound σ.dynamics σ.world)
  | setDynamic d value => exact h
  | closeScope s =>
    obtain ⟨scope, hscope⟩ := exists_of_mem ha
    rw [PlanAct.perform, closeScope_run s ha, close_run hscope]
    refine h.stays (fun r borrow hb => (AList.lookup_keep.mp hb).1) (fun _ _ _ hr => hr) ?_
    intro r borrow hb scope' hscope'
    have hne : borrow.scope ≠ s := by simpa using (AList.lookup_keep.mp hb).2
    exact ⟨scope', (AList.lookup_erase_ne hne).trans hscope', .refl scope'⟩
  | elsewhere f => exact h.leaves rfl rfl ha

end Session

end Wilupgu.Plan
