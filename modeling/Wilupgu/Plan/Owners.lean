import Wilupgu.Plan.Building

/-! # What a run owns stays its own

Each place of a tensor or a node of a run is that run's and no other's, and
something stands there, whatever is done with the runs. -/

namespace Wilupgu.Plan

open Backend Call Transition

variable {B : Type} [Storage B] [Dispatch B] [Capturable B] [Areable B]

/-! ## What happens in an open scope -/

namespace Session.Extends

theorem refl (scope : Scope) : Session.Extends scope scope :=
  ⟨rfl, List.prefix_rfl, List.prefix_rfl⟩

theorem trans {scope scope' scope'' : Scope} (h : Session.Extends scope scope')
    (h' : Session.Extends scope' scope'') : Session.Extends scope scope'' :=
  ⟨h'.dev.trans h.dev, h.bufs.trans h'.bufs, h.nodes.trans h'.nodes⟩

end Session.Extends

/-- Open scopes stay open, tensors stay as they are, and nodes where they are. -/
structure Onward (w w' : World B) : Prop where
  tensors : w'.tensors = w.tensors
  nodes : ∀ a ∈ w.nodes, a ∈ w'.nodes
  scopes : ∀ s scope, w.scopes.lookup s = some scope →
    ∃ scope', w'.scopes.lookup s = some scope' ∧ Session.Extends scope scope'

theorem frame_onward : Frame (Onward (B := B)) where
  refl _ := ⟨rfl, fun _ ha => ha, fun _ scope h => ⟨scope, h, .refl scope⟩⟩
  trans h h' := by
    refine ⟨h'.tensors.trans h.tensors, fun a ha => h'.nodes a (h.nodes a ha), ?_⟩
    intro s scope hs
    obtain ⟨scope', hs', he⟩ := h.scopes s scope hs
    obtain ⟨scope'', hs'', he'⟩ := h'.scopes s scope' hs'
    exact ⟨scope'', hs'', he.trans he'⟩

/-- A scope in which more is bound, or noted. -/
theorem onward_setScope {w : World B} {s : Nat} {scope scope' : Scope}
    (h : w.scopes.lookup s = some scope) (he : Session.Extends scope scope') :
    Onward w (w.setScope s scope') := by
  refine ⟨rfl, fun _ ha => ha, fun s' other hs' => ?_⟩
  simp only [World.setScope_scopes, AList.lookup_insert_eq]
  by_cases hne : s' = s
  · subst hne
    obtain rfl : other = scope := Option.some.inj (hs'.symm.trans h)
    exact ⟨scope', if_pos rfl, he⟩
  · exact ⟨other, by rw [if_neg hne, hs'], .refl other⟩

theorem scopeBind_onward (s p : Nat) : Keeps Onward (Scope.bind (B := B) s p) := by
  intro w
  rw [Scope.bind, bind_of_ok (get_run w)]
  refine frame_onward.check_bind_at fun scope hscope => frame_onward.check_bind_at fun t _ =>
    frame_onward.check_bind_at fun _ _ => ?_
  exact onward_setScope (Outcome.expect_eq_ok.mp hscope)
    ⟨rfl, List.prefix_append _ _, List.prefix_rfl⟩

theorem scopeBindNode_onward (s a : Nat) : Keeps Onward (Scope.bindNode (B := B) s a) := by
  intro w
  rw [Scope.bindNode, bind_of_ok (get_run w)]
  refine frame_onward.check_bind_at fun scope hscope => frame_onward.check_bind_at fun t _ =>
    frame_onward.check_bind_at fun _ _ => ?_
  exact onward_setScope (Outcome.expect_eq_ok.mp hscope)
    ⟨rfl, List.prefix_rfl, List.prefix_append _ _⟩

/-- What running nodes in scopes does: to devices, and to what a scope notes. -/
structure Executed (w w' : World B) : Prop where
  tensors : w'.tensors = w.tensors
  nodes : w'.nodes = w.nodes
  scopes : ∀ s scope, w.scopes.lookup s = some scope →
    ∃ recording, w'.scopes.lookup s = some { scope with recording }

theorem frame_executed : Frame (Executed (B := B)) where
  refl _ := ⟨rfl, rfl, fun _ scope h => ⟨scope.recording, h⟩⟩
  trans h h' := by
    refine ⟨h'.tensors.trans h.tensors, h'.nodes.trans h.nodes, fun s scope hs => ?_⟩
    obtain ⟨recording, hs'⟩ := h.scopes s scope hs
    obtain ⟨recording', hs''⟩ := h'.scopes s _ hs'
    exact ⟨recording', hs''⟩

theorem executed_setScope {w : World B} {s : Nat} {scope : Scope}
    (h : w.scopes.lookup s = some scope) (recording : Option (List RecordedCall)) :
    Executed w (w.setScope s { scope with recording }) := by
  refine ⟨rfl, rfl, fun s' other hs' => ?_⟩
  rw [World.setScope_scopes, AList.lookup_insert_eq]
  by_cases hne : s' = s
  · subst hne
    obtain rfl : other = scope := Option.some.inj (hs'.symm.trans h)
    exact ⟨recording, if_pos rfl⟩
  · exact ⟨other.recording, by rw [if_neg hne, hs']⟩

theorem Executed.onward {w w' : World B} (h : Executed w w') : Onward w w' := by
  refine ⟨h.tensors, fun a ha => by rwa [h.nodes], fun s scope hs => ?_⟩
  obtain ⟨recording, hs'⟩ := h.scopes s scope hs
  exact ⟨_, hs', rfl, List.prefix_rfl, List.prefix_rfl⟩

theorem scopeExecute_executed (s n : Nat) (args : List Arg) :
    Keeps Executed (Scope.execute (B := B) s n args) := by
  intro w
  have hF := frame_executed (B := B)
  have hdevice : ∀ (w : World B) d dev, Executed w (w.setDevice d dev) :=
    fun _ _ _ => ⟨rfl, rfl, fun _ scope h => ⟨scope.recording, h⟩⟩
  rw [Scope.execute, bind_of_ok (get_run w)]
  refine hF.check_bind_at fun scope hscope => hF.check_bind_at fun node hnode =>
    hF.check_bind_at fun _ _ => hF.check_bind_at fun bindings _ => ?_
  rw [bind_run, mapErr_run, onRawDevice_run]
  rcases Dispatch.executeRaw node.1 node.2.raw bindings (w.devices scope.dev).raw with
    ⟨_ | _ | _, raw⟩
  · simp only [Outcome.mapErr_ok]
    split
    · exact hF.trans (hdevice w scope.dev _)
        (executed_setScope (w := w.setDevice scope.dev _) (Outcome.expect_eq_ok.mp hscope) _)
    · exact hdevice w scope.dev _
  · exact hdevice w scope.dev _
  · exact hdevice w scope.dev _

theorem scopeUpdateMeta_onward (s n : Nat) (vals : List MetaValue) :
    Keeps Onward (Scope.updateMeta (B := B) s n vals) := by
  refine frame_onward.get_bind fun _ => frame_onward.lift_bind fun _ =>
    frame_onward.lift_bind fun node => frame_onward.get_bind fun _ =>
      frame_onward.lift_bind fun _ => fun w => ?_
  exact ⟨rfl, fun a ha => (AList.mem_insert w.nodes).mpr (.inr ha),
    fun _ scope h => ⟨scope, h, .refl scope⟩⟩

/-- `bind` does what binding tensors and nodes one by one does. -/
theorem bind_keeps {R : World B → World B → Prop} (hR : Frame R)
    (htensor : ∀ s p, Keeps R (Scope.bind (B := B) s p))
    (hnode : ∀ s a, Keeps R (Scope.bindNode (B := B) s a)) (run : Run) (s : Nat)
    (ts cs : List Nat) : Keeps R (run.bind (B := B) s ts cs) := by
  have htensors : ∀ ids tensors, Keeps R (run.bindTensors (B := B) s ids tensors) := by
    intro ids
    induction ids with
    | nil => exact fun tensors => hR.pure tensors
    | cons id rest ih =>
      exact fun tensors => hR.lift_bind fun _ => hR.lift_bind fun p =>
        hR.bind (htensor s p) fun slot => ih (tensors.insert id slot)
  have hcalls : ∀ ids bound, Keeps R (run.bindCalls (B := B) ids bound) := by
    intro ids
    induction ids with
    | nil => exact fun bound => hR.pure bound
    | cons id rest ih =>
      intro bound
      refine hR.bind ?_ fun bound' => ih bound'
      exact hR.lift_bind fun call => hR.get_bind fun _ => hR.lift_bind fun node =>
        hR.lift_bind fun args => hR.bind (hnode _ _) fun slot => hR.pure _
  exact hR.bind (htensors ts ∅) fun _ => hcalls cs _

theorem bind_onward (run : Run) (s : Nat) (ts cs : List Nat) :
    Keeps Onward (run.bind (B := B) s ts cs) :=
  bind_keeps frame_onward scopeBind_onward scopeBindNode_onward run s ts cs

theorem executeCall_executed (bound : Bound) (id : Nat) :
    Keeps Executed (bound.executeCall (B := B) id) :=
  frame_executed.lift_bind fun call => scopeExecute_executed bound.scope call.1 call.2

theorem execute_executed (bound : Bound) : Keeps Executed (bound.execute (B := B)) :=
  frame_executed.forM fun call _ => keeps_mapErr (executeCall_executed bound call.1)

theorem applyDynamics_onward (bound : Bound) (dynamics : Dynamics) :
    Keeps Onward (bound.applyDynamics (B := B) dynamics) :=
  frame_onward.lift_bind fun _ => frame_onward.forM fun entry _ =>
    scopeUpdateMeta_onward bound.scope entry.1 entry.2

/-! ## What a step does to the session -/

section Steps

variable {σ σ' : Session B} {r : Nat}

theorem put_run (r : Nat) (c : Call (World B) Error Run) (σ : Session B) : Session.put r c σ =
    match c σ.world with
    | (.ok run, w) => (.ok (), { σ with world := w, runs := σ.runs.insert r run })
    | (.err e, w) => (.err e, { σ with world := w })
    | (.panic, w) => (.panic, { σ with world := w }) := by
  rw [Session.put, Session.onWorld, bind_run, zoom_run]
  rcases c σ.world with ⟨_ | _ | _, w⟩ <;> rfl

theorem edit_world (run : Run) (ts cs : List Nat) (f : Call (World B) Error Unit) (w : World B) :
    (run.edit ts cs f w).2 = (f w).2 := by
  rw [Run.edit, bind_run, attempt_run]
  rcases f w with ⟨out | e | _, w'⟩
  · simp only
    rw [bind_of_ok (get_run w'), check_run]
    split <;> rfl
  · simp only
    rw [bind_of_ok (get_run w'), check_run]
    split <;> rfl
  · rfl

theorem bind_session_run {run : Run} (h : σ.runs.lookup r = some run) (s : Nat) (ts cs : List Nat) :
    Session.bind r s ts cs σ =
      match run.bind s ts cs σ.world with
      | (.ok bound, w) =>
        (.ok (), { σ with world := w, borrows := (σ.borrows.insert r ⟨s, none⟩).insert r ⟨s, some bound⟩ })
      | (.err e, w) => (.err e, { σ with world := w, borrows := σ.borrows.insert r ⟨s, none⟩ })
      | (.panic, w) => (.panic, { σ with world := w, borrows := σ.borrows.insert r ⟨s, none⟩ }) := by
  rw [Session.bind, bind_of_ok (get_run σ), Session.run, h, check_run]
  simp only [Outcome.expect]
  rw [bind_of_ok (modify_run _ σ), Call.bind_run, Session.onWorld, zoom_run]
  rcases run.bind s ts cs σ.world with ⟨_ | _ | _, w⟩ <;> rfl

theorem closeScope_run (s : Nat) (h : s ∈ σ.world.scopes) : Session.closeScope s σ =
    (.ok (), { σ with
      world := (Scope.close s σ.world).2
      borrows := σ.borrows.keep fun borrow => borrow.scope ≠ s }) := by
  obtain ⟨scope, hscope⟩ := exists_of_mem h
  rw [Session.closeScope, bind_run, Session.onWorld, zoom_run, close_run hscope]
  rfl

/-- What a handle does, it does to the world. -/
theorem bound_run {bound : Bound} (h : σ.Binds r bound)
    (c : Dynamics → Bound → Call (World B) Error Unit) :
    (do let σ ← Call.get; Session.onWorld (c σ.dynamics (← σ.bound r)) :
      Call (Session B) Error Unit) σ =
      ((c σ.dynamics bound σ.world).1, { σ with world := (c σ.dynamics bound σ.world).2 }) := by
  obtain ⟨borrow, hb, hh⟩ := h
  rw [bind_of_ok (get_run σ), Session.bound, hb, Option.bind_some, hh, check_run]
  rfl

/-- The two runs after `fill_from`. -/
def Session.filled (σ : Session B) (r source id : Nat) (run from' : Run)
    (place live : AnyTensor) : Session B :=
  { σ with
    runs := (σ.runs.insert r { run with tensors := run.tensors.insert id live }).insert source
      { from' with tensors := from'.tensors.insert id place } }

theorem fillFrom_run {source : Nat} {run from' : Run} (hr : σ.runs.lookup r = some run)
    (hs : σ.runs.lookup source = some from') (id : Nat) : Session.fillFrom r source id σ =
      match run.fills from' σ.world id with
      | .ok (place, live) => (.ok (), σ.filled r source id run from' place live)
      | .err e => (.err e, { σ with runs := (σ.runs.insert r run).insert source from' })
      | .panic => (.panic, { σ with runs := (σ.runs.insert r run).insert source from' }) := by
  rw [Session.fillFrom, bind_of_ok (get_run σ), Session.run, Session.run, hr, hs, check_run]
  simp only [Outcome.expect]
  rw [check_run]
  simp only
  rw [zoom_run, Run.fillFrom, bind_of_ok (get_run _)]
  simp only
  rw [check_run]
  rcases run.fills from' σ.world id with ⟨_, _⟩ | _ | _ <;> rfl

theorem fills_eq_ok {w : World B} {run source : Run} {id : Nat} {place live : AnyTensor} :
    run.fills source w id = .ok (place, live) ↔
      run.device = source.device ∧ run.tensors.lookup id = some place ∧
        source.tensors.lookup id = some live ∧
          ∃ hollow p t, place = .Hollow hollow ∧ live = .Live p ∧ w.tensors.lookup p = some t ∧
            hollow.kind = t.kind ∧ hollow.len = t.len := by
  rw [Run.fills, Outcome.check_bind_eq_ok, Rules.sameDevice_eq_ok]
  simp only [Run.anyTensor, Outcome.bind_eq_ok, Outcome.okOr_eq_ok]
  constructor
  · rintro ⟨hdev, place', hplace, live', hlive, h⟩
    rcases place' with p | hollow
    · cases h
    simp only [AnyTensor.isHollow, Bool.not_true, Bool.false_eq_true, if_false] at h
    rcases live' with p | other
    · simp only [AnyTensor.live, AnyTensor.kind, AnyTensor.len, Outcome.bind_eq_ok,
        Outcome.pure_def, Outcome.ok.injEq, World.tensor, Outcome.expect_eq_ok,
        Prod.mk.injEq] at h
      obtain ⟨_, -, _, rfl, _, ⟨t, ht, rfl⟩, _, hkind, _, rfl, _, ⟨t', ht', rfl⟩, _, hlen, rfl, rfl⟩
        := h
      obtain rfl : t = t' := Option.some.inj (ht.symm.trans ht')
      exact ⟨hdev, hplace, hlive, hollow, p, t, rfl, rfl, ht, Rules.sameKind_eq_ok.mp hkind,
        Rules.sameLen_eq_ok.mp hlen⟩
    · cases h
  · rintro ⟨hdev, hplace, hlive, hollow, p, t, rfl, rfl, ht, hkind, hlen⟩
    refine ⟨hdev, _, hplace, _, hlive, ?_⟩
    simp [AnyTensor.isHollow, AnyTensor.live, AnyTensor.kind, AnyTensor.len, World.tensor, ht,
      Outcome.expect, Rules.sameKind, Rules.sameLen, hkind, hlen]

end Steps

/-! ## Owners -/

namespace Session

/-- The node at `a` is that of the call `id` of the run at `r`. -/
def OwnsNode (σ : Session B) (r id a : Nat) : Prop :=
  ∃ run call, σ.runs.lookup r = some run ∧ run.calls.lookup id = some call ∧ call.node = a

/-- The tensor at `p` is the live tensor `id` of the run at `r`. -/
def OwnsTensor (σ : Session B) (r id p : Nat) : Prop :=
  ∃ run, σ.runs.lookup r = some run ∧ run.tensors.lookup id = some (.Live p)

/-- **What a run owns** is there, and no other run's. -/
structure Sound (σ : Session B) : Prop where
  node : ∀ r id a, σ.OwnsNode r id a → a ∈ σ.world.nodes
  tensor : ∀ r id p, σ.OwnsTensor r id p → p ∈ σ.world.tensors
  node_once : ∀ r id r' id' a, σ.OwnsNode r id a → σ.OwnsNode r' id' a → r = r' ∧ id = id'
  tensor_once : ∀ r id r' id' p, σ.OwnsTensor r id p → σ.OwnsTensor r' id' p → r = r' ∧ id = id'

theorem Sound.init (w : World B) : (init w).Sound := by
  have hnode : ∀ r id a, ¬(Session.init w).OwnsNode r id a := by
    intro r id a h
    obtain ⟨run, call, hr, -⟩ := h
    cases hr
  have htensor : ∀ r id p, ¬(Session.init w).OwnsTensor r id p := by
    intro r id p h
    obtain ⟨run, hr, -⟩ := h
    cases hr
  exact ⟨fun r id a h => absurd h (hnode r id a), fun r id p h => absurd h (htensor r id p),
    fun r id _ _ a h => absurd h (hnode r id a), fun r id _ _ p h => absurd h (htensor r id p)⟩

variable {σ σ' : Session B} {r : Nat}

/-- Runs stay sound if what they own stays where it is. -/
theorem Sound.same_runs (h : σ.Sound) (hruns : ∀ r, σ'.runs.lookup r = σ.runs.lookup r)
    (hnodes : ∀ r id a, σ.OwnsNode r id a → a ∈ σ'.world.nodes)
    (htensors : ∀ r id p, σ.OwnsTensor r id p → p ∈ σ'.world.tensors) : σ'.Sound := by
  have hnode : ∀ r id a, σ'.OwnsNode r id a → σ.OwnsNode r id a := by
    intro r id a ho
    rwa [OwnsNode, hruns] at ho
  have htensor : ∀ r id p, σ'.OwnsTensor r id p → σ.OwnsTensor r id p := by
    intro r id p ho
    rwa [OwnsTensor, hruns] at ho
  exact ⟨fun r id a ho => hnodes r id a (hnode r id a ho),
    fun r id p ho => htensors r id p (htensor r id p ho),
    fun r id r' id' a ho ho' => h.node_once r id r' id' a (hnode r id a ho) (hnode r' id' a ho'),
    fun r id r' id' p ho ho' =>
      h.tensor_once r id r' id' p (htensor r id p ho) (htensor r' id' p ho')⟩

theorem Sound.onward (h : σ.Sound) (hruns : ∀ r, σ'.runs.lookup r = σ.runs.lookup r)
    (hw : Onward σ.world σ'.world) : σ'.Sound := by
  refine h.same_runs hruns (fun r id a ho => hw.nodes a (h.node r id a ho)) fun r id p ho => ?_
  rw [hw.tensors]
  exact h.tensor r id p ho

theorem Sound.leaves (h : σ.Sound) (hruns : ∀ r, σ'.runs.lookup r = σ.runs.lookup r)
    {lent : Option Nat} (hw : σ.Leaves lent σ'.world) : σ'.Sound := by
  refine h.same_runs hruns (fun r id a ho => ?_) fun r id p ho => ?_
  · obtain ⟨run, call, hr, hcall, rfl⟩ := ho
    exact (hw.held r run hr).1 call (AList.mem_values.mpr ⟨id, hcall⟩)
  · obtain ⟨run, hr, hp⟩ := ho
    exact (hw.held r run hr).2 p (AList.mem_values.mpr ⟨id, hp⟩)

/-- What is done at free places only leaves what is owned. -/
theorem Sound.within (h : σ.Sound) {P A : Nat → Prop} (hP : ∀ p, P p → σ.world.tensors.Free p)
    (hA : ∀ a, A a → σ.world.nodes.Free a) {w : World B} (hw : Within P A σ.world w) :
    (∀ r id a, σ.OwnsNode r id a → a ∈ w.nodes) ∧
      ∀ r id p, σ.OwnsTensor r id p → p ∈ w.tensors := by
  refine ⟨fun r id a ho => ?_, fun r id p ho => ?_⟩
  · have ha := h.node r id a ho
    rw [← AList.lookup_isSome, hw.nodes a fun hfree => AList.free_iff.mp (hA a hfree) ha]
    exact AList.lookup_isSome.mpr ha
  · have hp := h.tensor r id p ho
    rw [← AList.lookup_isSome, hw.tensors p fun hfree => AList.free_iff.mp (hP p hfree) hp]
    exact AList.lookup_isSome.mpr hp

/-- A new run whose places were free. -/
theorem Sound.add (h : σ.Sound) {run : Run} {w : World B} (hr : σ.runs.Free r)
    (hnodes : ∀ r id a, σ.OwnsNode r id a → a ∈ w.nodes)
    (htensors : ∀ r id p, σ.OwnsTensor r id p → p ∈ w.tensors)
    (hcalls : ∀ id call, run.calls.lookup id = some call →
      call.node ∈ w.nodes ∧ σ.world.nodes.Free call.node)
    (hcalls_once : ∀ id id' call call', run.calls.lookup id = some call →
      run.calls.lookup id' = some call' → call.node = call'.node → id = id')
    (hlive : ∀ id p, run.tensors.lookup id = some (.Live p) →
      p ∈ w.tensors ∧ σ.world.tensors.Free p)
    (hlive_once : ∀ id id' p, run.tensors.lookup id = some (.Live p) →
      run.tensors.lookup id' = some (.Live p) → id = id') :
    Sound { σ with world := w, runs := σ.runs.insert r run } := by
  -- an owned place is one of the new run's or was owned before
  have hnode : ∀ r' id a, Session.OwnsNode { σ with world := w, runs := σ.runs.insert r run } r' id a →
      (r' = r ∧ ∃ call, run.calls.lookup id = some call ∧ call.node = a) ∨
        (r' ≠ r ∧ σ.OwnsNode r' id a) := by
    intro r' id a ho
    obtain ⟨run', call, hr', hcall, ha⟩ := ho
    simp only [AList.lookup_insert_eq] at hr'
    by_cases he : r' = r
    · rw [if_pos he] at hr'
      cases hr'
      exact .inl ⟨he, call, hcall, ha⟩
    · rw [if_neg he] at hr'
      exact .inr ⟨he, run', call, hr', hcall, ha⟩
  have htensor : ∀ r' id p,
      Session.OwnsTensor { σ with world := w, runs := σ.runs.insert r run } r' id p →
      (r' = r ∧ run.tensors.lookup id = some (.Live p)) ∨ (r' ≠ r ∧ σ.OwnsTensor r' id p) := by
    intro r' id p ho
    obtain ⟨run', hr', hp⟩ := ho
    simp only [AList.lookup_insert_eq] at hr'
    by_cases he : r' = r
    · rw [if_pos he] at hr'
      cases hr'
      exact .inl ⟨he, hp⟩
    · rw [if_neg he] at hr'
      exact .inr ⟨he, run', hr', hp⟩
  have hnew : ∀ id call, run.calls.lookup id = some call → ∀ r' id', ¬σ.OwnsNode r' id' call.node :=
    fun id call hcall r' id' ho =>
      AList.free_iff.mp (hcalls id call hcall).2 (h.node r' id' call.node ho)
  have hnew' : ∀ id p, run.tensors.lookup id = some (.Live p) → ∀ r' id', ¬σ.OwnsTensor r' id' p :=
    fun id p hp r' id' ho => AList.free_iff.mp (hlive id p hp).2 (h.tensor r' id' p ho)
  refine ⟨fun r' id a ho => ?_, fun r' id p ho => ?_, fun r₁ id₁ r₂ id₂ a ho₁ ho₂ => ?_,
    fun r₁ id₁ r₂ id₂ p ho₁ ho₂ => ?_⟩
  · obtain ⟨-, call, hcall, rfl⟩ | ⟨-, ho⟩ := hnode r' id a ho
    · exact (hcalls id call hcall).1
    · exact hnodes r' id a ho
  · obtain ⟨-, hp⟩ | ⟨-, ho⟩ := htensor r' id p ho
    · exact (hlive id p hp).1
    · exact htensors r' id p ho
  · obtain ⟨rfl, call, hcall, rfl⟩ | ⟨-, hold₁⟩ := hnode r₁ id₁ a ho₁
    · obtain ⟨rfl, call', hcall', he⟩ | ⟨-, hold₂⟩ := hnode r₂ id₂ _ ho₂
      · exact ⟨rfl, hcalls_once id₁ id₂ call call' hcall hcall' he.symm⟩
      · exact absurd hold₂ (hnew id₁ call hcall r₂ id₂)
    · obtain ⟨rfl, call', hcall', rfl⟩ | ⟨-, hold₂⟩ := hnode r₂ id₂ a ho₂
      · exact absurd hold₁ (hnew id₂ call' hcall' r₁ id₁)
      · exact h.node_once r₁ id₁ r₂ id₂ a hold₁ hold₂
  · obtain ⟨rfl, hp⟩ | ⟨-, hold₁⟩ := htensor r₁ id₁ p ho₁
    · obtain ⟨rfl, hp'⟩ | ⟨-, hold₂⟩ := htensor r₂ id₂ p ho₂
      · exact ⟨rfl, hlive_once id₁ id₂ p hp hp'⟩
      · exact absurd hold₂ (hnew' id₁ p hp r₂ id₂)
    · obtain ⟨rfl, hp'⟩ | ⟨-, hold₂⟩ := htensor r₂ id₂ p ho₂
      · exact absurd hold₁ (hnew' id₂ p hp' r₁ id₁)
      · exact h.tensor_once r₁ id₁ r₂ id₂ p hold₁ hold₂

theorem builtCalls_stand {d : Nat} {plan : RunSpec} {site : Site B} {w w' : World B}
    (hv : NodesVacant w plan site) (hbuilt : NodesBuilt plan d site w') {id : Nat} {call : RunCall}
    (hcall : (builtCalls plan site).lookup id = some call) :
    call.node ∈ w'.nodes ∧ w.nodes.Free call.node := by
  obtain ⟨spec, hspec, -, rfl⟩ := AList.lookup_ofList.mp hcall
  obtain ⟨node, hnode, -⟩ := hbuilt spec hspec
  exact ⟨AList.lookup_isSome.mp (by rw [hnode]; rfl), hv.address spec hspec⟩

theorem builtCalls_once {plan : RunSpec} {site : Site B} {w : World B}
    (hv : NodesVacant w plan site)
    {id id' : Nat} {call call' : RunCall} (hcall : (builtCalls plan site).lookup id = some call)
    (hcall' : (builtCalls plan site).lookup id' = some call') (he : call.node = call'.node) :
    id = id' := by
  obtain ⟨spec, hspec, rfl, rfl⟩ := AList.lookup_ofList.mp hcall
  obtain ⟨spec', hspec', rfl, rfl⟩ := AList.lookup_ofList.mp hcall'
  rw [List.inj_on_of_nodup_map hv.addresses hspec hspec' he]

/-- **A build** adds what it made to what is owned, or leaves it as it was. -/
theorem Sound.build [Topology B] (h : σ.Sound) {d : Nat} {plan : RunSpec} {site : Site B}
    (hr : σ.runs.Free r) (hv : Vacant σ.world plan site) :
    (Session.put r (plan.build d site) σ).2.Sound := by
  have hwithin := build_within plan d site σ.world
  have hfreeP : ∀ p, site.places plan p → σ.world.tensors.Free p := by
    intro p hp
    obtain ⟨spec, hspec, rfl⟩ := hp
    exact hv.place spec hspec
  have hfreeA : ∀ a, site.addresses plan a → σ.world.nodes.Free a := by
    intro a ha
    obtain ⟨spec, hspec, rfl⟩ := ha
    exact hv.address spec hspec
  rw [put_run]
  rcases hb : plan.build d site σ.world with ⟨run | e | _, w⟩ <;> rw [hb] at hwithin
  · obtain ⟨hnodes, htensors⟩ := h.within hfreeP hfreeA hwithin
    obtain ⟨rfl, hbuilt, hmade, -⟩ := build_ok hv hb
    refine h.add hr hnodes htensors ?_ ?_ ?_ ?_
    · exact fun id call => builtCalls_stand hv.toNodesVacant hbuilt
    · exact fun id id' call call' => builtCalls_once hv.toNodesVacant
    · intro id p hp
      obtain ⟨spec, hspec, -, rfl⟩ := builtTensors_lookup.mp hp
      obtain ⟨t, ht, -⟩ := hmade spec hspec
      exact ⟨AList.lookup_isSome.mp (by rw [ht]; rfl), hv.place spec hspec⟩
    · intro id id' p hp hp'
      obtain ⟨spec, hspec, rfl, rfl⟩ := builtTensors_lookup.mp hp
      obtain ⟨spec', hspec', rfl, he⟩ := builtTensors_lookup.mp hp'
      rw [List.inj_on_of_nodup_map hv.places hspec hspec' he.symm]
  · obtain ⟨hnodes, htensors⟩ := h.within hfreeP hfreeA hwithin
    exact h.same_runs (fun _ => rfl) hnodes htensors
  · obtain ⟨hnodes, htensors⟩ := h.within hfreeP hfreeA hwithin
    exact h.same_runs (fun _ => rfl) hnodes htensors

theorem Sound.buildHollow [Topology B] (h : σ.Sound) {d : Nat} {plan : RunSpec} {site : Site B}
    (hr : σ.runs.Free r) (hv : NodesVacant σ.world plan site) :
    (Session.put r (plan.buildHollow d site) σ).2.Sound := by
  have hwithin := buildHollow_within plan d site σ.world
  have hfreeA : ∀ a, site.addresses plan a → σ.world.nodes.Free a := by
    intro a ha
    obtain ⟨spec, hspec, rfl⟩ := ha
    exact hv.address spec hspec
  rw [put_run]
  rcases hb : plan.buildHollow d site σ.world with ⟨run | e | _, w⟩ <;> rw [hb] at hwithin
  · obtain ⟨hnodes, htensors⟩ := h.within (fun _ => False.elim) hfreeA hwithin
    obtain ⟨tensors, hhollow, rfl, hbuilt, -⟩ := buildHollow_ok hv hb
    -- none of its tensors is live
    have hnone : ∀ id p, (builtRun plan d site tensors.toAList).tensors.lookup id ≠
        some (.Live p) := by
      intro id p hp
      obtain ⟨_, -, -, _, -, he⟩ := (hollowTensors_lookup hhollow).mp hp
      cases he
    refine h.add hr hnodes htensors ?_ ?_ ?_ ?_
    · exact fun id call => builtCalls_stand hv hbuilt
    · exact fun id id' call call' => builtCalls_once hv
    · exact fun id p hp => absurd hp (hnone id p)
    · exact fun id id' p hp => absurd hp (hnone id p)
  · obtain ⟨hnodes, htensors⟩ := h.within (fun _ => False.elim) hfreeA hwithin
    exact h.same_runs (fun _ => rfl) hnodes htensors
  · obtain ⟨hnodes, htensors⟩ := h.within (fun _ => False.elim) hfreeA hwithin
    exact h.same_runs (fun _ => rfl) hnodes htensors

/-! ### After a `fill_from` -/

section Filled

variable {source id : Nat} {run from' : Run} (hr : σ.runs.lookup r = some run)
  (hs : σ.runs.lookup source = some from') (hne : r ≠ source)
include hr hs

omit hr hs in
/-- Runs put back as they were. -/
theorem unchanged_lookup (hr : σ.runs.lookup r = some run)
    (hs : σ.runs.lookup source = some from') (r' : Nat) :
    ((σ.runs.insert r run).insert source from').lookup r' = σ.runs.lookup r' := by
  rw [AList.lookup_insert_self, AList.lookup_insert_self hr]
  rw [AList.lookup_insert_self hr, hs]

theorem filled_ownsNode {place live : AnyTensor} {r' id' a : Nat} :
    (σ.filled r source id run from' place live).OwnsNode r' id' a ↔ σ.OwnsNode r' id' a := by
  simp only [OwnsNode, filled, AList.lookup_insert_eq]
  by_cases h₁ : r' = source
  · subst h₁
    simp [hs]
  · by_cases h₂ : r' = r
    · subst h₂
      simp [hr, h₁]
    · simp [h₁, h₂]

include hne in
/-- The live tensor has changed hands, and nothing else. -/
theorem filled_ownsTensor {hollow : HollowTensor} {p : Nat} {r' id' q : Nat}
    (hplace : run.tensors.lookup id = some (.Hollow hollow)) :
    (σ.filled r source id run from' (.Hollow hollow) (.Live p)).OwnsTensor r' id' q ↔
      (r' = r ∧ id' = id ∧ q = p) ∨ (σ.OwnsTensor r' id' q ∧ ¬(r' = source ∧ id' = id)) := by
  simp only [OwnsTensor, filled, AList.lookup_insert_eq]
  by_cases h₁ : r' = source
  · subst h₁
    by_cases h₃ : id' = id
    · simp [hs, h₃, Ne.symm hne, AList.lookup_insert_eq]
    · simp [hs, h₃]
  · by_cases h₂ : r' = r
    · subst h₂
      by_cases h₃ : id' = id
      · subst h₃
        simp [hr, h₁, hplace, eq_comm]
      · simp [hr, h₁, h₃]
    · simp [h₁, h₂]

end Filled

theorem Sound.fillFrom (h : σ.Sound) {source : Nat} {run from' : Run}
    (hr : σ.runs.lookup r = some run) (hs : σ.runs.lookup source = some from') (hne : r ≠ source)
    (id : Nat) : (Session.fillFrom r source id σ).2.Sound := by
  rw [fillFrom_run hr hs]
  rcases hf : run.fills from' σ.world id with ⟨place, live⟩ | e | _
  · obtain ⟨-, hplace, hlive, hollow, p, t, rfl, rfl, -⟩ := fills_eq_ok.mp hf
    have howned : σ.OwnsTensor source id p := ⟨from', hs, hlive⟩
    have hnode {r' id' a : Nat} :
        (σ.filled r source id run from' (.Hollow hollow) (.Live p)).OwnsNode r' id' a ↔
          σ.OwnsNode r' id' a :=
      filled_ownsNode hr hs
    refine ⟨fun r' id' a ho => h.node r' id' a (hnode.mp ho), fun r' id' q ho => ?_,
      fun r₁ id₁ r₂ id₂ a ho₁ ho₂ => h.node_once r₁ id₁ r₂ id₂ a (hnode.mp ho₁) (hnode.mp ho₂),
      fun r₁ id₁ r₂ id₂ q ho₁ ho₂ => ?_⟩
    · rcases (filled_ownsTensor hr hs hne hplace).mp ho with ⟨-, -, rfl⟩ | ⟨ho, -⟩
      · exact h.tensor source id q howned
      · exact h.tensor r' id' q ho
    · -- it was the source's before, so no other run has it after
      rcases (filled_ownsTensor hr hs hne hplace).mp ho₁ with ⟨rfl, rfl, rfl⟩ | ⟨hold₁, hnot₁⟩ <;>
        rcases (filled_ownsTensor hr hs hne hplace).mp ho₂ with ⟨h₁, h₂, h₃⟩ | ⟨hold₂, hnot₂⟩
      · exact ⟨h₁.symm, h₂.symm⟩
      · obtain ⟨rfl, rfl⟩ := h.tensor_once _ _ _ _ q hold₂ howned
        exact absurd ⟨rfl, rfl⟩ hnot₂
      · subst h₃
        obtain ⟨rfl, rfl⟩ := h.tensor_once _ _ _ _ q hold₁ howned
        exact absurd ⟨rfl, rfl⟩ hnot₁
      · exact h.tensor_once _ _ _ _ q hold₁ hold₂
  · exact h.same_runs (unchanged_lookup hr hs) h.node h.tensor
  · exact h.same_runs (unchanged_lookup hr hs) h.node h.tensor

variable [Topology B] {e : PlanEvent B}

/-- **Step rule.** Every step leaves what is owned in place. -/
theorem Sound.step (h : σ.Sound) (hs : σ.Step e σ') : σ'.Sound := by
  obtain ⟨ha, hp⟩ := hs
  rcases e with ⟨act, out⟩
  obtain rfl : (act.perform σ).2 = σ' := congrArg Prod.snd hp
  clear hp
  cases act with
  | build r d plan site => exact h.build ha.1 ha.2
  | buildHollow r d plan site => exact h.buildHollow ha.1 ha.2
  | fillFrom r source id =>
    obtain ⟨hne, hr, hs⟩ := ha
    obtain ⟨run, hrun⟩ := exists_of_mem hr.1
    obtain ⟨from', hfrom⟩ := exists_of_mem hs.1
    exact h.fillFrom hrun hfrom hne id
  | edit r ts cs f =>
    obtain ⟨-, hleaves, run, hrun, -⟩ := ha
    suffices hedit : _ ∧ σ.Leaves (some r) _ from h.leaves hedit.1 hedit.2
    refine ⟨?_, ?_⟩ <;>
      rw [PlanAct.perform, bind_of_ok (get_run σ), Session.run, hrun, check_run] <;>
      simp only [Outcome.expect, Session.onWorld, zoom_run, edit_world]
    · exact fun _ => trivial
    · exact hleaves
  | bind r s ts cs =>
    obtain ⟨-, -, run, hrun, -⟩ := ha
    have hw := bind_onward run s ts cs σ.world
    change (Session.bind r s ts cs σ).2.Sound
    rw [bind_session_run hrun]
    rcases hb : run.bind s ts cs σ.world with ⟨_ | _ | _, w⟩ <;> rw [hb] at hw <;>
      exact h.onward (fun _ => rfl) hw
  | execute r =>
    obtain ⟨bound, hb⟩ := ha
    have hrun := bound_run hb fun _ bound => bound.execute
    exact hrun ▸ h.onward (fun _ => rfl) (execute_executed bound σ.world).onward
  | executeCall r id =>
    obtain ⟨bound, hb⟩ := ha
    have hrun := bound_run hb fun _ bound => bound.executeCall id
    exact hrun ▸ h.onward (fun _ => rfl) (executeCall_executed bound id σ.world).onward
  | applyDynamics r =>
    obtain ⟨bound, hb⟩ := ha
    have hrun := bound_run hb fun dynamics bound => bound.applyDynamics dynamics
    exact hrun ▸ h.onward (fun _ => rfl) (applyDynamics_onward bound σ.dynamics σ.world)
  | setDynamic d value => exact h.same_runs (fun _ => rfl) h.node h.tensor
  | closeScope s =>
    obtain ⟨scope, hscope⟩ := exists_of_mem ha
    rw [PlanAct.perform, closeScope_run s ha, close_run hscope]
    exact h.same_runs (fun _ => rfl) h.node h.tensor
  | elsewhere f => exact h.leaves (fun _ => rfl) ha

/-- **Run rule.** In every session that a program gets to. -/
theorem sound_of_runs {w : World B} {es : List (PlanEvent B)}
    (h : Runs Step (Session.init w) es σ) : σ.Sound :=
  h.preserves (fun _ _ _ h hs => h.step hs) (Sound.init w)

end Session

end Wilupgu.Plan
