import Wilupgu.Safe.Valid

/-! # Notes of calls

Where the calls noted in scopes and recordings come from: a scope's last note
is of an `execute` it just made, and a recording's notes are those of the scope
whose capture made it. An invariant about noted calls has only these to look at. -/

namespace Wilupgu.Capture

open Backend

variable {B : Type} [Storage B] [Dispatch B] [Capturable B] [Areable B] {w w' : World B}

/-- `call` is what `scope` notes of running its `n`th node on `args`. -/
def Notes (w : World B) (scope : Scope) (n : Nat) (args : List Arg) (call : RecordedCall) : Prop :=
  ∃ node bindings, w.boundNode scope n = .ok (call.node, node) ∧
    Scope.check w scope node args = .ok () ∧ Scope.access w scope args = .ok bindings ∧
    call.args = bindings.map RecordedArg.ofAccess ∧ call.uid = node.uid

/-- The same device, with the same and maybe more bound. -/
structure Extends (scope scope' : Scope) : Prop where
  dev : scope'.dev = scope.dev
  bufs : scope.bufs <+: scope'.bufs
  nodes : scope.nodes <+: scope'.nodes

theorem extends_refl (scope : Scope) : Extends scope scope :=
  ⟨rfl, List.prefix_refl _, List.prefix_refl _⟩

theorem extends_of_sameBindings {scope scope' : Scope} (h : scope.SameBindings scope') :
    Extends scope scope' :=
  ⟨h.1, h.2.1 ▸ List.prefix_refl _, h.2.2 ▸ List.prefix_refl _⟩

/-- What a step leaves noted in scope `s`, `calls'`, given what was there before. -/
def Noted (w : World B) (a : Act B) (s : Nat) (scope : Scope) (calls' : List RecordedCall) : Prop :=
  calls' = [] ∨ scope.recording = some calls' ∨
    ∃ calls n args call, scope.recording = some calls ∧ calls' = calls ++ [call] ∧
      a = .run (.execute s n args) ∧ Notes w scope n args call

theorem RunAct.noted {a : RunAct} (ha : a.Allowed w) (hw : w.Valid) {s : Nat} {scope' : Scope}
    {calls' : List RecordedCall} (hs : (a.run w).2.scopes.lookup s = some scope')
    (hc : scope'.recording = some calls') : ∃ scope, w.scopes.lookup s = some scope ∧
      scope.SameBindings scope' ∧ Noted w (.run a) s scope calls' := by
  have kept : w.scopes.lookup s = some scope' → ∃ scope, w.scopes.lookup s = some scope ∧
      scope.SameBindings scope' ∧ Noted w (.run a) s scope calls' :=
    fun h => ⟨scope', h, ⟨rfl, rfl, rfl⟩, .inr (.inl hc)⟩
  -- the scope the run is about is put back with `scope₁` for `scope₀`
  have set : ∀ {s' scope₀ scope₁}, w.scopes.lookup s' = some scope₀ →
      (w.scopes.insert s' scope₁).lookup s = some scope' → scope₀.SameBindings scope₁ →
      (scope₁ = scope' → s = s' → Noted w (.run a) s scope₀ calls') →
      ∃ scope, w.scopes.lookup s = some scope ∧ scope.SameBindings scope' ∧
        Noted w (.run a) s scope calls' := by
    intro s' scope₀ scope₁ h₀ h hb hn
    rw [AList.lookup_insert_eq] at h
    split at h
    · subst s
      cases h
      exact ⟨scope₀, h₀, hb, hn rfl rfl⟩
    · exact kept h
  cases a with
  | execute s' n args =>
    obtain ⟨scope, hscope, hn, -⟩ := ha
    obtain ⟨node, hnode, -⟩ := hw.nodes s' scope hscope _ (List.getElem_mem hn)
    have hb := boundNode_eq_ok.mpr ⟨List.getElem?_eq_getElem hn, hnode⟩
    rw [RunAct.run, silent_world, execute_run hscope hb] at hs
    split at hs
    · rename_i hcheck
      split at hs
      · rename_i bindings hbindings
        unfold Scope.executed at hs
        simp only at hs
        split at hs
        · rename_i calls _ hcalls
          refine set hscope hs ⟨rfl, rfl, rfl⟩ fun he hss => ?_
          subst he hss
          cases hc
          exact .inr (.inr ⟨calls, n, args, _, hcalls, rfl, rfl, node, bindings, hb, hcheck,
            hbindings, rfl, rfl⟩)
        · exact kept hs
      · exact kept hs
      · exact kept hs
    · exact kept hs
    · exact kept hs
  | beginCapture s' =>
    obtain ⟨scope, hscope⟩ := exists_of_mem ha
    rw [RunAct.run, silent_world, beginCapture_run hscope] at hs
    split at hs
    · exact kept hs
    · have hempty : ∀ {scope₁ : Scope}, scope₁.recording = some [] → scope₁ = scope' → s = s' →
          Noted w (.run (.beginCapture s')) s scope calls' := by
        rintro scope₁ hr rfl rfl
        exact .inl (Option.some.inj (hc.symm.trans hr))
      simp only at hs
      split at hs
      · simp only [World.setScope_scopes, World.setDevice_scopes, AList.insert_insert] at hs
        exact set hscope hs ⟨rfl, rfl, rfl⟩ (hempty rfl)
      · exact set hscope hs ⟨rfl, rfl, rfl⟩ (hempty rfl)
  | endCapture s' r result =>
    obtain ⟨⟨scope, hscope, hcap⟩, -⟩ := ha
    obtain ⟨calls, hcalls⟩ := Option.isSome_iff_exists.mp (hw.inCapture s' scope hscope hcap)
    have hnone : ∀ {scope₁ : Scope}, scope₁.recording = none → scope₁ = scope' → s = s' →
        Noted w (.run (.endCapture s' r result)) s scope calls' := by
      rintro scope₁ hr rfl rfl
      rw [hr] at hc
      cases hc
    rw [RunAct.run, silent_world, endCapture_run hscope hcalls] at hs
    simp only at hs
    split at hs <;> exact set hscope hs ⟨rfl, rfl, rfl⟩ (hnone rfl)
  | unwindCapture s' =>
    obtain ⟨scope, hscope, -⟩ := ha
    have hnone : ∀ {scope₁ : Scope}, scope₁.recording = none → scope₁ = scope' → s = s' →
        Noted w (.run (.unwindCapture s')) s scope calls' := by
      rintro scope₁ hr rfl rfl
      rw [hr] at hc
      cases hc
    rw [RunAct.run, silent_world, unwindCapture_run hscope] at hs
    simp only at hs
    split at hs <;> exact set hscope hs ⟨rfl, rfl, rfl⟩ (hnone rfl)
  | replay s' r =>
    obtain ⟨scope, hscope⟩ := exists_of_mem ha.1
    obtain ⟨recording, hr⟩ := exists_of_mem ha.2
    rw [RunAct.run, silent_world, replay_run hscope hr] at hs
    split at hs <;> exact kept hs
  | dropRecording r =>
    obtain ⟨recording, hr⟩ := exists_of_mem ha
    rw [RunAct.run, silent_world, dropRecording_run hr] at hs
    exact kept hs

/-- Where a recording comes from: the notes of a scope, and what the device
gives back at the end of the capture. -/
def RecordedBy (w : World B) (a : Act B) (r : Nat) (recording : Recording B) : Prop :=
  ∃ s scope, a = .run (.endCapture s r (.ok ())) ∧ w.scopes.lookup s = some scope ∧
    scope.inCapture = true ∧ scope.recording = some recording.calls ∧ recording.dev = scope.dev ∧
    (Capturable.endCapture (w.devices scope.dev).raw).1 = .ok recording.raw

theorem RunAct.recordedBy {a : RunAct} (ha : a.Allowed w) (hw : w.Valid) {r : Nat}
    {recording : Recording B} (hr : (a.run w).2.recordings.lookup r = some recording) :
    w.recordings.lookup r = some recording ∨ RecordedBy w (.run a) r recording := by
  cases a with
  | execute s n args =>
    obtain ⟨scope, hscope, hn, -⟩ := ha
    obtain ⟨node, hnode, -⟩ := hw.nodes s scope hscope _ (List.getElem_mem hn)
    rw [RunAct.run, silent_world,
      execute_run hscope (boundNode_eq_ok.mpr ⟨List.getElem?_eq_getElem hn, hnode⟩)] at hr
    refine .inl ?_
    split at hr
    · split at hr
      · unfold Scope.executed at hr
        simp only at hr
        split at hr <;> exact hr
      · exact hr
      · exact hr
    · exact hr
    · exact hr
  | beginCapture s =>
    obtain ⟨scope, hscope⟩ := exists_of_mem ha
    rw [RunAct.run, silent_world, beginCapture_run hscope] at hr
    refine .inl ?_
    split at hr
    · exact hr
    · simp only at hr
      split at hr <;> exact hr
  | endCapture s r' result =>
    obtain ⟨⟨scope, hscope, hcap⟩, -⟩ := ha
    obtain ⟨calls, hcalls⟩ := Option.isSome_iff_exists.mp (hw.inCapture s scope hscope hcap)
    rw [RunAct.run, silent_world, endCapture_run hscope hcalls] at hr
    simp only at hr
    split at hr
    · rename_i raw hraw
      simp only [World.setRecordings_recordings, AList.lookup_insert_eq] at hr
      split at hr
      · subst r
        cases hr
        exact .inr ⟨s, scope, rfl, hscope, hcap, hcalls, rfl, hraw⟩
      · exact .inl hr
    · exact .inl hr
    · exact .inl hr
    · exact .inl hr
  | unwindCapture s =>
    obtain ⟨scope, hscope, -⟩ := ha
    rw [RunAct.run, silent_world, unwindCapture_run hscope] at hr
    simp only at hr
    split at hr <;> exact .inl hr
  | replay s r' =>
    obtain ⟨scope, hscope⟩ := exists_of_mem ha.1
    obtain ⟨recording', hr'⟩ := exists_of_mem ha.2
    rw [RunAct.run, silent_world, replay_run hscope hr'] at hr
    split at hr <;> exact .inl hr
  | dropRecording r' =>
    obtain ⟨recording', hr'⟩ := exists_of_mem ha
    rw [RunAct.run, silent_world, dropRecording_run hr'] at hr
    simp only [World.setDevice_recordings, World.setRecordings_recordings,
      AList.lookup_erase_eq] at hr
    split at hr
    · cases hr
    · exact .inl hr

theorem ScopeAct.noted {a : ScopeAct} (ha : a.Allowed w) {s : Nat} {scope' : Scope}
    {calls' : List RecordedCall} (hs : (a.run w).2.scopes.lookup s = some scope')
    (hc : scope'.recording = some calls') : ∃ scope, w.scopes.lookup s = some scope ∧
      Extends scope scope' ∧ scope.recording = some calls' := by
  have kept : w.scopes.lookup s = some scope' → ∃ scope, w.scopes.lookup s = some scope ∧
      Extends scope scope' ∧ scope.recording = some calls' :=
    fun h => ⟨scope', h, extends_refl scope', hc⟩
  cases a with
  | openOn s' d =>
    change (w.scopes.insert s' _).lookup s = _ at hs
    rw [AList.lookup_insert_eq] at hs
    split at hs
    · cases hs
      cases hc
    · exact kept hs
  | close s' =>
    obtain ⟨scope, hscope, -⟩ := ha
    rw [ScopeAct.run, silent_world, close_run hscope] at hs
    simp only [World.setDevice_scopes, World.setScopes_scopes, AList.lookup_erase_eq] at hs
    split at hs
    · cases hs
    · exact kept hs
  | bind s' p =>
    obtain ⟨scope, hscope⟩ := exists_of_mem ha.1
    obtain ⟨t, ht⟩ := exists_of_mem ha.2.1
    rw [ScopeAct.run, giving!_world, scopeBind_run hscope ht] at hs
    split at hs
    · simp only [World.setScope_scopes, AList.lookup_insert_eq] at hs
      split at hs
      · subst s
        cases hs
        exact ⟨scope, hscope, ⟨rfl, List.prefix_append _ _, List.prefix_refl _⟩, hc⟩
      · exact kept hs
    · exact kept hs
  | bindNode s' b =>
    obtain ⟨scope, hscope⟩ := exists_of_mem ha.1
    obtain ⟨node, hn⟩ := exists_of_mem ha.2.1
    rw [ScopeAct.run, giving!_world, scopeBindNode_run hscope hn] at hs
    split at hs
    · simp only [World.setScope_scopes, AList.lookup_insert_eq] at hs
      split at hs
      · subst s
        cases hs
        exact ⟨scope, hscope, ⟨rfl, List.prefix_refl _, List.prefix_append _ _⟩, hc⟩
      · exact kept hs
    · exact kept hs

/-! ## Every step -/

variable [Topology B] {e : Event B}

/-- **A scope's notes grow by its own `execute`s only.** -/
theorem noted_step (hw : w.Valid) (h : w.Step e w') {s : Nat} {scope' : Scope}
    {calls' : List RecordedCall} (hs : w'.scopes.lookup s = some scope')
    (hc : scope'.recording = some calls') : ∃ scope, w.scopes.lookup s = some scope ∧
      Extends scope scope' ∧ Noted w e.act s scope calls' := by
  obtain ⟨ha, hr⟩ := h
  rcases e with ⟨a, out⟩
  obtain rfl : (a.perform w).2 = w' := congrArg Prod.snd hr
  have kept : w.scopes.lookup s = some scope' → ∃ scope, w.scopes.lookup s = some scope ∧
      Extends scope scope' ∧ Noted w a s scope calls' :=
    fun h => ⟨scope', h, extends_refl scope', .inr (.inl hc)⟩
  cases a with
  | tensor a => exact kept ((TensorAct.keeps frame_any tensors_any a w).1.scopes ▸ hs)
  | memory a => exact kept ((MemoryAct.keeps frame_any memory_any a w).1.scopes ▸ hs)
  | node a => exact kept ((NodeAct.keeps frame_any nodes_any a w).1.scopes ▸ hs)
  | scope a =>
    obtain ⟨scope, hscope, hext, hcalls⟩ := ScopeAct.noted ha hs hc
    exact ⟨scope, hscope, hext, .inr (.inl hcalls)⟩
  | run a =>
    obtain ⟨scope, hscope, hb, hnoted⟩ := RunAct.noted ha hw hs hc
    exact ⟨scope, hscope, extends_of_sameBindings hb, hnoted⟩

/-- **A recording is there before, or was just made of a scope's notes.** -/
theorem recorded_step (hw : w.Valid) (h : w.Step e w') {r : Nat} {recording : Recording B}
    (hr : w'.recordings.lookup r = some recording) :
    w.recordings.lookup r = some recording ∨ RecordedBy w e.act r recording := by
  obtain ⟨ha, ho⟩ := h
  rcases e with ⟨a, out⟩
  obtain rfl : (a.perform w).2 = w' := congrArg Prod.snd ho
  cases a with
  | tensor a => exact .inl ((TensorAct.keeps frame_any tensors_any a w).1.recordings ▸ hr)
  | memory a => exact .inl ((MemoryAct.keeps frame_any memory_any a w).1.recordings ▸ hr)
  | node a => exact .inl ((NodeAct.keeps frame_any nodes_any a w).1.recordings ▸ hr)
  | scope a => exact .inl ((ScopeAct.keeps frame_any memory_any.synchronize a w).1.recordings ▸ hr)
  | run a => exact RunAct.recordedBy ha hw hr

end Wilupgu.Capture
