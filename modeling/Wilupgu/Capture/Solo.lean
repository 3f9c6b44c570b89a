import Wilupgu.Capture.Recorded

/-! # One scope at a time

On a device that has one scope open at a time no `execute` strays, no capture
is begun while another one lasts, and so the lock is never poisoned: outside
its scope's capture the device records nothing. -/

namespace Wilupgu.Capture

open Backend Backends Call

section Scopes

variable {B : Type} [Storage B] [Dispatch B] [Capturable B] [Areable B] {w w' : World B}

theorem ScopeAct.openedOn {a : ScopeAct} (ha : a.Allowed w) {s : Nat} {scope' : Scope}
    (hs : (a.run w).2.scopes.lookup s = some scope') :
    (∃ scope, w.scopes.lookup s = some scope ∧ scope.dev = scope'.dev) ∨
      a = .openOn s scope'.dev := by
  have set : ∀ {s' scope₀ scope₁}, w.scopes.lookup s' = some scope₀ → scope₁.dev = scope₀.dev →
      (w.scopes.insert s' scope₁).lookup s = some scope' →
      ∃ scope, w.scopes.lookup s = some scope ∧ scope.dev = scope'.dev := by
    intro s' scope₀ scope₁ h₀ hd h
    rw [AList.lookup_insert_eq] at h
    split at h
    · subst s
      cases h
      exact ⟨scope₀, h₀, hd.symm⟩
    · exact ⟨scope', h, rfl⟩
  cases a with
  | openOn s' d =>
    change (w.scopes.insert s' _).lookup s = _ at hs
    rw [AList.lookup_insert_eq] at hs
    split at hs
    · subst s
      cases hs
      exact .inr rfl
    · exact .inl ⟨scope', hs, rfl⟩
  | close s' =>
    obtain ⟨scope, hscope, -⟩ := ha
    rw [ScopeAct.run, silent_world, close_run hscope] at hs
    simp only [World.setDevice_scopes, World.setScopes_scopes, AList.lookup_erase_eq] at hs
    split at hs
    · cases hs
    · exact .inl ⟨scope', hs, rfl⟩
  | bind s' p =>
    obtain ⟨scope, hscope⟩ := exists_of_mem ha.1
    obtain ⟨t, ht⟩ := exists_of_mem ha.2.1
    rw [ScopeAct.run, giving!_world, scopeBind_run hscope ht] at hs
    split at hs
    · exact .inl (set hscope (by rfl) hs)
    · exact .inl ⟨scope', hs, rfl⟩
  | bindNode s' b =>
    obtain ⟨scope, hscope⟩ := exists_of_mem ha.1
    obtain ⟨node, hn⟩ := exists_of_mem ha.2.1
    rw [ScopeAct.run, giving!_world, scopeBindNode_run hscope hn] at hs
    split at hs
    · exact .inl (set hscope (by rfl) hs)
    · exact .inl ⟨scope', hs, rfl⟩

/-- A scope open after a step was open before, or the step opened it. -/
theorem opened_step [Topology B] {e : Event B} (hw : w.Valid) (h : w.Step e w') {s : Nat}
    {scope' : Scope} (hs : w'.scopes.lookup s = some scope') :
    (∃ scope, w.scopes.lookup s = some scope ∧ scope.dev = scope'.dev) ∨
      e.act = .scope (.openOn s scope'.dev) := by
  obtain ⟨ha, hr⟩ := h
  rcases e with ⟨a, out⟩
  obtain rfl : (a.perform w).2 = w' := congrArg Prod.snd hr
  have kept : w.scopes.lookup s = some scope' →
      ∃ scope, w.scopes.lookup s = some scope ∧ scope.dev = scope'.dev := fun h => ⟨scope', h, rfl⟩
  cases a with
  | tensor a => exact .inl (kept ((TensorAct.keeps frame_any tensors_any a w).1.scopes ▸ hs))
  | memory a => exact .inl (kept ((MemoryAct.keeps frame_any memory_any a w).1.scopes ▸ hs))
  | node a => exact .inl (kept ((NodeAct.keeps frame_any nodes_any a w).1.scopes ▸ hs))
  | scope a => exact (ScopeAct.openedOn ha hs).imp_right (congrArg Act.scope)
  | run a =>
    obtain ⟨scope, hscope, hb, -⟩ := RunAct.scopes ha hw hs
    exact .inl ⟨scope, hscope, hb.1.symm⟩

end Scopes

variable {w w' : World CpuBackend} {d : Nat}

/-! ## The condition -/

/-- A scope opened on device `d` while another one is open on it. -/
def Crowds (d : Nat) (w : World CpuBackend) : Act CpuBackend → Prop
  | .scope (.openOn _ d') => d' = d ∧ ∃ scope ∈ w.scopes.values, scope.dev = d
  | _ => False

instance (d : Nat) (w : World CpuBackend) : (a : Act CpuBackend) → Decidable (Crowds d w a)
  | .scope (.openOn _ _) => by unfold Crowds; infer_instance
  | .scope (.close _) | .scope (.bind _ _) | .scope (.bindNode _ _) => isFalse not_false
  | .tensor _ | .memory _ | .node _ | .run _ => isFalse not_false

/-- The steps of programs that use device `d` by one scope at a time. -/
abbrev Solo (d : Nat) : World CpuBackend → Event CpuBackend → World CpuBackend → Prop :=
  Transition.Where World.Step fun w e => ¬Crowds d w e.act

/-! ## The invariant -/

/-- Device `d` has one scope open at most, it and its scope have noted the
same, and its lock isn't poisoned. -/
structure Alone (w : World CpuBackend) (d : Nat) : Prop where
  one : ∀ s s' scope scope', w.scopes.lookup s = some scope → w.scopes.lookup s' = some scope' →
    scope.dev = d → scope'.dev = d → s' = s
  recorded : Recorded w d
  healthy : (recordingOf w d).poisoned = false

/-- Outside its scope's capture the device records nothing. -/
theorem Alone.idle (h : Alone w d) {s : Nat} {scope : Scope} (hs : w.scopes.lookup s = some scope)
    (hd : scope.dev = d) (hr : scope.recording = none) : recordingOf w d = ⟨none, false⟩ := by
  rcases h.recorded.device with ⟨hp, -⟩ | ⟨hv, -⟩ |
    ⟨raws, s', scope', calls, -, hs', hd', -, hr', -⟩
  · cases h.healthy.symm.trans hp
  · exact hv
  · obtain rfl := h.one s s' scope scope' hs hs' hd hd'
    obtain rfl : scope = scope' := Option.some.inj (hs.symm.trans hs')
    rw [hr] at hr'
    cases hr'

/-- Nor does it while no scope is open on it. -/
theorem Alone.idle_of_closed (h : Alone w d) (hs : ∀ scope ∈ w.scopes.values, scope.dev ≠ d) :
    recordingOf w d = ⟨none, false⟩ := by
  rcases h.recorded.device with ⟨hp, -⟩ | ⟨hv, -⟩ | ⟨raws, s', scope', calls, -, hs', hd', -⟩
  · cases h.healthy.symm.trans hp
  · exact hv
  · exact absurd hd' (hs scope' (AList.mem_values.mpr ⟨s', hs'⟩))

/-- So no `execute` strays. -/
theorem Alone.not_strays (h : Alone w d) (a : Act CpuBackend) : ¬Strays d w a := by
  rcases a with _ | _ | _ | _ | ⟨s, n, args⟩ | _ <;> try exact id
  rintro ⟨scope, hs, hd, hr, -, hval, -⟩
  rw [h.idle hs hd hr] at hval
  cases hval

theorem Alone.init (poolBytes : Nat → Nat) (d : Nat) :
    Alone (World.init CpuBackend.attach poolBytes) d where
  one _ _ _ _ h := by cases h
  recorded := .init poolBytes d
  healthy := rfl

theorem recordingOf_release (w : World CpuBackend) (raw : CpuCapture) (d d' : Nat) :
    recordingOf (w.setDevice d' { w.devices d' with
      raw := Capturable.releaseCapture raw (w.devices d').raw }) d = recordingOf w d := by
  rw [recordingOf_setDevice]
  split
  · subst d
    rfl
  · rfl

/-- No call poisons the lock. -/
theorem RunAct.healthy {a : RunAct} (h : Alone w d) (hw : w.Valid) (ha : a.Allowed w) :
    (recordingOf (a.run w).2 d).poisoned = false := by
  have set : ∀ {d' : Nat} {dev : ComputeDevice CpuBackend},
      (d = d' → dev.raw.recording.poisoned = false) →
      (recordingOf (w.setDevice d' dev) d).poisoned = false := by
    intro d' dev hdev
    rw [recordingOf_setDevice]
    split
    · exact hdev ‹_›
    · exact h.healthy
  have ended : ∀ d', d = d' →
      (CpuBackend.endCapture (w.devices d').raw).2.recording.poisoned = false := by
    rintro _ rfl
    rcases CpuBackend.endCapture_cases (w.devices d).raw with
      ⟨-, he⟩ | ⟨-, raws, -, he⟩ | ⟨-, -, he⟩ <;> rw [he]
    · exact h.healthy
    · rfl
    · exact h.healthy
  cases a with
  | execute s n args =>
    obtain ⟨scope, hs, hn, -⟩ := ha
    obtain ⟨node, hnode, -⟩ := hw.nodes s scope hs _ (List.getElem_mem hn)
    have hb := boundNode_eq_ok.mpr ⟨List.getElem?_eq_getElem hn, hnode⟩
    rw [RunAct.run, silent_world, execute_run hs hb]
    split
    · split
      · rename_i bindings _
        have hran : d = scope.dev → (CpuBackend.executeRaw scope.nodes[n] node.raw bindings
            (w.devices scope.dev).raw).2.recording.poisoned = false := by
          rintro rfl
          rcases executeRaw_recording scope.nodes[n] node.raw bindings
            (w.devices scope.dev).raw with ⟨hsame, -⟩ | ⟨raws, -, hran⟩
          · rw [hsame]
            exact h.healthy
          · rw [hran]
            rfl
        unfold Scope.executed
        simp only [Dispatch.executeRaw]
        split <;> exact set hran
      · exact h.healthy
      · exact h.healthy
    · exact h.healthy
    · exact h.healthy
  | beginCapture s =>
    obtain ⟨scope, hs⟩ := exists_of_mem ha
    rw [RunAct.run, silent_world, beginCapture_run hs]
    split
    · exact h.healthy
    · rename_i hnone
      have hbegun : d = scope.dev →
          (CpuBackend.beginCapture (w.devices scope.dev).raw).2.recording.poisoned = false := by
        rintro rfl
        have hidle := h.idle hs rfl (by simpa using hnone)
        rcases CpuBackend.beginCapture_cases (w.devices scope.dev).raw with
          ⟨hp, -⟩ | ⟨-, calls, hv, -⟩ | ⟨-, -, hb⟩
        · rw [show (w.devices scope.dev).raw.recording.poisoned = false from h.healthy] at hp
          cases hp
        · rw [show (w.devices scope.dev).raw.recording = ⟨none, false⟩ from hidle] at hv
          cases hv
        · rw [hb]
          rfl
      simp only [Capturable.beginCapture]
      split <;> exact set hbegun
  | endCapture s r result =>
    obtain ⟨⟨scope, hs, hc⟩, -⟩ := ha
    obtain ⟨calls, hcalls⟩ := Option.isSome_iff_exists.mp (hw.inCapture s scope hs hc)
    rw [RunAct.run, silent_world, endCapture_run hs hcalls]
    simp only [Capturable.endCapture]
    split
    · exact set (ended _)
    · rw [recordingOf_release]
      exact set (ended _)
    · exact set (ended _)
    · exact set (ended _)
  | unwindCapture s =>
    obtain ⟨scope, hs, -⟩ := ha
    rw [RunAct.run, silent_world, unwindCapture_run hs]
    simp only [Capturable.endCapture]
    split
    · rw [recordingOf_release]
      exact set (ended _)
    · exact set (ended _)
    · exact set (ended _)
  | replay s r =>
    obtain ⟨scope, hs⟩ := exists_of_mem ha.1
    obtain ⟨recording, hr⟩ := exists_of_mem ha.2
    rw [RunAct.run, silent_world, replay_run hs hr]
    split
    · refine set ?_
      rintro rfl
      have hsame := (replay_onlyMemory (Scope.rawNode w) recording.raw
        (w.devices scope.dev).raw).sameRecording.1
      exact (congrArg Mutex.poisoned hsame).trans h.healthy
    · exact h.healthy
    · exact h.healthy
  | dropRecording r =>
    obtain ⟨recording, hr⟩ := exists_of_mem ha
    rw [RunAct.run, silent_world, dropRecording_run hr]
    exact set fun hd => hd ▸ h.healthy

theorem Alone.step {e : Event CpuBackend} (h : Alone w d) (hw : w.Valid)
    (hs : Solo d w e w') : Alone w' d where
  one s s' scope scope' hl hl' hd hd' := by
    obtain ⟨hstep, hcrowds⟩ := hs
    rcases opened_step hw hstep hl with ⟨scope₀, h₀, hd₀⟩ | ha <;>
      rcases opened_step hw hstep hl' with ⟨scope₁, h₁, hd₁⟩ | ha'
    · exact h.one s s' scope₀ scope₁ h₀ h₁ (hd₀.trans hd) (hd₁.trans hd')
    · rw [ha'] at hcrowds
      exact absurd ⟨hd', scope₀, AList.mem_values.mpr ⟨s, h₀⟩, hd₀.trans hd⟩ hcrowds
    · rw [ha] at hcrowds
      exact absurd ⟨hd, scope₁, AList.mem_values.mpr ⟨s', h₁⟩, hd₁.trans hd'⟩ hcrowds
    · have hsame := ha'.symm.trans ha
      simp only [Act.scope.injEq, ScopeAct.openOn.injEq] at hsame
      exact hsame.1
  recorded := h.recorded.step hw ⟨hs.1, h.not_strays _⟩
  healthy := by
    obtain ⟨⟨ha, hr⟩, -⟩ := hs
    rcases e with ⟨a, out⟩
    obtain rfl : (a.perform w).2 = w' := congrArg Prod.snd hr
    have kept : recordingOf (a.perform w).2 d = recordingOf w d →
        (recordingOf (a.perform w).2 d).poisoned = false := fun hsame => hsame ▸ h.healthy
    cases a with
    | tensor a => exact kept ((TensorAct.keeps frame_sameRecording tensors_sameRecording a w).2 d).1
    | memory a => exact kept ((MemoryAct.keeps frame_sameRecording memory_sameRecording a w).2 d).2.1
    | node a => exact kept ((NodeAct.keeps frame_sameRecording nodes_sameRecording a w).2 d).2.1
    | scope a => exact kept ((ScopeAct.keeps frame_sameRecording memory_sameRecording.synchronize a w).2 d).2.1
    | run a => exact RunAct.healthy h hw ha

/-- **So it is in every world that a program gets to which uses the device by
one scope at a time.** -/
theorem Alone.run {es : List (Event CpuBackend)} (h : Alone w d) (hw : w.Valid)
    (hr : Transition.Runs (Solo d) w es w') : Alone w' d :=
  (hr.preserves (I := fun w => w.Valid ∧ Alone w d)
    (fun _ _ _ h hs => ⟨h.1.step hs.1, h.2.step h.1 hs⟩) ⟨hw, h⟩).2

end Wilupgu.Capture
