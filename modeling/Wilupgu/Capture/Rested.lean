import Wilupgu.Capture.Solo

/-! # After every capture

What captures leave behind once all have ended. A capture begun on one scope
while another scope's has the device recording fails its assertion under the
lock: from then on the lock is poisoned, the device records for good, and no
capture of it can end. Nothing else does that. -/

namespace Wilupgu.Capture

open Backend Backends Call

variable {w w' : World CpuBackend} {d : Nat}

/-! ## The condition -/

/-- A capture begun on a scope that doesn't record, while its device `d` does. -/
def Collides (d : Nat) (w : World CpuBackend) : Act CpuBackend → Prop
  | .run (.beginCapture s) => ∃ scope ∈ w.scopes.lookup s, scope.dev = d ∧
      scope.recording = none ∧ (recordingOf w d).val.isSome = true
  | _ => False

instance (d : Nat) (w : World CpuBackend) : (a : Act CpuBackend) → Decidable (Collides d w a)
  | .run (.beginCapture _) => by unfold Collides; infer_instance
  | .run (.execute _ _ _) | .run (.endCapture _ _ _) | .run (.unwindCapture _)
  | .run (.replay _ _) | .run (.dropRecording _) => isFalse not_false
  | .tensor _ | .memory _ | .node _ | .scope _ => isFalse not_false

/-- The steps of programs that begin no capture into another one on device `d`. -/
abbrev InTurn (d : Nat) : World CpuBackend → Event CpuBackend → World CpuBackend → Prop :=
  Transition.Where World.Step fun w e => ¬Collides d w e.act

/-! ## What a step does to captures -/

/-- A change after which the scopes of `d` that are in their `capture`, and
those that record, are the same ones. -/
structure SameWhether (d : Nat) (w w' : World CpuBackend) : Prop where
  old : ∀ s scope', w'.scopes.lookup s = some scope' → scope'.dev = d →
    (scope'.recording = none ∧ scope'.inCapture = false) ∨
      ∃ scope, w.scopes.lookup s = some scope ∧ scope.dev = d ∧
        scope.recording.isSome = scope'.recording.isSome ∧ scope.inCapture = scope'.inCapture
  inCapture : ∀ s scope, w.scopes.lookup s = some scope → scope.dev = d →
    scope.inCapture = true → ∃ scope', w'.scopes.lookup s = some scope' ∧ scope'.dev = d ∧
      scope'.inCapture = true

theorem SameCaptures.sameWhether (h : SameCaptures d w w') : SameWhether d w w' where
  old s scope' hs hd := (h.old s scope' hs hd).imp_right fun ⟨scope, h⟩ =>
    ⟨scope, h.1, h.2.1, congrArg Option.isSome h.2.2.1, h.2.2.2⟩
  inCapture s scope hs hd hc := (h.inCapture s scope hs hd hc).imp fun _ h => ⟨h.1, h.2.1, h.2.2.1⟩

/-- Scope `s` was changed in neither. -/
theorem sameWhether_insert {s : Nat} {scope scope' : Scope} (hs : w.scopes.lookup s = some scope)
    (h : w'.scopes = w.scopes.insert s scope') (hdev : scope'.dev = scope.dev)
    (hsame : scope.dev = d → scope.recording.isSome = scope'.recording.isSome ∧
      scope.inCapture = scope'.inCapture) : SameWhether d w w' where
  old s₁ scope₁ h₁ hd₁ := by
    rw [h, AList.lookup_insert_eq] at h₁
    split at h₁
    · subst s₁
      cases h₁
      have hd : scope.dev = d := hdev.symm.trans hd₁
      exact .inr ⟨scope, hs, hd, hsame hd⟩
    · exact .inr ⟨scope₁, h₁, hd₁, rfl, rfl⟩
  inCapture s₁ scope₁ h₁ hd₁ hc₁ := by
    rw [h, AList.lookup_insert_eq]
    split
    · subst s₁
      obtain rfl : scope = scope₁ := Option.some.inj (hs.symm.trans h₁)
      exact ⟨scope', rfl, hdev.trans hd₁, (hsame hd₁).2.symm.trans hc₁⟩
    · exact ⟨scope₁, h₁, hd₁, hc₁⟩

/-- Recording or not, poisoned or not, as before. -/
def SameMutex (m m' : Mutex (Option (List CpuCall))) : Prop :=
  m'.poisoned = m.poisoned ∧ m'.val.isSome = m.val.isSome

theorem sameMutex_of_eq {m m' : Mutex (Option (List CpuCall))} (h : m' = m) : SameMutex m m' :=
  h ▸ ⟨rfl, rfl⟩

/-- What one call means to the captures of device `d`: nothing, or it begins
one, or begins one and panics, or ends one. -/
inductive Effect (d : Nat) (w : World CpuBackend) (a : Act CpuBackend) (w' : World CpuBackend) :
    Prop
  | same (hm : SameMutex (recordingOf w d) (recordingOf w' d)) (hs : SameWhether d w w')
  | begun (s : Nat) (scope : Scope) (hs : w.scopes.lookup s = some scope) (hd : scope.dev = d)
      (hidle : recordingOf w d = ⟨none, false⟩) (hm : recordingOf w' d = ⟨some [], false⟩)
      (hscopes : w'.scopes =
        w.scopes.insert s { scope with recording := some [], inCapture := true })
  | collided (s : Nat) (scope : Scope) (ha : a = .run (.beginCapture s))
      (hs : w.scopes.lookup s = some scope) (hd : scope.dev = d) (hr : scope.recording = none)
      (hbusy : (recordingOf w d).poisoned = true ∨ (recordingOf w d).val.isSome = true)
      (hm : recordingOf w' d = ⟨(recordingOf w d).val, true⟩)
  | ended (s : Nat) (scope : Scope) (hs : w.scopes.lookup s = some scope) (hd : scope.dev = d)
      (hc : scope.inCapture = true)
      (hm : recordingOf w' d =
        if (recordingOf w d).poisoned then recordingOf w d else ⟨none, false⟩)
      (hscopes : w'.scopes =
        w.scopes.insert s { scope with recording := none, inCapture := false })

theorem Effect.of_eq {a : Act CpuBackend} (hm : recordingOf w' d = recordingOf w d)
    (hs : w'.scopes = w.scopes) : Effect d w a w' :=
  .same (sameMutex_of_eq hm) (sameCaptures_of_eq hs d).sameWhether

/-- The recording state after a call on one raw device. -/
theorem recordingOf_setRaw (w : World CpuBackend) (d' : Nat) (raw : CpuBackend) (d : Nat) :
    recordingOf (w.setDevice d' { w.devices d' with raw := raw }) d =
      if d = d' then raw.recording else recordingOf w d := recordingOf_setDevice w d' _ d

theorem executeRaw_sameMutex (address : Nat) (node : CpuNode) (bindings : List (Access CpuBuffer))
    (raw : CpuBackend) : SameMutex raw.recording
      (CpuBackend.executeRaw address node bindings raw).2.recording := by
  rcases executeRaw_recording address node bindings raw with ⟨hsame, -⟩ | ⟨calls, hrec, hran⟩
  · exact sameMutex_of_eq hsame
  · rw [hran, hrec]
    exact ⟨rfl, rfl⟩

theorem execute_effect (hw : w.Valid) {s n : Nat} {args : List Arg}
    (ha : (RunAct.execute s n args).Allowed w) (a : Act CpuBackend) :
    Effect d w a (Scope.execute s n args w).2 := by
  obtain ⟨scope, hs, hn, -⟩ := ha
  obtain ⟨node, hnode, -⟩ := hw.nodes s scope hs _ (List.getElem_mem hn)
  rw [execute_run hs (boundNode_eq_ok.mpr ⟨List.getElem?_eq_getElem hn, hnode⟩)]
  split
  · split
    · rename_i bindings _
      have hm : ∀ d, SameMutex (recordingOf w d) (recordingOf (w.setDevice scope.dev
          { w.devices scope.dev with raw := (CpuBackend.executeRaw scope.nodes[n] node.raw bindings
            (w.devices scope.dev).raw).2 }) d) := by
        intro d
        rw [recordingOf_setRaw]
        split
        · subst d
          exact executeRaw_sameMutex _ _ _ _
        · exact ⟨rfl, rfl⟩
      unfold Scope.executed
      simp only [Dispatch.executeRaw]
      split
      · rename_i calls _ hcalls
        refine .same (hm d) (sameWhether_insert hs (World.setScope_scopes _ _ _) rfl
          fun _ => ⟨?_, rfl⟩)
        rw [hcalls]
        rfl
      · exact .same (hm d) (sameCaptures_of_eq (by rfl) d).sameWhether
    · exact .of_eq rfl rfl
    · exact .of_eq rfl rfl
  · exact .of_eq rfl rfl
  · exact .of_eq rfl rfl

/-- A begun capture of another device. -/
theorem effect_elsewhere {a : Act CpuBackend} {s : Nat} {scope scope' : Scope}
    (hs : w.scopes.lookup s = some scope) (hd : scope.dev ≠ d)
    (hscopes : w'.scopes = w.scopes.insert s scope') (hdev : scope'.dev = scope.dev)
    (hm : recordingOf w' d = recordingOf w d) : Effect d w a w' :=
  .same (sameMutex_of_eq hm) (sameWhether_insert hs hscopes hdev fun h => absurd h hd)

/-- Begun while the device records, a capture panics under the lock. -/
theorem beginCapture_busy {s : Nat} {scope : Scope} (hs : w.scopes.lookup s = some scope)
    (hr : scope.recording = none)
    (hbusy : (recordingOf w scope.dev).poisoned = true ∨
      (recordingOf w scope.dev).val.isSome = true) :
    recordingOf (Scope.beginCapture s w).2 scope.dev = ⟨(recordingOf w scope.dev).val, true⟩ := by
  rw [beginCapture_run hs, hr, if_neg (by simp)]
  simp only [Capturable.beginCapture]
  have hset : ∀ raw, recordingOf ((w.setScope s { scope with recording := some [] }).setDevice
      scope.dev { w.devices scope.dev with raw := raw }) scope.dev = raw.recording :=
    fun raw => (recordingOf_setRaw w scope.dev raw scope.dev).trans (if_pos rfl)
  rcases CpuBackend.beginCapture_cases (w.devices scope.dev).raw with
    ⟨hp, hb⟩ | ⟨-, calls, hv, hb⟩ | ⟨hp, hv, -⟩
  · simp only [hb]
    rw [hset, ← hp]
  · simp only [hb]
    rw [hset, recordingOf, hv]
    rfl
  · rcases hbusy with h | h
    · rw [hp] at h
      cases h
    · rw [recordingOf, hv] at h
      cases h

theorem beginCapture_effect {s : Nat} (ha : s ∈ w.scopes) :
    Effect d w (.run (.beginCapture s)) (Scope.beginCapture s w).2 := by
  obtain ⟨scope, hs⟩ := exists_of_mem ha
  rcases hr : scope.recording with _ | calls
  · by_cases hd : scope.dev = d
    · subst hd
      by_cases hbusy : (recordingOf w scope.dev).poisoned = true ∨
          (recordingOf w scope.dev).val.isSome = true
      · exact .collided s scope rfl hs rfl hr hbusy (beginCapture_busy hs hr hbusy)
      · simp only [not_or, Bool.not_eq_true, Option.isSome_eq_false_iff,
          Option.isNone_iff_eq_none] at hbusy
        have hidle : recordingOf w scope.dev = ⟨none, false⟩ := by rw [← hbusy.1, ← hbusy.2]
        rw [beginCapture_run hs, hr, if_neg (by simp)]
        rcases CpuBackend.beginCapture_cases (w.devices scope.dev).raw with
          ⟨hp, -⟩ | ⟨-, calls, hv, -⟩ | ⟨-, -, hb⟩
        · cases hbusy.1.symm.trans hp
        · cases hbusy.2.symm.trans hv
        · simp only [Capturable.beginCapture, hb]
          exact .begun s scope hs rfl hidle ((recordingOf_setRaw w scope.dev _ _).trans (if_pos rfl))
            (AList.insert_insert _)
    · have hset : ∀ raw, recordingOf ((w.setScope s { scope with recording := some [] }).setDevice
          scope.dev { w.devices scope.dev with raw := raw }) d = recordingOf w d :=
        fun raw => (recordingOf_setRaw w scope.dev raw d).trans (if_neg (Ne.symm hd))
      rw [beginCapture_run hs, hr, if_neg (by simp)]
      simp only [Capturable.beginCapture]
      split
      · exact effect_elsewhere hs hd (AList.insert_insert _) rfl (hset _)
      · exact effect_elsewhere hs hd (World.setScope_scopes _ _ w) rfl (hset _)
  · rw [beginCapture_run hs, hr, if_pos (by simp)]
    exact .of_eq rfl rfl

/-- A capture that ended, however its closure did. -/
theorem ended_effect {a : Act CpuBackend} {s : Nat} {scope : Scope}
    (hs : w.scopes.lookup s = some scope) (hc : scope.inCapture = true)
    (hscopes : w'.scopes = w.scopes.insert s { scope with recording := none, inCapture := false })
    (hm : recordingOf w' d =
      if d = scope.dev then (CpuBackend.endCapture (w.devices scope.dev).raw).2.recording
      else recordingOf w d) : Effect d w a w' := by
  by_cases hd : scope.dev = d
  · subst hd
    refine .ended s scope hs rfl hc ?_ hscopes
    rw [hm, if_pos rfl]
    rcases CpuBackend.endCapture_cases (w.devices scope.dev).raw with
      ⟨hp, he⟩ | ⟨hp, raws, hv, he⟩ | ⟨hp, hv, he⟩
    · rw [he, if_pos hp]
    · rw [he, if_neg (by simp [hp])]
      rfl
    · rw [he, if_neg (by simp [hp]), ← hv, ← hp]
  · exact effect_elsewhere hs hd hscopes rfl (hm.trans (if_neg (Ne.symm hd)))

theorem endCapture_effect (hw : w.Valid) {s r : Nat} {result : Except Error Unit}
    (ha : (RunAct.endCapture s r result).Allowed w) (a : Act CpuBackend) :
    Effect d w a (Scope.endCapture s r result w).2 := by
  obtain ⟨⟨scope, hs, hc⟩, -⟩ := ha
  obtain ⟨calls, hcalls⟩ := Option.isSome_iff_exists.mp (hw.inCapture s scope hs hc)
  have hset := recordingOf_setRaw w scope.dev (CpuBackend.endCapture (w.devices scope.dev).raw).2 d
  rw [endCapture_run hs hcalls]
  simp only [Capturable.endCapture]
  split
  · exact ended_effect hs hc rfl hset
  · exact ended_effect hs hc rfl ((recordingOf_release _ _ _ _).trans hset)
  · exact ended_effect hs hc rfl hset
  · exact ended_effect hs hc rfl hset

theorem unwindCapture_effect {s : Nat} (ha : (RunAct.unwindCapture s).Allowed w)
    (a : Act CpuBackend) : Effect d w a (Scope.unwindCapture s w).2 := by
  obtain ⟨scope, hs, hc, -⟩ := ha
  have hset := recordingOf_setRaw w scope.dev (CpuBackend.endCapture (w.devices scope.dev).raw).2 d
  rw [unwindCapture_run hs]
  simp only [Capturable.endCapture]
  split
  · exact ended_effect hs hc rfl ((recordingOf_release _ _ _ _).trans hset)
  · exact ended_effect hs hc rfl hset
  · exact ended_effect hs hc rfl hset

theorem replay_effect {s r : Nat} (ha : (RunAct.replay s r).Allowed w) (a : Act CpuBackend) :
    Effect d w a (Scope.replay s r w).2 := by
  obtain ⟨scope, hs⟩ := exists_of_mem ha.1
  obtain ⟨recording, hr⟩ := exists_of_mem ha.2
  rw [replay_run hs hr]
  split
  · refine .of_eq ?_ (by rfl)
    rw [recordingOf_setRaw]
    split
    · subst d
      exact (replay_onlyMemory (Scope.rawNode w) recording.raw _).sameRecording.1
    · rfl
  · exact .of_eq rfl rfl
  · exact .of_eq rfl rfl

theorem dropRecording_effect {r : Nat} (ha : (RunAct.dropRecording r).Allowed w)
    (a : Act CpuBackend) : Effect d w a (Scope.dropRecording r w).2 := by
  obtain ⟨recording, hr⟩ := exists_of_mem ha
  rw [dropRecording_run hr]
  exact .of_eq (recordingOf_release w recording.raw d recording.dev) (by rfl)

theorem Effect.of_step {e : Event CpuBackend} (hw : w.Valid) (h : w.Step e w') :
    Effect d w e.act w' := by
  obtain ⟨ha, hr⟩ := h
  rcases e with ⟨a, out⟩
  obtain rfl : (a.perform w).2 = w' := congrArg Prod.snd hr
  cases a with
  | tensor a =>
    obtain ⟨hf, hd⟩ := TensorAct.keeps frame_sameRecording tensors_sameRecording a w
    exact .of_eq (hd d).1 hf.scopes
  | memory a =>
    obtain ⟨hf, hd⟩ := MemoryAct.keeps frame_sameRecording memory_sameRecording a w
    exact .of_eq (hd d).2.1 hf.scopes
  | node a =>
    obtain ⟨hf, hd⟩ := NodeAct.keeps frame_sameRecording nodes_sameRecording a w
    exact .of_eq (hd d).2.1 hf.scopes
  | scope a =>
    obtain ⟨-, hd⟩ := ScopeAct.keeps frame_sameRecording memory_sameRecording.synchronize a w
    exact .same (sameMutex_of_eq (hd d).2.1) (ScopeAct.sameCaptures ha d).sameWhether
  | run a =>
    change Effect d w (.run a) (a.run w).2
    cases a with
    | execute s n args =>
      rw [RunAct.run, silent_world]
      exact execute_effect hw ha _
    | beginCapture s =>
      rw [RunAct.run, silent_world]
      exact beginCapture_effect ha
    | endCapture s r result =>
      rw [RunAct.run, silent_world]
      exact endCapture_effect hw ha _
    | unwindCapture s =>
      rw [RunAct.run, silent_world]
      exact unwindCapture_effect ha _
    | replay s r =>
      rw [RunAct.run, silent_world]
      exact replay_effect ha _
    | dropRecording r =>
      rw [RunAct.run, silent_world]
      exact dropRecording_effect ha _

/-! ## Captures in turn -/

/-- Device `d` has one capture at most, which one of its scopes is in, and no
other scope of it records; its lock isn't poisoned. -/
structure Orderly (w : World CpuBackend) (d : Nat) : Prop where
  healthy : (recordingOf w d).poisoned = false
  held : (recordingOf w d).val.isSome = true → ∃ s scope, w.scopes.lookup s = some scope ∧
    scope.dev = d ∧ scope.inCapture = true
  recording : ∀ s scope, w.scopes.lookup s = some scope → scope.dev = d →
    scope.inCapture = true → (recordingOf w d).val.isSome = true
  one : ∀ s s' scope scope', w.scopes.lookup s = some scope → w.scopes.lookup s' = some scope' →
    scope.dev = d → scope'.dev = d → scope.inCapture = true → scope'.inCapture = true → s' = s
  idle : ∀ s scope, w.scopes.lookup s = some scope → scope.dev = d → scope.inCapture = false →
    scope.recording = none

theorem Orderly.init (poolBytes : Nat → Nat) (d : Nat) :
    Orderly (World.init CpuBackend.attach poolBytes) d where
  healthy := rfl
  held h := by cases h
  recording _ _ h := by cases h
  one _ _ _ _ h := by cases h
  idle _ _ h := by cases h

theorem Orderly.same (h : Orderly w d) (hm : SameMutex (recordingOf w d) (recordingOf w' d))
    (hs : SameWhether d w w') : Orderly w' d where
  healthy := hm.1.trans h.healthy
  held hv := by
    obtain ⟨s, scope, hl, hd, hc⟩ := h.held (hm.2.symm.trans hv)
    exact ⟨s, hs.inCapture s scope hl hd hc⟩
  recording s scope hl hd hc := by
    rcases hs.old s scope hl hd with ⟨-, hn⟩ | ⟨scope₀, hl₀, hd₀, -, hc₀⟩
    · rw [hc] at hn
      cases hn
    · exact hm.2.trans (h.recording s scope₀ hl₀ hd₀ (hc₀.trans hc))
  one s s' scope scope' hl hl' hd hd' hc hc' := by
    rcases hs.old s scope hl hd with ⟨-, hn⟩ | ⟨scope₀, hl₀, hd₀, -, hc₀⟩
    · rw [hc] at hn
      cases hn
    · rcases hs.old s' scope' hl' hd' with ⟨-, hn⟩ | ⟨scope₁, hl₁, hd₁, -, hc₁⟩
      · rw [hc'] at hn
        cases hn
      · exact h.one s s' scope₀ scope₁ hl₀ hl₁ hd₀ hd₁ (hc₀.trans hc) (hc₁.trans hc')
  idle s scope hl hd hc := by
    rcases hs.old s scope hl hd with ⟨hn, -⟩ | ⟨scope₀, hl₀, hd₀, hr₀, hc₀⟩
    · exact hn
    · have hnone := h.idle s scope₀ hl₀ hd₀ (hc₀.trans hc)
      rw [hnone] at hr₀
      simpa using hr₀.symm

/-- A device that isn't recording has no scope in its `capture`. -/
theorem Orderly.not_inCapture (h : Orderly w d) (hv : (recordingOf w d).val = none) {s : Nat}
    {scope : Scope} (hs : w.scopes.lookup s = some scope) (hd : scope.dev = d) :
    scope.inCapture = false := by
  by_contra hc
  have hsome := h.recording s scope hs hd (by simpa using hc)
  rw [hv] at hsome
  cases hsome

theorem Orderly.begun (h : Orderly w d) {s : Nat} {scope : Scope} (hd : scope.dev = d)
    (hidle : recordingOf w d = ⟨none, false⟩) (hm : recordingOf w' d = ⟨some [], false⟩)
    (hscopes : w'.scopes =
      w.scopes.insert s { scope with recording := some [], inCapture := true }) :
    Orderly w' d := by
  have hval : (recordingOf w d).val = none := by rw [hidle]
  have other : ∀ s' scope', w'.scopes.lookup s' = some scope' → scope'.dev = d →
      s' = s ∧ scope'.inCapture = true ∨ scope'.inCapture = false ∧ scope'.recording = none := by
    intro s' scope' hs' hd'
    rw [hscopes, AList.lookup_insert_eq] at hs'
    split at hs'
    · cases hs'
      exact .inl ⟨‹_›, rfl⟩
    · have hc := h.not_inCapture hval hs' hd'
      exact .inr ⟨hc, h.idle s' scope' hs' hd' hc⟩
  refine ⟨by rw [hm], fun _ => ?_, fun _ _ _ _ _ => by rw [hm]; rfl, ?_, ?_⟩
  · refine ⟨s, { scope with recording := some [], inCapture := true }, ?_, hd, rfl⟩
    rw [hscopes]
    exact AList.lookup_insert _
  · intro s₁ s₂ scope₁ scope₂ h₁ h₂ hd₁ hd₂ hc₁ hc₂
    rcases other s₁ scope₁ h₁ hd₁ with ⟨rfl, -⟩ | ⟨hn, -⟩
    · rcases other s₂ scope₂ h₂ hd₂ with ⟨rfl, -⟩ | ⟨hn, -⟩
      · rfl
      · rw [hc₂] at hn
        cases hn
    · rw [hc₁] at hn
      cases hn
  · intro s₁ scope₁ h₁ hd₁ hc₁
    rcases other s₁ scope₁ h₁ hd₁ with ⟨-, ht⟩ | ⟨-, hn⟩
    · rw [hc₁] at ht
      cases ht
    · exact hn

theorem Orderly.ended (h : Orderly w d) {s : Nat} {scope : Scope}
    (hs : w.scopes.lookup s = some scope) (hd : scope.dev = d) (hc : scope.inCapture = true)
    (hm : recordingOf w' d =
      if (recordingOf w d).poisoned then recordingOf w d else ⟨none, false⟩)
    (hscopes : w'.scopes =
      w.scopes.insert s { scope with recording := none, inCapture := false }) : Orderly w' d := by
  rw [h.healthy] at hm
  have none_left : ∀ s' scope', w'.scopes.lookup s' = some scope' → scope'.dev = d →
      scope'.inCapture = false ∧ scope'.recording = none := by
    intro s' scope' hs' hd'
    rw [hscopes, AList.lookup_insert_eq] at hs'
    split at hs'
    · cases hs'
      exact ⟨rfl, rfl⟩
    · have hc' : scope'.inCapture = false := by
        by_contra hc'
        exact ‹¬s' = s› (h.one s s' scope scope' hs hs' hd hd' hc (by simpa using hc'))
      exact ⟨hc', h.idle s' scope' hs' hd' hc'⟩
  refine ⟨by rw [hm]; rfl, fun hv => ?_, ?_, ?_, fun s₁ scope₁ h₁ hd₁ _ =>
    (none_left s₁ scope₁ h₁ hd₁).2⟩
  · rw [hm] at hv
    cases hv
  · intro s₁ scope₁ h₁ hd₁ hc₁
    rw [(none_left s₁ scope₁ h₁ hd₁).1] at hc₁
    cases hc₁
  · intro s₁ s₂ scope₁ scope₂ h₁ h₂ hd₁ hd₂ hc₁ hc₂
    rw [(none_left s₁ scope₁ h₁ hd₁).1] at hc₁
    cases hc₁

theorem Orderly.step {e : Event CpuBackend} (h : Orderly w d) (hw : w.Valid)
    (hs : InTurn d w e w') : Orderly w' d := by
  obtain ⟨hstep, hfree⟩ := hs
  cases Effect.of_step hw hstep (d := d) with
  | same hm hs => exact h.same hm hs
  | begun s scope hs hd hidle hm hscopes => exact h.begun hd hidle hm hscopes
  | collided s scope ha hs hd hr hbusy _ =>
    refine absurd ?_ hfree
    rw [ha]
    refine ⟨scope, hs, hd, hr, ?_⟩
    rcases hbusy with hp | hv
    · rw [h.healthy] at hp
      cases hp
    · exact hv
  | ended s scope hs hd hc hm hscopes => exact h.ended hs hd hc hm hscopes

theorem Orderly.run {es : List (Event CpuBackend)} (h : Orderly w d) (hw : w.Valid)
    (hr : Transition.Runs (InTurn d) w es w') : Orderly w' d :=
  (hr.preserves (I := fun w => w.Valid ∧ Orderly w d)
    (fun _ _ _ h hs => ⟨h.1.step hs.1, h.2.step h.1 hs⟩) ⟨hw, h⟩).2

/-! ## A poisoned lock -/

/-- The lock is poisoned with a recording in it. -/
def Stuck (w : World CpuBackend) (d : Nat) : Prop :=
  (recordingOf w d).poisoned = true ∧ (recordingOf w d).val.isSome = true

/-- It stays so. -/
theorem Stuck.step {e : Event CpuBackend} (h : Stuck w d) (hw : w.Valid) (hs : w.Step e w') :
    Stuck w' d := by
  cases Effect.of_step hw hs (d := d) with
  | same hm _ => exact ⟨hm.1.trans h.1, hm.2.trans h.2⟩
  | begun _ _ _ _ hidle =>
    have hp := h.1
    rw [hidle] at hp
    cases hp
  | collided _ _ _ _ _ _ _ hm =>
    unfold Stuck
    rw [hm]
    exact ⟨rfl, h.2⟩
  | ended _ _ _ _ _ hm =>
    rw [if_pos h.1] at hm
    unfold Stuck
    rw [hm]
    exact h

theorem Stuck.run {es : List (Event CpuBackend)} (h : Stuck w d) (hw : w.Valid)
    (hr : w.Runs es w') : Stuck w' d :=
  (hr.preserves (I := fun w => w.Valid ∧ Stuck w d)
    (fun _ _ _ h hs => ⟨h.1.step hs, h.2.step h.1 hs⟩) ⟨hw, h⟩).2

theorem Collides.begins {a : Act CpuBackend} (h : Collides d w a) : ∃ s scope,
    a = .run (.beginCapture s) ∧ w.scopes.lookup s = some scope ∧ scope.dev = d ∧
    scope.recording = none ∧ (recordingOf w d).val.isSome = true := by
  cases a with
  | run a =>
    cases a with
    | beginCapture s =>
      obtain ⟨scope, hs, hrest⟩ := h
      exact ⟨s, scope, rfl, hs, hrest⟩
    | _ => exact False.elim h
  | _ => exact False.elim h

/-- A capture begun into another one leaves it so. -/
theorem stuck_of_collides {e : Event CpuBackend} (hs : w.Step e w') (hc : Collides d w e.act) :
    Stuck w' d := by
  obtain ⟨-, hr⟩ := hs
  rcases e with ⟨a, out⟩
  obtain rfl : (a.perform w).2 = w' := congrArg Prod.snd hr
  obtain ⟨s, scope, ha, hs, rfl, hnone, hv⟩ := hc.begins
  have hm := beginCapture_busy hs hnone (.inr hv)
  change a = _ at ha
  rw [ha, Act.perform, RunAct.run, silent_world]
  unfold Stuck
  rw [hm]
  exact ⟨rfl, hv⟩

/-! ## Rested -/

/-- Every capture of device `d` has ended. -/
def NoneInCapture (w : World CpuBackend) (d : Nat) : Prop :=
  ∀ s scope, w.scopes.lookup s = some scope → scope.dev = d → scope.inCapture = false

/-- What a device is to be left with: it isn't recording, none of its open
scopes is, and a new capture on any of them succeeds, whatever its closure does
that begins no capture into another one and returns. -/
structure Rested (w : World CpuBackend) (d : Nat) : Prop where
  device : (recordingOf w d).val = none
  scopes : ∀ s scope, w.scopes.lookup s = some scope → scope.dev = d → scope.recording = none
  again : ∀ s scope, w.scopes.lookup s = some scope → scope.dev = d →
    (Scope.beginCapture s w).1 = .ok () ∧
    ∀ es w', Transition.Runs (InTurn d) (Scope.beginCapture s w).2 es w' →
      ∀ scope', w'.scopes.lookup s = some scope' → scope'.dev = d → scope'.inCapture = true →
        ∀ r, (Scope.endCapture s r (.ok ()) w').1 = .ok ()

/-- A device with no capture in progress isn't recording. -/
theorem Orderly.val_none (h : Orderly w d) (hnone : NoneInCapture w d) :
    (recordingOf w d).val = none := by
  by_contra hv
  obtain ⟨s, scope, hs, hd, hc⟩ := h.held (Option.isSome_iff_ne_none.mpr hv)
  rw [hnone s scope hs hd] at hc
  cases hc

/-- On a device that isn't recording, a capture begins. -/
theorem Orderly.beginCapture_ok (h : Orderly w d) (hv : (recordingOf w d).val = none) {s : Nat}
    {scope : Scope} (hs : w.scopes.lookup s = some scope) (hd : scope.dev = d) :
    (Scope.beginCapture s w).1 = .ok () := by
  subst hd
  have hr := h.idle s scope hs rfl (h.not_inCapture hv hs rfl)
  rw [beginCapture_run hs, hr, if_neg (by simp)]
  rcases CpuBackend.beginCapture_cases (w.devices scope.dev).raw with
    ⟨hp, -⟩ | ⟨-, calls, hv', -⟩ | ⟨-, -, hb⟩
  · cases h.healthy.symm.trans hp
  · cases hv.symm.trans hv'
  · simp only [Capturable.beginCapture, hb]

/-- A capture in progress ends. -/
theorem Orderly.endCapture_ok (h : Orderly w d) (hw : w.Valid) {s : Nat} {scope : Scope}
    (hs : w.scopes.lookup s = some scope) (hd : scope.dev = d) (hc : scope.inCapture = true)
    (r : Nat) : (Scope.endCapture s r (.ok ()) w).1 = .ok () := by
  subst hd
  obtain ⟨calls, hcalls⟩ := Option.isSome_iff_exists.mp (hw.inCapture s scope hs hc)
  obtain ⟨raws, hv⟩ := Option.isSome_iff_exists.mp (h.recording s scope hs rfl hc)
  rw [endCapture_run hs hcalls]
  rcases CpuBackend.endCapture_cases (w.devices scope.dev).raw with
    ⟨hp, -⟩ | ⟨-, raws', -, he⟩ | ⟨-, hv', -⟩
  · cases h.healthy.symm.trans hp
  · simp only [Capturable.endCapture, he]
  · cases hv.symm.trans hv'

theorem Orderly.rested (h : Orderly w d) (hw : w.Valid) (hnone : NoneInCapture w d) :
    Rested w d where
  device := h.val_none hnone
  scopes s scope hs hd := h.idle s scope hs hd (hnone s scope hs hd)
  again s scope hs hd := by
    have hv := h.val_none hnone
    refine ⟨h.beginCapture_ok hv hs hd, fun es w' hr scope' hs' hd' hc' r => ?_⟩
    have hstep : InTurn d w ⟨.run (.beginCapture s), ((Act.run (.beginCapture s)).perform w).1⟩
        (Scope.beginCapture s w).2 := by
      refine ⟨⟨AList.lookup_isSome.mp (Option.isSome_iff_exists.mpr ⟨scope, hs⟩), ?_⟩, ?_⟩
      · rw [Act.perform, RunAct.run, ← silent_world (Scope.beginCapture s) w]
      · intro hcollides
        obtain ⟨-, -, -, -, -, -, hsome⟩ := hcollides.begins
        rw [hv] at hsome
        cases hsome
    have hw₁ := hw.step hstep.1
    exact ((h.step hw hstep).run hw₁ hr).endCapture_ok (hw₁.run hr.of_where) hs' hd' hc' r

/-- **After captures in turn a device is rested, and only then**: in a world
that a program gets to and in which every capture of the device has ended, the
device, its scopes and its new captures are as they should be exactly if no
capture was begun into another one on the way. -/
theorem rested_iff_in_turn {poolBytes : Nat → Nat} {es : List (Event CpuBackend)}
    (h : World.Runs (.init CpuBackend.attach poolBytes) es w) (hnone : NoneInCapture w d) :
    Rested w d ↔ Transition.Runs (InTurn d) (.init CpuBackend.attach poolBytes) es w := by
  have hinit := World.Valid.init CpuBackend.attach poolBytes
  constructor
  · intro hrested
    rcases h.where_or (fun w e => ¬Collides d w e.act) with hall |
      ⟨es₁, w₁, e, w₂, es₂, hr₁, hs, hbad, hr₂⟩
    · exact hall
    · have hw₁ := hinit.run hr₁.of_where
      have hstuck := stuck_of_collides hs (not_not.mp hbad)
      have hv := (hstuck.run (hw₁.step hs) hr₂).2
      rw [hrested.device] at hv
      cases hv
  · intro hr
    exact ((Orderly.init poolBytes d).run hinit hr).rested (hinit.run h) hnone

theorem noneInCapture_iff : NoneInCapture w d ↔
    ∀ scope ∈ w.scopes.values, scope.dev = d → scope.inCapture = false := by
  simp only [NoneInCapture, AList.mem_values]
  exact ⟨fun h scope hs => hs.elim fun s hs => h s scope hs, fun h s scope hs => h scope ⟨s, hs⟩⟩

instance (w : World CpuBackend) (d : Nat) : Decidable (NoneInCapture w d) :=
  decidable_of_iff' _ noneInCapture_iff

/-! ## Two scopes that capture -/

namespace Sample

/-- A capture of scope 0 whose closure fails, one of scope 1 in which it is begun
again and which is left by a panic, and one of scope 0 again. -/
def capturesInTurn : List (Act CpuBackend) :=
  twoScopes ++ [.run (.beginCapture 0), .run (.endCapture 0 0 (.error .AlreadyCapturing)),
    .run (.beginCapture 1), .run (.beginCapture 1), .run (.unwindCapture 1),
    .run (.beginCapture 0), .run (.endCapture 0 0 (.ok ()))]

/-- A capture of scope 1 begun in the closure of scope 0's, its panic caught. -/
def captureInCapture : List (Act CpuBackend) :=
  twoScopes ++ [.run (.beginCapture 0), .run (.beginCapture 1), .run (.endCapture 0 0 (.ok ()))]

end Sample

open Capture.Sample

set_option maxRecDepth 8000

theorem rested_after_captures_in_turn : ∃ es w, es.length = 17 ∧
    World.Runs (.init CpuBackend.attach fun _ => 0) es w ∧ NoneInCapture w 0 ∧ Rested w 0 := by
  have hplay : ((start.play (fun w a => ¬Collides 0 w a) capturesInTurn).any fun r =>
      r.1.length = 17 ∧ NoneInCapture r.2 0) = true := by
    decide
  obtain ⟨⟨es, w⟩, hr, hall⟩ := Option.any_eq_true _ _ |>.mp hplay
  obtain ⟨hlen, hnone⟩ := of_decide_eq_true hall
  have hruns := World.runs_of_play hr
  exact ⟨es, w, hlen, hruns.of_where, hnone, (rested_iff_in_turn hruns.of_where hnone).mpr hruns⟩

/-- Both captures have ended, and the device records for good, scope 1 records
too, and no capture can begin. -/
theorem capture_in_capture_never_rests : ∃ es w, start.Runs es w ∧ NoneInCapture w 0 ∧
    (recordingOf w 0).val.isSome = true ∧
    ((w.scopes.lookup 1).any fun scope => scope.recording.isSome) = true ∧
    (Scope.beginCapture 0 w).1.returns = false ∧ ¬Rested w 0 := by
  have hplay : ((start.play (fun _ _ => True) captureInCapture).any fun r =>
      NoneInCapture r.2 0 ∧ (recordingOf r.2 0).val.isSome = true ∧
      ((r.2.scopes.lookup 1).any fun scope => scope.recording.isSome) = true ∧
      (Scope.beginCapture 0 r.2).1.returns = false) = true := by
    decide
  obtain ⟨⟨es, w⟩, hr, hall⟩ := Option.any_eq_true _ _ |>.mp hplay
  obtain ⟨hnone, hv, hscope, hbegin⟩ := of_decide_eq_true hall
  refine ⟨es, w, (World.runs_of_play hr).of_where, hnone, hv, hscope, hbegin, fun h => ?_⟩
  rw [h.device] at hv
  cases hv

end Wilupgu.Capture
