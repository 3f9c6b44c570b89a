import Wilupgu.Capture.Recorded

/-! # What a capture leaves

A capture whose closure makes `execute` calls runs none of them: the world is
as before, but for a recording of the calls that returned. -/

namespace Wilupgu.Capture

open Backend Backends Call

variable {w w' : World CpuBackend} {s : Nat} {scope : Scope}

/-- An `execute` on scope `s`. -/
def RunsOn (s : Nat) (e : Event CpuBackend) : Prop := ∃ n args, e.act = .run (.execute s n args)

/-- The node and the arguments of each `execute` that returned `Ok`. -/
def returned (es : List (Event CpuBackend)) : List (Nat × List Arg) :=
  es.filterMap fun e =>
    match e.act, e.out with
    | .run (.execute _ n args), .ok .unit => some (n, args)
    | _, _ => none

/-- `Scope::capture` on scope `s`, whose closure makes the `execute` calls `es`
and then returns `Ok`. The recording is put at `r`. -/
def Captures (w : World CpuBackend) (s r : Nat) (es : List (Event CpuBackend))
    (w' : World CpuBackend) : Prop :=
  ∃ w₁ w₂, w.Step ⟨.run (.beginCapture s), .ok .unit⟩ w₁ ∧
    Transition.Runs (Transition.Where World.Step fun _ e => RunsOn s e) w₁ es w₂ ∧
    w₂.Step ⟨.run (.endCapture s r (.ok ())), .ok .unit⟩ w'

/-- The two notes made of running a node on arguments. -/
def NotedBy (w : World CpuBackend) (scope : Scope) (c : Nat × List Arg)
    (note : RecordedCall × CpuCall) : Prop :=
  ∃ address node bindings, w.boundNode scope c.1 = .ok (address, node) ∧
    Scope.access w scope c.2 = .ok bindings ∧
    note = (⟨address, bindings.map RecordedArg.ofAccess, node.uid⟩,
      ⟨address, bindings.map CpuSlot.ofAccess⟩)

/-! ## While it lasts -/

/-- Scope and device in the middle of a capture that has made `notes`. -/
def scopeDuring (scope : Scope) (notes : List (RecordedCall × CpuCall)) : Scope :=
  { scope with recording := some (notes.map Prod.fst), inCapture := true }

def rawDuring (raw : CpuBackend) (notes : List (RecordedCall × CpuCall)) : CpuBackend :=
  raw.setRecording ⟨some (notes.map Prod.snd), false⟩

def during (w : World CpuBackend) (s : Nat) (scope : Scope) (notes : List (RecordedCall × CpuCall)) :
    World CpuBackend :=
  (w.setDevice scope.dev { w.devices scope.dev with
    raw := rawDuring (w.devices scope.dev).raw notes }).setScope s (scopeDuring scope notes)

theorem during_raw (w : World CpuBackend) (s : Nat) (scope : Scope)
    (notes : List (RecordedCall × CpuCall)) :
    ((during w s scope notes).devices scope.dev).raw =
      rawDuring (w.devices scope.dev).raw notes := by
  simp [during]

/-- The scope and the device make one more note. -/
theorem during_snoc (w : World CpuBackend) (s : Nat) (scope : Scope)
    (notes : List (RecordedCall × CpuCall)) (note : RecordedCall × CpuCall) :
    ((during w s scope notes).setDevice scope.dev { (during w s scope notes).devices scope.dev with
      raw := rawDuring (w.devices scope.dev).raw (notes ++ [note]) }).setScope s
        { scopeDuring scope notes with recording := some (notes.map Prod.fst ++ [note.1]) } =
      during w s scope (notes ++ [note]) := by
  simp [during, scopeDuring, World.setDevice, World.setScope]

theorem executeRaw_during (raw : CpuBackend) (notes : List (RecordedCall × CpuCall))
    (call : RecordedCall) (node : CpuNode) (bindings : List (Access CpuBuffer)) :
    CpuBackend.executeRaw call.node node bindings (rawDuring raw notes) =
      (.ok (), rawDuring raw (notes ++ [(call, ⟨call.node, bindings.map CpuSlot.ofAccess⟩)])) ∨
    ∃ e, CpuBackend.executeRaw call.node node bindings (rawDuring raw notes) =
      (.err e, rawDuring raw notes) := by
  simp only [CpuBackend.executeRaw, rawDuring, CpuBackend.setRecording, List.map_append,
    List.map_cons, List.map_nil]
  split
  · exact .inr ⟨_, rfl⟩
  · exact .inl rfl

section Executed

variable {address : Nat} {node : Node CpuBackend} {bindings : List (Access CpuBuffer)}
  {raw : CpuBackend}

theorem executed_of_ok (s : Nat) (scope : Scope) {calls : List RecordedCall} (hr : scope.recording = some calls)
    (h : CpuBackend.executeRaw address node.raw bindings (w.devices scope.dev).raw =
      (.ok (), raw)) :
    Scope.executed w s scope address node bindings =
      (.ok (), (w.setDevice scope.dev { w.devices scope.dev with raw }).setScope s
        { scope with recording := some (calls ++
          [⟨address, bindings.map (RecordedArg.ofAccess (B := CpuBackend)), node.uid⟩]) }) := by
  simp only [Scope.executed, Dispatch.executeRaw, h, hr]

theorem executed_of_err (s : Nat) (scope : Scope) {e : String}
    (h : CpuBackend.executeRaw address node.raw bindings (w.devices scope.dev).raw =
      (.err e, raw)) :
    Scope.executed w s scope address node bindings =
      (.err (.Backend e), w.setDevice scope.dev { w.devices scope.dev with raw }) := by
  simp only [Scope.executed, Dispatch.executeRaw, h]
  rfl

end Executed

/-- An `execute` meanwhile: it is noted by both and not run, or it fails and
nothing is noted. -/
theorem execute_during {notes : List (RecordedCall × CpuCall)}
    (hw : (during w s scope notes).Valid) {n : Nat} {args : List Arg}
    (ha : (RunAct.execute s n args).Allowed (during w s scope notes)) :
    (∃ note, NotedBy w scope (n, args) note ∧
      Scope.execute s n args (during w s scope notes) =
        (.ok (), during w s scope (notes ++ [note]))) ∨
    (Scope.execute s n args (during w s scope notes)).1 ≠ .ok () ∧
      (Scope.execute s n args (during w s scope notes)).2 = during w s scope notes := by
  have hlookup : (during w s scope notes).scopes.lookup s = some (scopeDuring scope notes) :=
    AList.lookup_insert _
  obtain ⟨scope', hs, hn, -⟩ := ha
  obtain rfl := Option.some.inj (hlookup.symm.trans hs)
  obtain ⟨node, hnode, -⟩ := hw.nodes s _ hs _ (List.getElem_mem hn)
  have hb := boundNode_eq_ok.mpr ⟨List.getElem?_eq_getElem hn, hnode⟩
  rw [execute_run hs hb]
  split
  · split
    · rename_i bindings hbindings
      let call : RecordedCall :=
        ⟨scope.nodes[n], bindings.map (RecordedArg.ofAccess (B := CpuBackend)), node.uid⟩
      rcases executeRaw_during (w.devices scope.dev).raw notes call node.raw bindings with
        hran | ⟨e, hran⟩ <;> rw [← during_raw w s scope notes] at hran
      · refine .inl ⟨_, ⟨_, node, bindings, hb, hbindings, rfl⟩, ?_⟩
        rw [← during_snoc]
        exact executed_of_ok s (scopeDuring scope notes) rfl hran
      · refine .inr ?_
        have hfailed := executed_of_err s (scopeDuring scope notes) hran
        rw [show call.node = (scopeDuring scope notes).nodes[n] from rfl] at hfailed
        rw [hfailed]
        exact ⟨nofun, setDevice_self _ _⟩
    · exact .inr ⟨nofun, rfl⟩
    · exact .inr ⟨nofun, rfl⟩
  · exact .inr ⟨nofun, rfl⟩
  · exact .inr ⟨nofun, rfl⟩

/-- The calls a closure makes leave their notes and nothing else. -/
theorem runs_during {w₁ : World CpuBackend} {notes : List (RecordedCall × CpuCall)}
    {es : List (Event CpuBackend)} (hw₁ : w₁.Valid) (hstart : w₁ = during w s scope notes)
    (h : Transition.Runs (Transition.Where World.Step fun _ e => RunsOn s e) w₁ es w') :
    ∃ more, List.Forall₂ (NotedBy w scope) (returned es) more ∧
      w' = during w s scope (notes ++ more) := by
  induction h generalizing notes with
  | nil => exact ⟨[], .nil, by rw [hstart, List.append_nil]⟩
  | @cons _ _ _ e es hs _ ih =>
    obtain ⟨hstep, n, args, hact⟩ := hs
    have hw₂ := hw₁.step hstep
    subst hstart
    rcases e with ⟨act, out⟩
    obtain rfl : act = .run (.execute s n args) := hact
    obtain ⟨rfl, hok⟩ := silent_eq hstep.2
    rcases execute_during hw₁ hstep.1 with ⟨note, hnote, hran⟩ | ⟨hne, hsame⟩
    · rw [hran] at hok
      obtain rfl := hok.mpr rfl
      obtain ⟨more, hmore, hend⟩ := ih hw₂ (congrArg Prod.snd hran)
      exact ⟨note :: more, .cons hnote hmore, by rw [hend, List.append_assoc]; rfl⟩
    · have hnone : returned (⟨.run (.execute s n args), out⟩ :: es) = returned es := by
        rcases out with ⟨_ | _ | _⟩ | _ | _
        · exact absurd (hok.mp rfl) hne
        all_goals rfl
      obtain ⟨more, hmore, hend⟩ := ih hw₂ hsame
      exact ⟨more, hnone ▸ hmore, hend⟩

/-! ## All of it -/

/-- The recording of a capture on `scope` that has made `notes`. -/
def recordingOfNotes (w : World CpuBackend) (scope : Scope)
    (notes : List (RecordedCall × CpuCall)) : Recording CpuBackend where
  raw := (⟨notes.map Prod.snd, (w.devices scope.dev).raw.owner⟩ : CpuCapture)
  calls := notes.map Prod.fst
  dev := scope.dev

theorem begun (h : w.Step ⟨.run (.beginCapture s), .ok .unit⟩ w') : ∃ scope,
    w.scopes.lookup s = some scope ∧ scope.recording = none ∧
    recordingOf w scope.dev = ⟨none, false⟩ ∧ w' = during w s scope [] := by
  obtain ⟨hm, hr⟩ := h
  obtain ⟨scope, hs⟩ := exists_of_mem hm
  obtain ⟨rfl, hok⟩ := silent_eq hr
  replace hok := hok.mp rfl
  refine ⟨scope, hs, ?_⟩
  rw [beginCapture_run hs] at hok ⊢
  split at hok
  · cases hok
  · rename_i hnone
    rw [if_neg hnone]
    simp only [Capturable.beginCapture] at hok ⊢
    rcases CpuBackend.beginCapture_cases (w.devices scope.dev).raw with
      ⟨-, hb⟩ | ⟨-, calls, -, hb⟩ | ⟨hp, hv, hb⟩ <;> rw [hb] at hok
    · cases hok
    · cases hok
    · refine ⟨by simpa using hnone, ?_, ?_⟩
      · rw [recordingOf, ← hp, ← hv]
      · rw [hb]
        simp [during, scopeDuring, rawDuring, World.setDevice, World.setScope]

theorem ended {r : Nat} {notes : List (RecordedCall × CpuCall)}
    (hidle : recordingOf w scope.dev = ⟨none, false⟩)
    (h : (during w s scope notes).Step ⟨.run (.endCapture s r (.ok ())), .ok .unit⟩ w') :
    w' = (w.setScope s { scope with recording := none, inCapture := false }).setRecordings
      (w.recordings.insert r (recordingOfNotes w scope notes)) := by
  obtain ⟨-, hr⟩ := h
  obtain ⟨rfl, -⟩ := silent_eq hr
  have hs : (during w s scope notes).scopes.lookup s = some (scopeDuring scope notes) :=
    AList.lookup_insert _
  rw [endCapture_run hs rfl]
  have hend : CpuBackend.endCapture (rawDuring (w.devices scope.dev).raw notes) =
      (.ok ⟨notes.map Prod.snd, (w.devices scope.dev).raw.owner⟩, (w.devices scope.dev).raw) := by
    have hsame : (rawDuring (w.devices scope.dev).raw notes).setRecording ⟨none, false⟩ =
        (w.devices scope.dev).raw := by
      rw [← hidle]
      rfl
    rw [← hsame]
    rfl
  have hdev : (scopeDuring scope notes).dev = scope.dev := rfl
  simp only [Capturable.endCapture, hdev, during_raw, hend]
  simp [during, scopeDuring, recordingOfNotes, World.setDevice, World.setScope,
    World.setRecordings]

/-- **What a capture leaves**: a recording of the calls that returned, noted by
both, and everything else as it was. -/
theorem Captures.leaves {r : Nat} {es : List (Event CpuBackend)} (hw : w.Valid)
    (h : Captures w s r es w') : ∃ scope notes, w.scopes.lookup s = some scope ∧
      List.Forall₂ (NotedBy w scope) (returned es) notes ∧
      w' = (w.setScope s { scope with recording := none, inCapture := false }).setRecordings
        (w.recordings.insert r (recordingOfNotes w scope notes)) := by
  obtain ⟨w₁, w₂, hbegin, hruns, hend⟩ := h
  obtain ⟨scope, hs, -, hidle, hstart⟩ := begun hbegin
  obtain ⟨notes, hnotes, rfl⟩ := runs_during (hw.step hbegin) hstart hruns
  exact ⟨scope, notes, hs, hnotes, ended hidle hend⟩

end Wilupgu.Capture
