import Wilupgu.Backends.Cpu
import Wilupgu.Backends.Wgpu

/-! # wgpu does as it is told

A method hands commands and writes to the queue, now or with a later submit
(`acts`). Every method that writes submits first, so what a run hands over is
what its operations hand over one after the other, however large the batches
are. wgpu's rules leave only that order, so a download reads what the
operations done one by one leave, and a dispatch sees the meta last written. -/

namespace Wilupgu.Backends

open Backend ByteMemory CommandQueue

variable {raw raw' : WgpuBackend} {g : Gpu} {op : WgpuOp} {ops : List WgpuOp}

/-! ## What is handed over -/

namespace WgpuBackend

/-- All that the queue has got or will get with the next submit. -/
def acts (raw : WgpuBackend) : List (Command ⊕ Write) :=
  handed raw.queue (raw.pending.encoder.getD [])

theorem acts_submit (raw : WgpuBackend) : raw.submit.acts = raw.acts := by
  unfold acts submit
  cases raw.pending.encoder with
  | none => rfl
  | some encoder => exact handed_submit _ _

theorem acts_encode (command : Command) (raw : WgpuBackend) :
    (raw.encode command).acts = raw.acts ++ [.inl command] := handed_record _ _ _

theorem record_cases (command : Command) (raw : WgpuBackend) :
    raw.record command = (raw.encode command).count.submit ∨
      raw.record command = (raw.encode command).count :=
  ite_eq_or_eq _ _ _

/-- A record hands its command over, whether it submits or not. -/
theorem acts_record (command : Command) (raw : WgpuBackend) :
    (raw.record command).acts = raw.acts ++ [.inl command] := by
  rcases record_cases command raw with h | h <;> rw [h]
  · exact (acts_submit _).trans (acts_encode command raw)
  · exact acts_encode command raw

/-- **A write is handed over next**, because nothing is kept back. -/
theorem acts_writeBuffer (w : Write) (raw : WgpuBackend) :
    (raw.submit.writeBuffer w).acts = raw.acts ++ [.inr w] := by
  have hnone : raw.submit.acts = handed raw.submit.queue [] := rfl
  show handed (raw.submit.queue ++ [.write w]) [] = raw.acts ++ [.inr w]
  rw [handed_write, ← hnone, acts_submit]

/-- Methods only add to the queue, and leave a device the device it is. -/
structure Extends (raw raw' : WgpuBackend) : Prop where
  owner : raw'.owner = raw.owner
  limits : raw'.limits = raw.limits
  queue : raw.queue <+: raw'.queue
  stagings : raw.stagings ≤ raw'.stagings

theorem Extends.refl (raw : WgpuBackend) : Extends raw raw :=
  ⟨rfl, rfl, List.prefix_refl _, Nat.le_refl _⟩

theorem Extends.trans {raw'' : WgpuBackend} (h : Extends raw raw') (h' : Extends raw' raw'') :
    Extends raw raw'' :=
  ⟨h'.owner.trans h.owner, h'.limits.trans h.limits, h.queue.trans h'.queue,
    h.stagings.trans h'.stagings⟩

theorem extends_submit (raw : WgpuBackend) : Extends raw raw.submit := by
  refine ⟨rfl, rfl, ?_, Nat.le_refl _⟩
  unfold submit
  cases raw.pending.encoder with
  | none => exact List.prefix_refl _
  | some encoder => exact List.prefix_append _ _

theorem extends_record (command : Command) (raw : WgpuBackend) :
    Extends raw (raw.record command) := by
  have hcount : Extends raw (raw.encode command).count :=
    ⟨rfl, rfl, List.prefix_refl _, Nat.le_refl _⟩
  rcases record_cases command raw with h | h <;> rw [h]
  · exact hcount.trans (extends_submit _)
  · exact hcount

theorem extends_writeBuffer (w : Write) (raw : WgpuBackend) :
    Extends raw (raw.submit.writeBuffer w) :=
  (extends_submit raw).trans ⟨rfl, rfl, List.prefix_append _ _, Nat.le_refl _⟩

end WgpuBackend

namespace Contents

theorem metas_writeBack (c : Contents) (bindings : List (Access WgpuBuffer))
    (outs : List (List UInt8)) : (c.writeBack bindings outs).metas = c.metas := by
  induction bindings generalizing c outs with
  | nil => rfl
  | cons a bindings ih =>
    cases outs with
    | nil => cases a <;> rfl
    | cons bytes outs => cases a <;> exact ih _ _

theorem upload_nil (c : Contents) (buf : WgpuBuffer) (offset : Nat) :
    c.upload buf offset [] = c := by
  rw [upload, write_nil, setBuffer, Function.update_eq_self]

end Contents

namespace WgpuOp

open WgpuBackend

/-- What stops an operation. -/
def check (raw : WgpuBackend) : WgpuOp → Outcome String Unit
  | copy src _ dst _ _ => do
    raw.checkOwner src.owner "copy_raw: the source"
    raw.checkOwner dst.owner "copy_raw: the destination"
  | clear buf => raw.checkOwner buf.owner "clear_raw: the buffer"
  | execute node bindings => raw.checkBindings node bindings
  | _ => .ok ()

/-- What an operation makes of the backend if nothing stops it. -/
def proceed (raw : WgpuBackend) : WgpuOp → WgpuBackend
  | upload buf offset data => raw.submit.writeBuffer (.Buffer buf offset data)
  | download buf offset bytes => (downloadRaw buf offset bytes raw).2
  | copy src srcOffset dst dstOffset bytes =>
    if bytes > 0 then
      raw.record (.Copy src.buf srcOffset (.Buffer dst.buf) dstOffset bytes)
    else raw
  | clear buf => raw.record (.Clear buf)
  | updateMeta node words => raw.submit.writeBuffer (.Meta node words)
  | execute node bindings => raw.record (.Dispatch node bindings)
  | synchronize => raw.submit
  | setSubmitEvery every => { raw with submitEvery := every }

/-- The staging buffer it waits for. -/
def mapped (raw : WgpuBackend) : WgpuOp → Option Mapped
  | download _ _ bytes => if bytes = 0 then none else some ⟨raw.stagings, bytes⟩
  | _ => none

theorem perform_run (op : WgpuOp) (raw : WgpuBackend) :
    op.perform raw = match op.check raw with
      | .ok () => (.ok (op.mapped raw), op.proceed raw)
      | .err e => (.err e, raw)
      | .panic => (.panic, raw) := by
  cases op with
  | upload | updateMeta | synchronize | setSubmitEvery => rfl
  | download buf offset bytes =>
    simp only [perform, check, mapped, proceed, downloadRaw]
    by_cases h : bytes = 0
    · simp only [if_pos h]
    · simp only [if_neg h]
  | copy src srcOffset dst dstOffset bytes =>
    simp only [perform, copyRaw, Call.bind_run, Call.get_run, Call.lift_run, check]
    cases raw.checkOwner src.owner "copy_raw: the source" with
    | err | panic => rfl
    | ok => cases raw.checkOwner dst.owner "copy_raw: the destination" with
      | err | panic => rfl
      | ok =>
        simp only [proceed]
        by_cases h : bytes > 0
        · simp only [if_pos h]
          rfl
        · simp only [if_neg h]
          rfl
  | clear buf =>
    simp only [perform, clearRaw, Call.bind_run, Call.get_run, Call.lift_run, check]
    cases raw.checkOwner buf.owner "clear_raw: the buffer" <;> rfl
  | execute node bindings =>
    simp only [perform, executeRaw, Call.bind_run, Call.get_run, Call.lift_run, check]
    cases raw.checkBindings node bindings <;> rfl

/-- What an operation hands over if nothing stops it. -/
def work (raw : WgpuBackend) : WgpuOp → List (Command ⊕ Write)
  | upload buf offset data => [.inr (.Buffer buf offset data)]
  | download buf offset bytes =>
    if bytes = 0 then [] else [.inl (.Copy buf.buf offset (.Staging raw.stagings) 0 bytes)]
  | copy src srcOffset dst dstOffset bytes =>
    if bytes > 0 then [.inl (.Copy src.buf srcOffset (.Buffer dst.buf) dstOffset bytes)] else []
  | clear buf => [.inl (.Clear buf)]
  | updateMeta node words => [.inr (.Meta node words)]
  | execute node bindings => [.inl (.Dispatch node bindings)]
  | synchronize | setSubmitEvery _ => []

def acts (raw : WgpuBackend) (op : WgpuOp) : List (Command ⊕ Write) :=
  if (op.check raw).isOk then op.work raw else []

theorem acts_proceed (op : WgpuOp) (raw : WgpuBackend) :
    (op.proceed raw).acts = raw.acts ++ op.work raw := by
  cases op with
  | upload | updateMeta => exact acts_writeBuffer _ _
  | clear | execute => exact acts_record _ _
  | synchronize => exact (acts_submit raw).trans (List.append_nil _).symm
  | setSubmitEvery => exact (List.append_nil _).symm
  | download buf offset bytes =>
    simp only [proceed, downloadRaw, work]
    by_cases h : bytes = 0
    · simp only [if_pos h, List.append_nil]
      exact acts_submit raw
    · simp only [if_neg h]
      exact (acts_submit _).trans (acts_encode _ _)
  | copy src srcOffset dst dstOffset bytes =>
    simp only [proceed, work]
    by_cases h : bytes > 0
    · simp only [if_pos h]
      exact acts_record _ _
    · simp only [if_neg h, List.append_nil]

theorem extends_proceed (op : WgpuOp) (raw : WgpuBackend) : Extends raw (op.proceed raw) := by
  cases op with
  | upload | updateMeta => exact extends_writeBuffer _ _
  | clear | execute => exact extends_record _ _
  | synchronize => exact extends_submit raw
  | setSubmitEvery => exact ⟨rfl, rfl, List.prefix_refl _, Nat.le_refl _⟩
  | download buf offset bytes =>
    simp only [proceed, downloadRaw]
    by_cases h : bytes = 0
    · simp only [if_pos h]
      exact extends_submit raw
    · simp only [if_neg h]
      have hencode : Extends raw (encode (.Copy buf.buf offset (.Staging raw.stagings) 0 bytes)
          { raw with stagings := raw.stagings + 1 }) :=
        ⟨rfl, rfl, List.prefix_refl _, Nat.le_succ _⟩
      exact hencode.trans (extends_submit _)
  | copy src srcOffset dst dstOffset bytes =>
    simp only [proceed]
    by_cases h : bytes > 0
    · simp only [if_pos h]
      exact extends_record _ _
    · simp only [if_neg h]
      exact .refl raw

/-- **Step lemma.** An operation hands over what it is for, after all before it. -/
theorem acts_perform (op : WgpuOp) (raw : WgpuBackend) :
    (op.perform raw).2.acts = raw.acts ++ op.acts raw := by
  rw [perform_run, acts]
  cases op.check raw with
  | ok => exact acts_proceed op raw
  | err | panic => exact (List.append_nil _).symm

theorem extends_perform (op : WgpuOp) (raw : WgpuBackend) : Extends raw (op.perform raw).2 := by
  rw [perform_run]
  cases op.check raw with
  | ok => exact extends_proceed op raw
  | err | panic => exact .refl raw

theorem extends_performAll (ops : List WgpuOp) (raw : WgpuBackend) :
    Extends raw (performAll ops raw) := by
  induction ops generalizing raw with
  | nil => exact .refl raw
  | cons op ops ih => exact (extends_perform op raw).trans (ih _)

/-! ## What it does to the memory -/

/-- What an operation does at once if nothing stops it. -/
def done (c : Contents) : WgpuOp → Contents
  | upload buf offset data => c.upload buf offset data
  | copy src srcOffset dst dstOffset bytes =>
    c.upload dst dstOffset (read (c.buffers src.buf) srcOffset bytes)
  | clear buf => c.clear buf
  | updateMeta node words => c.writeMeta node words
  | execute node bindings => c.dispatch node bindings
  | _ => c

/-- What it returns. -/
def result (c : Contents) : WgpuOp → List UInt8
  | download buf offset bytes => read (c.buffers buf.buf) offset bytes
  | _ => []

theorem apply_run (raw : WgpuBackend) (op : WgpuOp) (c : Contents) :
    op.apply raw c = match op.check raw with
      | .ok () => (.ok (op.result c), op.done c)
      | .err e => (.err e, c)
      | .panic => (.panic, c) := by
  cases op with
  | upload | updateMeta | synchronize | setSubmitEvery | download => rfl
  | copy src srcOffset dst dstOffset bytes =>
    simp only [apply, Call.bind_run, Call.lift_run, check]
    cases raw.checkOwner src.owner "copy_raw: the source" with
    | err | panic => rfl
    | ok => cases raw.checkOwner dst.owner "copy_raw: the destination" <;> rfl
  | clear buf =>
    simp only [apply, Call.bind_run, Call.lift_run, check]
    cases raw.checkOwner buf.owner "clear_raw: the buffer" <;> rfl
  | execute node bindings =>
    simp only [apply, Call.bind_run, Call.lift_run, check]
    cases raw.checkBindings node bindings <;> rfl

/-- What stops an operation stays the same. -/
theorem check_eq (h : Extends raw raw') (op : WgpuOp) : op.check raw' = op.check raw := by
  cases op <;> simp only [check, checkBindings, checkOwner, h.owner, h.limits]

theorem contents_work (op : WgpuOp) (raw : WgpuBackend) (g : Gpu) :
    (effect Gpu.run (op.work raw) g).contents = op.done g.contents := by
  cases op with
  | upload | clear | updateMeta | execute | synchronize | setSubmitEvery => rfl
  | download buf offset bytes =>
    simp only [work]
    split <;> rfl
  | copy src srcOffset dst dstOffset bytes =>
    simp only [work]
    split
    · rfl
    · rename_i h
      obtain rfl : bytes = 0 := Nat.eq_zero_of_not_pos h
      exact (Contents.upload_nil _ _ _).symm

theorem seen_work (op : WgpuOp) (g : Gpu) (hc : op.check raw = .ok ()) :
    (effect Gpu.run (op.work raw') g).seen ++ sees raw ops (op.done g.contents).metas =
      g.seen ++ sees raw (op :: ops) g.contents.metas := by
  cases op with
  | upload | clear | updateMeta | synchronize | setSubmitEvery => rfl
  | execute node bindings =>
    have hok : (raw.checkBindings node bindings).isOk = true := congrArg Outcome.isOk hc
    rw [sees, if_pos hok, done, Contents.dispatch, Contents.metas_writeBack]
    exact List.append_assoc _ _ _
  | download buf offset bytes =>
    simp only [work]
    split <;> rfl
  | copy src srcOffset dst dstOffset bytes =>
    simp only [work]
    split <;> rfl

/-- An operation that is stopped dispatches nothing. -/
theorem sees_stopped (op : WgpuOp) (metas : Nat → List UInt32) (hc : ¬(op.check raw).isOk = true) :
    sees raw (op :: ops) metas = sees raw ops metas := by
  cases op with
  | execute node bindings => exact if_neg hc
  | copy | clear | synchronize | setSubmitEvery | download => rfl
  | upload | updateMeta => exact absurd rfl hc

/-- **Step lemma.** What an operation hands over does to the memory what it
does at once. -/
theorem effect_acts (op : WgpuOp) (h : Extends raw raw') (g : Gpu) :
    (effect Gpu.run (op.acts raw') g).contents = (op.apply raw g.contents).2 ∧
      (effect Gpu.run (op.acts raw') g).seen ++ sees raw ops (op.apply raw g.contents).2.metas =
        g.seen ++ sees raw (op :: ops) g.contents.metas := by
  rw [acts, apply_run, check_eq h]
  cases hc : op.check raw with
  | ok => exact ⟨contents_work op raw' g, seen_work op g hc⟩
  | err | panic =>
    refine ⟨rfl, ?_⟩
    rw [sees_stopped op _ (by rw [hc]; exact Bool.false_ne_true)]
    rfl

/-- What all operations hand over, one after the other. -/
def actsAll (raw : WgpuBackend) : List WgpuOp → List (Command ⊕ Write)
  | [] => []
  | op :: ops => op.acts raw ++ actsAll (op.perform raw).2 ops

theorem acts_performAll (ops : List WgpuOp) (raw : WgpuBackend) :
    (performAll ops raw).acts = raw.acts ++ actsAll raw ops := by
  induction ops generalizing raw with
  | nil => exact (List.append_nil _).symm
  | cons op ops ih =>
    rw [actsAll, ← List.append_assoc, ← acts_perform]
    exact ih _

/-- **Run lemma.** So do all, one after the other. -/
theorem effect_actsAll (ops : List WgpuOp) (h : Extends raw raw') (g : Gpu) :
    (effect Gpu.run (actsAll raw' ops) g).contents = applyAll raw ops g.contents ∧
      (effect Gpu.run (actsAll raw' ops) g).seen = g.seen ++ sees raw ops g.contents.metas := by
  induction ops generalizing raw' g with
  | nil => exact ⟨rfl, (List.append_nil _).symm⟩
  | cons op ops ih =>
    obtain ⟨hcontents, hseen⟩ : _ ∧ _ ++ sees raw ops _ = _ := effect_acts op h g
    obtain ⟨hcontents', hseen'⟩ :=
      ih (h.trans (extends_perform op raw')) (effect Gpu.run (op.acts raw') g)
    rw [actsAll, effect_append, hcontents', hseen', hcontents]
    exact ⟨rfl, hseen⟩

/-! ## Staging buffers -/

/-- The command or write leaves a staging buffer alone. -/
def Spares (k : Nat) (act : Command ⊕ Write) : Prop :=
  ∀ g : Gpu, (Gpu.run act g).stagings k = g.stagings k

theorem stagings_effect {k : Nat} {acts : List (Command ⊕ Write)} (h : ∀ act ∈ acts, Spares k act)
    (g : Gpu) : (effect Gpu.run acts g).stagings k = g.stagings k := by
  induction acts generalizing g with
  | nil => rfl
  | cons act acts ih =>
    exact (ih (fun a ha => h a (.tail _ ha)) (Gpu.run act g)).trans (h act (.head _) g)

/-- A later download writes to a staging buffer of its own. -/
theorem spares_work {k : Nat} (op : WgpuOp) (hk : k < raw.stagings) :
    ∀ act ∈ op.work raw, Spares k act := by
  intro act ha
  cases op with
  | upload | clear | updateMeta | execute =>
    obtain rfl := List.mem_singleton.mp ha
    exact fun _ => rfl
  | synchronize | setSubmitEvery => cases ha
  | download buf offset bytes =>
    rw [work] at ha
    split at ha
    · cases ha
    · obtain rfl := List.mem_singleton.mp ha
      exact fun g => Function.update_of_ne (Nat.ne_of_lt hk) _ _
  | copy src srcOffset dst dstOffset bytes =>
    rw [work] at ha
    split at ha
    · obtain rfl := List.mem_singleton.mp ha
      exact fun _ => rfl
    · cases ha

theorem spares_actsAll {k : Nat} (ops : List WgpuOp) (hk : k < raw.stagings) :
    ∀ act ∈ actsAll raw ops, Spares k act := by
  induction ops generalizing raw with
  | nil => exact fun _ ha => by cases ha
  | cons op ops ih =>
    intro act ha
    rcases List.mem_append.mp ha with ha | ha
    · rw [acts] at ha
      split at ha
      · exact spares_work op hk act ha
      · cases ha
    · exact ih (Nat.lt_of_lt_of_le hk (extends_perform op raw).stagings) act ha

/-- **A download** that waited finds what its buffer held when it was called,
whatever was handed over since. -/
theorem answer_download (buf : WgpuBuffer) (offset bytes : Nat) (hpos : bytes ≠ 0)
    (after : List WgpuOp) {ran : List (Job Command Write)}
    (hdid : Did (performAll after (proceed raw (download buf offset bytes))).queue ran)
    (hwait : Waited (proceed raw (download buf offset bytes)).queue ran) (g : Gpu) :
    read ((g.after ran).stagings raw.stagings) 0 bytes =
      read ((effect Gpu.run raw.acts g).contents.buffers buf.buf) offset bytes := by
  let copied : Command := .Copy buf.buf offset (.Staging raw.stagings) 0 bytes
  let kept := raw.pending.encoder.getD []
  generalize hraw : proceed raw (download buf offset bytes) = raw' at hdid hwait
  have hproceed : raw' =
      (encode copied { raw with stagings := raw.stagings + 1 }).submit := by
    rw [← hraw, proceed, downloadRaw]
    simp only [if_neg hpos]
    rfl
  have hqueue : raw'.queue = raw.queue ++ [.submit (kept ++ [copied])] := by rw [hproceed]; rfl
  have hacts : (jobs raw'.queue).map Job.act = raw.acts ++ [.inl copied] := by
    rw [← handed_nil, hqueue, handed_submit, handed_record]
    rfl
  -- what the device did: all up to the copy, then what later calls handed over
  obtain ⟨more, rfl⟩ := hdid.of_waited (extends_performAll after raw').queue ⟨_, _, _, hqueue⟩ hwait
  have hmore : more.map Job.act <+: actsAll raw' after := by
    have hprefix := hdid.acts_begin ((performAll after raw').pending.encoder.getD [])
    have hall : (performAll after raw').acts =
        (jobs raw'.queue).map Job.act ++ actsAll raw' after := by
      rw [acts_performAll, ← handed_nil, hproceed]
      rfl
    rw [List.map_append, ← WgpuBackend.acts, hall] at hprefix
    exact (List.prefix_append_right_inj _).mp hprefix
  have hspares : ∀ act ∈ more.map Job.act, Spares raw.stagings act := by
    intro act ha
    refine spares_actsAll after ?_ act (hmore.subset ha)
    rw [hproceed]
    exact Nat.lt_succ_self _
  rw [Gpu.after, List.map_append, effect_append, stagings_effect hspares, hacts, effect_append]
  generalize effect Gpu.run raw.acts g = g'
  show read (Function.update g'.stagings raw.stagings _ raw.stagings) 0 bytes = _
  rw [Function.update_self]
  have hlen : (read (g'.contents.buffers buf.buf) offset bytes).length = bytes := length_read _ _ _
  have hself := read_write_self (g'.stagings raw.stagings) 0
    (read (g'.contents.buffers buf.buf) offset bytes)
  rwa [hlen] at hself

/-- What a call that nothing stops returns. -/
theorem answer_proceed (op : WgpuOp) (after : List WgpuOp) {ran : List (Job Command Write)}
    (hdid : Did (performAll after (op.proceed raw)).queue ran)
    (hwait : Waited (op.proceed raw).queue ran) (g : Gpu) {c : Contents}
    (hc : (effect Gpu.run raw.acts g).contents = c) :
    answer (.ok (op.mapped raw)) (g.after ran) = .ok (op.result c) := by
  cases op with
  | upload | copy | clear | updateMeta | execute | synchronize | setSubmitEvery => rfl
  | download buf offset bytes =>
    by_cases h : bytes = 0
    · subst h
      rfl
    · rw [mapped, if_neg h, result, ← hc, ← answer_download buf offset bytes h after hdid hwait g]
      rfl

/-! ## Program order -/

theorem seen_effect (acts : List (Command ⊕ Write)) (g : Gpu) :
    g.seen <+: (effect Gpu.run acts g).seen := by
  induction acts generalizing g with
  | nil => exact List.prefix_refl _
  | cons act acts ih =>
    have hstep : g.seen <+: (Gpu.run act g).seen := by
      rcases act with command | w
      · cases command with
        | Copy src srcOffset dst dstOffset bytes => cases dst <;> exact List.prefix_refl _
        | Clear buf => exact List.prefix_refl _
        | Dispatch node bindings => exact List.prefix_append _ _
      · cases w <;> exact List.prefix_refl _
    exact hstep.trans (ih _)

/-- **Calls take effect in the order of their calls**, whatever the batches.
Every call returns what it returns if all calls before it are done one by one,
when the device has done what was submitted up to the call and any part of what
later calls handed over. The dispatches that the device did found in their
metas the words last written before them, in their order. -/
theorem calls_take_effect_in_order (owner : Nat) (limits : Limits) (contents : Contents)
    (before : List WgpuOp) (op : WgpuOp) (after : List WgpuOp) (ran : List (Job Command Write)) :
    let opened := attach owner limits
    let raw := performAll before opened
    (Did (performAll after (op.perform raw).2).queue ran → Waited (op.perform raw).2.queue ran →
      answer (op.perform raw).1 ((Gpu.init contents).after ran) =
        (op.apply opened (applyAll opened before contents)).1) ∧
    (Did raw.queue ran →
      ((Gpu.init contents).after ran).seen <+: sees opened before contents.metas) := by
  intro opened raw
  have hext : Extends opened raw := extends_performAll before opened
  have hacts : raw.acts = actsAll opened before := acts_performAll before opened
  obtain ⟨hcontents, hseen⟩ := effect_actsAll before (.refl opened) (.init contents)
  rw [← hacts] at hcontents hseen
  constructor
  · intro hdid hwait
    rw [perform_run, check_eq hext] at hdid hwait ⊢
    rw [apply_run]
    cases hc : op.check opened with
    | err e => rfl
    | panic => rfl
    | ok _ =>
      simp only [hc] at hdid hwait
      exact answer_proceed op after hdid hwait _ hcontents
  · intro hdid
    obtain ⟨rest, hrest⟩ := hdid.acts_begin (raw.pending.encoder.getD [])
    have hgrows := seen_effect rest ((Gpu.init contents).after ran)
    rw [Gpu.after, ← effect_append, hrest, ← WgpuBackend.acts, hseen] at hgrows
    exact hgrows

end WgpuOp

namespace Sample

open WgpuOp WgpuBackend

/-- Every byte of its slot becomes the meta's first word. -/
def stamp : Pipeline := fun _ words slots =>
  slots.map fun bytes => bytes.map fun _ => ((words[0]?.getD 0).toNat.toUInt8)

def wgpuBuffer : WgpuBuffer := ⟨0, 4, 0⟩

def wgpuNode : WgpuNode := ⟨fill.signature, stamp, 0, .linear 1, 0⟩

/-- No batch is submitted before it must be. -/
def lazily : List WgpuOp :=
  [.setSubmitEvery 0, .updateMeta wgpuNode [7], .execute wgpuNode [.Write wgpuBuffer],
    .updateMeta wgpuNode [9]]

/-- Another thread's calls, while a download waits. -/
def meanwhile : List WgpuOp := [.execute wgpuNode [.Write wgpuBuffer], .upload wgpuBuffer 0 [1]]

def limits : Limits := ⟨128⟩

def fresh : Contents := ⟨fun _ _ => 0, fun _ => [0]⟩

/-- All that was handed over when it has waited. -/
def handedOver : List (Job Command Write) :=
  jobs (performAll meanwhile
    ((download wgpuBuffer 0 4).perform (performAll lazily (attach 0 limits))).2).queue

theorem downloads_what_was_stamped :
    answer ((download wgpuBuffer 0 4).perform (performAll lazily (attach 0 limits))).1
        ((Gpu.init fresh).after handedOver) = .ok [7, 7, 7, 7] := by
  have h := (calls_take_effect_in_order 0 limits fresh lazily (download wgpuBuffer 0 4) meanwhile
    handedOver).1
  refine (h (did_iff.mpr (List.prefix_refl _)) ?_).trans (by decide)
  exact fun j hj _ => (jobs_mono (extends_performAll meanwhile _).queue).subset hj

end Sample

end Wilupgu.Backends
