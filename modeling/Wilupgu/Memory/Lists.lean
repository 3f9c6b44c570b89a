import Wilupgu.Memory.Contents

/-! # Tensors are lists of elements

What a program sees of a tensor is a list of elements: a call on contents that
succeeds does to the lists what it says, and one that fails does nothing. The
bytes that are rounded up, and the padding they land in, are never seen. -/

namespace Wilupgu.Memory

open Backend Backends ByteMemory Call Splice

variable {w w' : World CpuBackend}

/-! ## The lists -/

/-- The lists with `data` over the elements of the one at `p` from `offset` on. -/
def overwrite (m : Nat → List Nat) (p offset : Nat) (data : List Nat) : Nat → List Nat :=
  Function.update m p (splice (m p) offset data)

/-- The place of the tensor bound at `slot` in scope `s`. -/
def slotPlace (w : World CpuBackend) (s slot : Nat) : Option Nat :=
  (w.scopes.lookup s).bind fun scope => scope.bufs[slot]?

/-- What a call on contents that succeeds does to the lists. -/
def onLists (w : World CpuBackend) (m : Nat → List Nat) : MemoryAct → Nat → List Nat
  | .upload p data => overwrite m p 0 data.elems
  | .uploadAt p offset data => overwrite m p offset data.elems
  | .copyInto p srcOffset q dstOffset len =>
    overwrite m q dstOffset (((m p).drop srcOffset).take len)
  | .zero p => Function.update m p (List.replicate (m p).length 0)
  | .scopeUpload s slot data =>
    match slotPlace w s slot with
    | some p => overwrite m p 0 data.elems
    | none => m
  | .scopeCopy s src srcOffset dst dstOffset len =>
    match slotPlace w s src, slotPlace w s dst with
    | some p, some q => overwrite m q dstOffset (((m p).drop srcOffset).take len)
    | _, _ => m
  | .download _ | .downloadRange _ _ _ | .scopeDownload _ _ => m

/-- What a step does to them. -/
def eventOnLists (w : World CpuBackend) (e : Event CpuBackend) (m : Nat → List Nat) :
    Nat → List Nat :=
  match e.act, e.out with
  | .memory a, .ok _ => onLists w m a
  | _, _ => m

/-- What the steps of a run from `w` do to them. -/
def listsAfter : World CpuBackend → List (Event CpuBackend) → (Nat → List Nat) → Nat → List Nat
  | _, [], m => m
  | w, e :: es, m => listsAfter (e.act.perform w).2 es (eventOnLists w e m)

/-! ## Writing a range -/

/-- What is known of every reachable world. -/
structure Settled (w : World CpuBackend) : Prop where
  laid : Laid w
  valid : w.Valid
  sized : w.Sized

theorem settled {poolBytes : Nat → Nat} (h : World.Reachable CpuBackend.attach poolBytes w) :
    Settled w := ⟨Memory.laid h, h.valid, Wilupgu.sized h⟩

/-- How a call ended: with an error, and nothing changed, or well, the tensors
then holding `m`. -/
def Did {α : Type} (w : World CpuBackend) (m : Nat → List Nat)
    (r : Outcome Error α × World CpuBackend) : Prop :=
  (∃ e, r = (.err e, w)) ∨ ∃ a, r.1 = .ok a ∧ elemsAt r.2 = m

theorem Did.silent {m : Nat → List Nat} {c : Call (World CpuBackend) Error Unit}
    (h : Did w m (c w)) : Did w m (silent c w) := by
  rcases h with ⟨e, he⟩ | ⟨a, ha, hm⟩
  · exact .inl ⟨e, bind_of_err he⟩
  · refine .inr ⟨.unit, ?_, ?_⟩
    · exact (silent_eq rfl).2.mpr ha
    · rw [silent_world]
      exact hm

theorem Did.giving {m : Nat → List Nat} {c : Call (World CpuBackend) Error HostData}
    (h : Did w m (c w)) : Did w m (giving c w) := by
  rcases h with ⟨e, he⟩ | ⟨a, ha, hm⟩
  · exact .inl ⟨e, bind_of_err he⟩
  · refine .inr ⟨.data a, ?_, ?_⟩
    · exact ((giving_eq rfl).2 a).mpr ha
    · rw [giving_world]
      exact hm

section Place

variable (hw : Settled w) {p : Nat} {t : Tensor CpuBackend} (ht : w.tensors.lookup p = some t)
  (hsmall : t.Small)
include hw ht

theorem Settled.sizedAt : t.Sized := hw.sized.tensors t (AList.mem_values.mpr ⟨p, ht⟩)

include hsmall in
theorem Settled.exact_le : Rounding.roundUp (exactBytes t.kind t.len) copyAlign ≤
    (bytesAt w p).length := by
  have hbuffer := (hw.sizedAt ht).buffer
  rwa [bufferBytes_eq, hsmall.bytesFor, ← length_bytesAt ht] at hbuffer

/-- A range that is written is a part of the list that is overwritten. -/
theorem overwritten {offset len : Nat} {data : List UInt8} (hsmall : t.Small)
    (hok : RangeOk t.kind t.len offset len true)
    (hd : data.length = (ByteRange.of t.kind offset len).bytes) :
    elemsAt (w.setDevice t.dev
        (writeTo t.raw (ByteRange.of t.kind offset len).start data (w.devices t.dev))) =
      overwrite (elemsAt w) p offset (elemsIn t.kind len data) := by
  have hin := ((hw.sizedAt ht).inBuffer hsmall hok).2.2
  rw [elemsAt_write hw.laid hw.valid ht (hd ▸ hin), overwrite, elemsAt_of_lookup ht,
    elemsIn_write hok (Nat.dvd_of_mod_eq_zero (hw.sizedAt ht).whole) (hw.exact_le ht hsmall) hd]

theorem uploadAt_did (hsmall : t.Small) (offset : Nat) (data : HostData) :
    Did w (overwrite (elemsAt w) p offset data.elems)
      (World.onDevice t.dev (t.uploadAt offset data) w) := by
  rw [onDevice_run]
  rcases uploadAt_cases (hw.sizedAt ht) hsmall offset data (w.devices t.dev) with
    ⟨e, he⟩ | ⟨hkind, hok, hrun⟩
  · rw [he, setDevice_self]
    exact .inl ⟨e, rfl⟩
  · rw [hrun]
    refine .inr ⟨(), rfl, ?_⟩
    have hexact : exactBytes data.kind data.len ≤ (ByteRange.of data.kind offset data.len).bytes :=
      Rounding.le_roundUp (by decide)
    rw [overwritten hw ht hsmall hok (Tensor.length_resize _ _), ← hkind, elemsIn_resize hexact]

theorem upload_did (hsmall : t.Small) (data : HostData) :
    Did w (overwrite (elemsAt w) p 0 data.elems) (World.onDevice t.dev (t.upload data) w) := by
  rw [onDevice_run, Tensor.upload, check_run]
  rcases hlen : Rules.sameLen t.len data.len with _ | e | _
  · exact uploadAt_did hw ht hsmall 0 data
  · simp only [setDevice_self]
    exact .inl ⟨e, rfl⟩
  · unfold Rules.sameLen at hlen
    split at hlen <;> cases hlen

theorem download_did (hsmall : t.Small) :
    Did w (elemsAt w) (World.onDevice t.dev t.download w) := by
  rw [onDevice_run, download_run (hw.sizedAt ht) hsmall, setDevice_self]
  exact .inr ⟨_, rfl, rfl⟩

theorem downloadRange_did (hsmall : t.Small) (offset len : Nat) :
    Did w (elemsAt w) (World.onDevice t.dev (t.downloadRange offset len) w) := by
  rw [onDevice_run]
  rcases downloadRange_cases (hw.sizedAt ht) hsmall offset len (w.devices t.dev) with
    ⟨e, he⟩ | ⟨-, hrun⟩
  · rw [he, setDevice_self]
    exact .inl ⟨e, rfl⟩
  · rw [hrun, setDevice_self]
    exact .inr ⟨_, rfl, rfl⟩

theorem zero_did (hsmall : t.Small) :
    Did w (Function.update (elemsAt w) p (List.replicate (elemsAt w p).length 0))
      (World.onDevice t.dev t.zero w) := by
  rw [onDevice_run]
  rcases zero_cases t (w.devices t.dev) with ⟨e, he⟩ | hrun
  · rw [he, setDevice_self]
    exact .inl ⟨e, rfl⟩
  · rw [hrun]
    refine .inr ⟨(), rfl, ?_⟩
    obtain ⟨n, hn⟩ := exists_eq_mul_left_of_dvd (Nat.dvd_of_mod_eq_zero (hw.sizedAt ht).whole)
    have hsize := length_bytesAt ht
    have hle : n * t.kind.hostWordBytes ≤ (bytesAt w p).length := by
      have hround := hw.exact_le ht hsmall
      rw [hn, exactBytes_words] at hround
      exact Nat.le_trans (Rounding.le_roundUp (by decide)) hround
    have hlen : (elemsAt w p).length = n * t.kind.elemsPerHostWord := by
      rw [elemsAt_of_lookup ht, hn, length_elemsIn hle]
    have hall : splice (bytesAt w p) 0 (List.replicate (Storage.sizeBytes t.raw) 0) =
        List.replicate (Storage.sizeBytes t.raw) 0 := by
      rw [splice, List.take_zero, List.nil_append, List.length_replicate, Nat.zero_add, ← hsize,
        List.drop_length, List.append_nil]
    rw [elemsAt_write hw.laid hw.valid ht (by rw [List.length_replicate, Nat.zero_add]), hall, hlen,
      hn, elemsIn_zeros (hsize ▸ hle)]

/-- A copy on one device. -/
theorem copyChecked_did (hsmall : t.Small) {q : Nat} {dst : Tensor CpuBackend}
    (hdst : w.tensors.lookup q = some dst) (hsmall' : dst.Small) (hdev : t.dev = dst.dev)
    (srcOffset dstOffset len : Nat) :
    Did w (overwrite (elemsAt w) q dstOffset (((elemsAt w p).drop srcOffset).take len))
      (World.onDevice dst.dev (t.copyChecked srcOffset dst dstOffset len) w) := by
  rw [onDevice_run]
  rcases copyChecked_cases (hw.sizedAt ht) (hw.sizedAt hdst) hsmall hsmall' srcOffset dstOffset len
    (w.devices dst.dev) with ⟨e, he⟩ | ⟨hkind, hok, hok', hrun⟩
  · rw [he, setDevice_self]
    exact .inl ⟨e, rfl⟩
  · rw [hrun]
    refine .inr ⟨(), rfl, ?_⟩
    have hwords : t.kind.elemsPerHostWord ∣ t.len :=
      Nat.dvd_of_mod_eq_zero (hw.sizedAt ht).whole
    have hwords' : t.kind.elemsPerHostWord ∣ len := by
      rw [← hkind]
      exact hok'.len_words (Nat.dvd_of_mod_eq_zero (hw.sizedAt hdst).whole)
    have hbytes := hw.exact_le ht hsmall
    have hin := Nat.le_trans hok.bytes_le hbytes
    have hread : read (memOf w dst.dev)
        (CpuBuffer.ptr t.raw + (ByteRange.of t.kind srcOffset len).start)
        (ByteRange.of t.kind srcOffset len).bytes =
          ((bytesAt w p).drop (ByteRange.of t.kind srcOffset len).start).take
            (ByteRange.of t.kind srcOffset len).bytes := by
      rw [length_bytesAt ht] at hin
      rw [bytesAt_of_lookup ht, bytesIn, ← hdev]
      exact read_sub hin
    rw [overwritten hw hdst hsmall' hok' (by rw [length_read, hkind]; rfl), hread, hkind,
      elemsIn_read hok hwords hwords' (Nat.le_trans (Rounding.le_roundUp (by decide)) hbytes),
      ← elemsAt_of_lookup ht]

theorem copyInto_did (hsmall : t.Small) {q : Nat} {dst : Tensor CpuBackend}
    (hdst : w.tensors.lookup q = some dst) (hsmall' : dst.Small) (srcOffset dstOffset len : Nat) :
    Did w (overwrite (elemsAt w) q dstOffset (((elemsAt w p).drop srcOffset).take len))
      (World.onDevice t.dev (t.copyInto srcOffset dst dstOffset len) w) := by
  rw [onDevice_run, Tensor.copyInto, check_run]
  by_cases hdev : t.dev = dst.dev
  · rw [Rules.sameDevice_eq_ok.mpr hdev]
    have hcopied := copyChecked_did hw ht hsmall hdst hsmall' hdev srcOffset dstOffset len
    rw [← hdev, onDevice_run] at hcopied
    simp only
    rw [bind_run]
    rcases hrun : t.copyChecked srcOffset dst dstOffset len (w.devices t.dev) with ⟨out, dev⟩
    rw [hrun] at hcopied
    rcases hcopied with ⟨e, he⟩ | ⟨a, rfl, hm⟩
    · simp only [Prod.mk.injEq] at he
      obtain ⟨rfl, he⟩ := he
      exact .inl ⟨e, Prod.ext rfl he⟩
    · exact .inr ⟨(), rfl, hm⟩
  · rw [Rules.sameDevice, if_neg hdev]
    simp only [setDevice_self]
    exact .inl ⟨_, rfl⟩

end Place

/-! ## Calls and runs -/

/-- All tensors are small. -/
def AllSmall (w : World CpuBackend) : Prop := ∀ t ∈ w.tensors.values, t.Small

instance (w : World CpuBackend) : Decidable (AllSmall w) :=
  inferInstanceAs (Decidable (∀ t ∈ w.tensors.values, t.Small))

theorem AllSmall.at {p : Nat} {t : Tensor CpuBackend} (h : AllSmall w)
    (ht : w.tensors.lookup p = some t) : t.Small := h t (AList.mem_values.mpr ⟨p, ht⟩)

/-- The tensor bound at a slot, and its place. -/
theorem Settled.bound (hw : Settled w) {s slot : Nat} {scope : Scope}
    (hs : w.scopes.lookup s = some scope) (hslot : slot < scope.bufs.length) :
    ∃ p t, slotPlace w s slot = some p ∧ w.tensors.lookup p = some t ∧ t.dev = scope.dev ∧
      w.boundTensor scope slot = .ok t := by
  have hp := List.getElem?_eq_getElem hslot
  obtain ⟨t, ht, hdev⟩ := hw.valid.bufs s scope hs _ (List.getElem_mem hslot)
  refine ⟨_, t, ?_, ht, hdev, boundTensor_of_lookup hp ht⟩
  rw [slotPlace, hs]
  exact hp

/-- **What a call on contents does to the lists.** -/
theorem memory_did (hw : Settled w) (hsmall : AllSmall w) {a : MemoryAct} (ha : a.Allowed w) :
    Did w (onLists w (elemsAt w) a) (a.run w) := by
  cases a with
  | upload p data =>
    obtain ⟨t, ht⟩ := exists_of_mem ha.1
    refine Did.silent ?_
    rw [onTensor_run ht]
    exact upload_did hw ht (hsmall.at ht) data
  | uploadAt p offset data =>
    obtain ⟨t, ht⟩ := exists_of_mem ha.1
    refine Did.silent ?_
    rw [onTensor_run ht]
    exact uploadAt_did hw ht (hsmall.at ht) offset data
  | download p =>
    obtain ⟨t, ht⟩ := exists_of_mem ha.1
    refine Did.giving ?_
    rw [onTensor_run ht]
    exact download_did hw ht (hsmall.at ht)
  | downloadRange p offset len =>
    obtain ⟨t, ht⟩ := exists_of_mem ha.1
    refine Did.giving ?_
    rw [onTensor_run ht]
    exact downloadRange_did hw ht (hsmall.at ht) offset len
  | zero p =>
    obtain ⟨t, ht⟩ := exists_of_mem ha.1
    refine Did.silent ?_
    rw [onTensor_run ht]
    exact zero_did hw ht (hsmall.at ht)
  | copyInto p srcOffset q dstOffset len =>
    obtain ⟨src, hsrc⟩ := exists_of_mem ha.2.1.1
    obtain ⟨dst, hdst⟩ := exists_of_mem ha.2.2.1
    refine Did.silent ?_
    rw [World.copyInto, bind_of_ok (get_run w), tensor_of_lookup hdst, check_run]
    simp only
    rw [onTensor_run hsrc]
    exact copyInto_did hw hsrc (hsmall.at hsrc) hdst (hsmall.at hdst) srcOffset dstOffset len
  | scopeUpload s slot data =>
    obtain ⟨scope, hs, hslot⟩ := ha
    obtain ⟨p, t, hplace, ht, -, hbound⟩ := hw.bound hs hslot
    refine Did.silent ?_
    rw [scopeUpload_run hs hbound, onLists, hplace]
    exact upload_did hw ht (hsmall.at ht) data
  | scopeDownload s slot =>
    obtain ⟨scope, hs, hslot⟩ := ha
    obtain ⟨p, t, hplace, ht, -, hbound⟩ := hw.bound hs hslot
    refine Did.giving ?_
    rw [scopeDownload_run hs hbound]
    exact download_did hw ht (hsmall.at ht)
  | scopeCopy s src srcOffset dst dstOffset len =>
    obtain ⟨scope, hs, hsrc, hdst⟩ := ha
    obtain ⟨p, t, hplace, ht, hdev, hbound⟩ := hw.bound hs hsrc
    obtain ⟨q, t', hplace', ht', hdev', hbound'⟩ := hw.bound hs hdst
    refine Did.silent ?_
    rw [onLists, hplace, hplace']
    by_cases hne : src = dst
    · rw [Scope.copy, if_pos hne]
      exact .inl ⟨_, rfl⟩
    · rw [scopeCopy_run hs hne hbound hbound', ← hdev']
      exact copyChecked_did hw ht (hsmall.at ht) ht' (hsmall.at ht') (hdev.trans hdev'.symm) _ _ _

/-- Calls on contents, and calls that touch no tensor. -/
def OnContents : Act CpuBackend → Prop
  | .memory _ | .scope _ | .node _ => True
  | .tensor _ | .run _ => False

instance : (a : Act CpuBackend) → Decidable (OnContents a)
  | .memory _ | .scope _ | .node _ => isTrue trivial
  | .tensor _ | .run _ => isFalse not_false

theorem nodes_sameHeap : KeptByNodes fun raw raw' : CpuBackend => raw'.heap = raw.heap where
  build shader words wg raw := by
    simp only [Dispatch.buildNode, CpuBackend.buildNode]
    split <;> rfl
  update node words raw := by
    simp only [Dispatch.updateMeta, CpuBackend.updateMeta]
    split <;> rfl
  drop _ _ := rfl

/-- **One step.** The tensors stay, and their elements follow the lists. -/
theorem lists_step {e : Event CpuBackend} (hw : Settled w) (hsmall : AllSmall w)
    (h : w.Step e w') (he : OnContents e.act) :
    w'.tensors = w.tensors ∧ elemsAt w' = eventOnLists w e (elemsAt w) := by
  obtain ⟨ha, hr⟩ := h
  rcases e with ⟨a, out⟩
  have hout : out = (a.perform w).1 := congrArg Prod.fst hr.symm
  obtain rfl : (a.perform w).2 = w' := congrArg Prod.snd hr
  have hframe := frame_eq fun raw : CpuBackend => raw.heap
  cases a with
  | memory a =>
    refine ⟨(MemoryAct.keeps frame_any memory_any a w).1.tensors, ?_⟩
    rcases memory_did hw hsmall ha with ⟨e, he⟩ | ⟨reply, hok, hm⟩
    · have hperform : (Act.memory a : Act CpuBackend).perform w = (.err e, w) := he
      rw [hout, hperform]
      rfl
    · have hperform : ((Act.memory a : Act CpuBackend).perform w).1 = .ok reply := hok
      rw [hout, hperform]
      exact hm
  | node a =>
    obtain ⟨hf, hd⟩ := NodeAct.keeps hframe nodes_sameHeap a w
    have hbytes := bytesAt_congr hf.tensors fun d => congrArg Heap.mem (hd d).2
    exact ⟨hf.tensors, elemsAt_congr hf.tensors hbytes⟩
  | scope a =>
    obtain ⟨hf, hd⟩ := ScopeAct.keeps hframe (fun _ => rfl) a w
    have hbytes := bytesAt_congr hf.tensors fun d => congrArg Heap.mem (hd d).2
    exact ⟨hf.tensors, elemsAt_congr hf.tensors hbytes⟩
  | tensor a => exact he.elim
  | run a => exact he.elim

/-- A run of such steps. -/
theorem lists_run {poolBytes : Nat → Nat} {es : List (Event CpuBackend)}
    (hw : World.Reachable CpuBackend.attach poolBytes w) (hsmall : AllSmall w)
    (h : Transition.Runs (Transition.Where World.Step fun _ e => OnContents e.act) w es w') :
    w'.tensors = w.tensors ∧ elemsAt w' = listsAfter w es (elemsAt w) := by
  induction h with
  | nil => exact ⟨rfl, rfl⟩
  | cons hstep _ ih =>
    rename_i w₁ w₂ w₃ e es _
    obtain ⟨hstep, he⟩ := hstep
    obtain ⟨htensors, helems⟩ := lists_step (settled hw) hsmall hstep he
    have hworld : (e.act.perform w₁).2 = w₂ := congrArg Prod.snd hstep.2
    have hsmall' : AllSmall w₂ := by
      rw [AllSmall, htensors]
      exact hsmall
    obtain ⟨htensors', helems'⟩ := ih (hw.snoc hstep) hsmall'
    refine ⟨htensors'.trans htensors, ?_⟩
    rw [helems', listsAfter, hworld, helems]

/-- **A download gives the list.** On small tensors, from any reachable world
on, whatever calls on contents are made, a download of any tensor returns, and
gives the elements of the list it is by then. -/
theorem download_follows_lists {poolBytes : Nat → Nat} {es : List (Event CpuBackend)}
    (hw : World.Reachable CpuBackend.attach poolBytes w) (hsmall : AllSmall w)
    (h : Transition.Runs (Transition.Where World.Step fun _ e => OnContents e.act) w es w')
    {p : Nat} {t : Tensor CpuBackend} (ht : w'.tensors.lookup p = some t) :
    ∃ data, t.download (w'.devices t.dev) = (.ok data, w'.devices t.dev) ∧ data.kind = t.kind ∧
      data.elems = listsAfter w es (elemsAt w) p := by
  have hw' : World.Reachable CpuBackend.attach poolBytes w' := hw.trans h.of_where
  obtain ⟨htensors, helems⟩ := lists_run hw hsmall h
  have htsmall : t.Small := hsmall.at (htensors ▸ ht)
  refine ⟨_, download_run ((settled hw').sizedAt ht) htsmall _, HostData.kind_fromBytes _ _, ?_⟩
  rw [← helems, elemsAt_of_lookup ht, bytesAt_of_lookup ht]
  rfl

/-! ## A run on contents -/

namespace Sample

open Backends.Sample

/-- Two tensors of `i8`s. -/
def pair : List (Act CpuBackend) :=
  [.tensor (.alloc 0 env 0 .Int8 5), .tensor (.alloc 0 env 1 .Int8 8)]

/-- Five elements are written to the shorter one, its padding is filled from
the longer one, and four are copied to the longer one's end in a scope. -/
def moves : List (Act CpuBackend) := [
  .memory (.upload 0 (.Int8 [1, 2, 3, 4, 5])), .memory (.upload 1 (.Int8 [9, 9, 9, 9, 9, 9, 9, 9])),
  .memory (.copyInto 1 4 0 4 1), .scope (.openOn 0 0), .scope (.bind 0 0), .scope (.bind 0 1),
  .memory (.scopeCopy 0 0 0 1 4 4)]

end Sample

open Memory.Sample

set_option maxRecDepth 8000

/-- The longer one, at the end. -/
theorem download_follows_lists_once : ∃ (w : World CpuBackend) (t : Tensor CpuBackend)
    (data : HostData), w.tensors.lookup 1 = some t ∧
      t.download (w.devices t.dev) = (.ok data, w.devices t.dev) ∧
      data.elems = [9, 9, 9, 9, 1, 2, 3, 4] := by
  have hstart : (cpus.play (fun _ _ => True) pair).isSome = true := by decide
  have hsmall : AllSmall (cpus.after pair) := by decide
  have hrun : (((cpus.after pair).play (fun _ a => OnContents a) moves).any fun r =>
      listsAfter (cpus.after pair) r.1 (elemsAt (cpus.after pair)) 1 = [9, 9, 9, 9, 1, 2, 3, 4] ∧
        1 ∈ r.2.tensors) = true := by
    decide
  obtain ⟨es₀, hbefore⟩ := World.runs_after hstart
  have hreach : World.Reachable CpuBackend.attach (fun _ => 0) (cpus.after pair) :=
    ⟨es₀, hbefore.of_where⟩
  obtain ⟨⟨es, w⟩, hplay, hall⟩ := Option.any_eq_true _ _ |>.mp hrun
  obtain ⟨hlist, hmem⟩ := of_decide_eq_true hall
  obtain ⟨t, ht⟩ := exists_of_mem hmem
  obtain ⟨data, hdata, -, helems⟩ :=
    download_follows_lists hreach hsmall (World.runs_of_play hplay) ht
  exact ⟨w, t, data, ht, hdata, helems.trans hlist⟩

end Wilupgu.Memory
