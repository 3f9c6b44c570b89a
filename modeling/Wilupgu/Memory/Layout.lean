import Wilupgu.Memory.Heap
import Wilupgu.Safe.Origin

/-! # Tensors lie apart

What is cut out of an area lies in the used part of it, side by side. With the
blocks apart, so are any two tensors of a device. And everything on a device
belongs to it. -/

namespace Wilupgu.Memory

open Backend Backends ByteMemory Call

variable {w w' : World CpuBackend} {d a : Nat}

/-- A buffer in a tensor, made by a call on tensors of the CPU backend: its own
from the pool or new, or cut out of an area. -/
theorem made_cases {act : TensorAct CpuBackend} {t : Tensor CpuBackend} (h : Made w act t) :
    (∃ buf dev, t.mem = .Alloc buf ∧ Obtained t.kind t.len (w.devices t.dev) buf dev) ∨
    ∃ key area words, w.areas.lookup key = some area ∧ t.dev = area.dev ∧
      t.mem = .Carved key (cut area.raw words) ∧
      words = Rounding.divCeil (bufferBytes t.kind t.len) 4 ∧
      words ≤ CpuArea.words area.raw - CpuArea.next area.raw := by
  cases h with
  | alloc ht =>
    rename_i d₀ env p kind len dev
    obtain ⟨buf, rfl, hb⟩ := deviceAlloc_ok ht
    obtain ⟨buf', dev', hb', hobtained⟩ :=
      allocBuffer_obtained env kind (wholeWords kind len) (w.devices d₀)
    rw [hb'] at hb
    cases hb
    exact .inl ⟨buf, dev, rfl, hobtained⟩
  | carve harea ht =>
    rename_i key p kind len area area' dev
    obtain ⟨buf, raw, rfl, -, -, hcarve⟩ := areaAlloc_ok ht
    rcases carve_raw_cases area.raw (bufferBytes kind (wholeWords kind len))
      (w.devices area.dev).raw with ⟨e, he⟩ | ⟨-, hwords, he⟩
    · rw [Areable.carve] at hcarve
      cases he.symm.trans hcarve
    · have heq := he.symm.trans hcarve
      simp only [Prod.mk.injEq, Outcome.ok.injEq] at heq
      exact .inr ⟨key, area, _, harea, rfl, by rw [← heq.1.1], rfl, hwords⟩

/-- Only parts of areas are carved tensors' memory. -/
theorem OnlyParts.step {e : Event CpuBackend} (h : OnlyParts w) (hs : w.Step e w') :
    OnlyParts w' := by
  intro t ht key buf hm
  rcases made_step hs ht with ht | ⟨act, -, hmade⟩
  · exact h t ht key buf hm
  · rcases made_cases hmade with ⟨buf', dev, hm', -⟩ | ⟨key', area, words, -, -, hm', -⟩
    · rw [hm'] at hm
      cases hm
    · rw [hm'] at hm
      cases hm
      exact ⟨_, _, rfl⟩

/-- An area there is after a step was there before, was just reserved, or has
just had something cut out of it. -/
theorem areas_step {e : Event CpuBackend} (h : w.Step e w') {area' : DeviceArea CpuBackend}
    (ha' : w'.areas.lookup a = some area') : w.areas.lookup a = some area' ∨
      (∃ env bytes, area'.raw = (CpuBackend.reserve env bytes (w.devices area'.dev).raw).1) ∨
      ∃ area words, w.areas.lookup a = some area ∧ area' = ⟨rest area.raw words, area.dev⟩ := by
  obtain ⟨hallowed, hr⟩ := h
  rcases e with ⟨act, out⟩
  obtain rfl : (act.perform w).2 = w' := congrArg Prod.snd hr
  have kept : (act.perform w).2.areas = w.areas → w.areas.lookup a = some area' :=
    fun h => h ▸ ha'
  cases act with
  | memory act => exact .inl (kept (MemoryAct.keeps frame_any memory_any act w).1.areas)
  | node act => exact .inl (kept (NodeAct.keeps frame_any nodes_any act w).1.areas)
  | scope act => exact .inl (kept (ScopeAct.keeps frame_any memory_any.synchronize act w).1.areas)
  | run act => exact .inl (kept (RunAct.keeps frame_any runs_any act w).1.areas)
  | tensor act =>
    change (act.run w).2.areas.lookup a = some area' at ha'
    cases act with
    | alloc d env p kind len =>
      obtain ⟨buf, dev, -, hw'⟩ := alloc_obtained d env p kind len w
      rw [TensorAct.run, silent_world, hw'] at ha'
      exact .inl ha'
    | reserve d env a' bytes =>
      rw [TensorAct.run, silent_world, reserve_run, World.setAreas_areas,
        AList.lookup_insert_eq] at ha'
      split at ha'
      · subst a'
        cases ha'
        exact .inr (.inl ⟨env, bytes, rfl⟩)
      · exact .inl ha'
    | carve a' p kind len =>
      obtain ⟨area, harea⟩ := exists_of_mem hallowed.1
      rcases carve_cases harea p kind len with ⟨err, he⟩ | ⟨words, -, -, he⟩ <;>
        rw [TensorAct.run, silent_world, he] at ha'
      · exact .inl ha'
      · rw [World.setAreas_areas, AList.lookup_insert_eq] at ha'
        split at ha'
        · subst a'
          cases ha'
          exact .inr (.inr ⟨area, words, harea, rfl⟩)
        · exact .inl ha'
    | dropArea a' =>
      obtain ⟨area, harea⟩ := exists_of_mem hallowed.1
      rw [TensorAct.run, silent_world, dropArea_run harea] at ha'
      simp only [World.setDevice_areas, World.setAreas_areas, AList.lookup_erase_eq] at ha'
      split at ha'
      · cases ha'
      · exact .inl ha'
    | dropTensor p =>
      obtain ⟨t, ht⟩ := exists_of_mem hallowed.1
      rw [TensorAct.run, silent_world, dropTensor_run ht] at ha'
      exact .inl ha'
    | moveTensor p q => exact .inl ha'
    | replaceTensor p q =>
      obtain ⟨t, ht⟩ := exists_of_mem hallowed.2.1.1
      obtain ⟨t', ht'⟩ := exists_of_mem hallowed.2.2.1
      rw [TensorAct.run, silent_world, replaceTensor_run ht ht'] at ha'
      split at ha' <;> exact .inl ha'

/-! ## Whose it is -/

/-- What is on a device belongs to it. -/
structure Owners (w : World CpuBackend) : Prop where
  device : ∀ d, (w.devices d).raw.owner = d
  tensor : ∀ t ∈ w.tensors.values, CpuBuffer.owner t.raw = t.dev
  pool : ∀ d, ∀ b ∈ pooled w d, CpuBuffer.owner b.2 = d
  area : ∀ a area, w.areas.lookup a = some area → CpuArea.owner area.raw = area.dev

theorem owner_step {e : Event CpuBackend} (h : w.Step e w') (d : Nat) :
    (w'.devices d).raw.owner = (w.devices d).raw.owner := by
  obtain ⟨-, hr⟩ := h
  rcases e with ⟨act, out⟩
  obtain rfl : (act.perform w).2 = w' := congrArg Prod.snd hr
  cases act with
  | tensor act => exact ((TensorAct.keeps frame_sameRecording tensors_sameRecording act w).2 d).2
  | memory act => exact ((MemoryAct.keeps frame_sameRecording memory_sameRecording act w).2 d).2.2
  | node act => exact ((NodeAct.keeps frame_sameRecording nodes_sameRecording act w).2 d).2.2
  | scope act => exact ((ScopeAct.keeps frame_sameRecording memory_sameRecording.synchronize act w).2 d).2.2
  | run act => exact ((RunAct.keeps frame_sameBlocks runs_sameBlocks act w).2 d).2.2

theorem Owners.step {e : Event CpuBackend} (h : Owners w) (hs : w.Step e w') : Owners w' where
  device d := (owner_step hs d).trans (h.device d)
  tensor t ht := by
    rcases made_step hs ht with ht | ⟨act, -, hmade⟩
    · exact h.tensor t ht
    · rcases made_cases hmade with ⟨buf, dev, hm, hobtained⟩ |
        ⟨key, area, words, harea, hdev, hm, -⟩
      · have hraw : CpuBuffer.owner t.raw = CpuBuffer.owner buf := by rw [Tensor.raw, hm]
        rw [hraw]
        cases hobtained with
        | pooled hpool => exact h.pool t.dev _ (hpool.mem_iff.mpr (.head _))
        | new _ _ howner => exact howner.trans (h.device t.dev)
      · have hraw : CpuBuffer.owner t.raw = CpuArea.owner area.raw := by
          rw [Tensor.raw, hm]
          rfl
        rw [hraw, hdev]
        exact h.area key area harea
  pool d b hb := by
    rcases pooled_step hs hb with hb | ⟨t, ht, buf, hdev, hm, rfl⟩
    · exact h.pool d b hb
    · have hraw : CpuBuffer.owner t.raw = CpuBuffer.owner buf := by rw [Tensor.raw, hm]
      exact hraw ▸ (h.tensor t ht).trans hdev
  area a area' ha' := by
    rcases areas_step hs ha' with ha | ⟨env, bytes, hraw⟩ | ⟨area, words, ha, rfl⟩
    · exact h.area a area' ha
    · rw [hraw]
      exact h.device area'.dev
    · exact h.area a area ha

/-! ## Parts of areas -/

/-- The part of the area at `a` that a tensor holds. -/
def partOf (a : Nat) (t : Tensor CpuBackend) : Option Range :=
  match t.mem with
  | .Alloc _ => none
  | .Carved a' buf => if a' = a then some (CpuBuffer.range buf) else none

theorem partOf_carved (a' : Nat) (buf : CpuBuffer) (kind : DataKind) (len dev : Nat) :
    partOf a ⟨.Carved a' buf, kind, len, dev⟩ =
      if a' = a then some (CpuBuffer.range buf) else none := rfl

/-- The parts of the area at `a` that tensors hold. -/
def parts (w : World CpuBackend) (a : Nat) : List Range := w.tensors.values.filterMap (partOf a)

/-- The parts of the area at `a` lie apart, in what is used of it. -/
structure Cut (w : World CpuBackend) (a : Nat) : Prop where
  apart : (parts w a).Pairwise Range.Disjoint
  within : ∀ area, w.areas.lookup a = some area →
    CpuArea.next area.raw ≤ CpuArea.words area.raw ∧
      ∀ r ∈ parts w a, r.Within (CpuArea.used area.raw)

theorem Cut.of_perm (h : Cut w a) (hp : (parts w a).Perm (parts w' a))
    (ha : ∀ area, w'.areas.lookup a = some area → w.areas.lookup a = some area) : Cut w' a where
  apart := (hp.pairwise_iff fun hr => hr.symm).mp h.apart
  within area harea :=
    ⟨(h.within area (ha area harea)).1, fun r hr =>
      (h.within area (ha area harea)).2 r (hp.mem_iff.mpr hr)⟩

/-- No tensor holds a part of an area that isn't there. -/
theorem parts_eq_nil (hw : w.Valid) (ha : w.areas.Free a) : parts w a = [] := by
  rw [parts, List.filterMap_eq_nil_iff]
  intro t ht
  obtain ⟨p, hp⟩ := AList.mem_values.mp ht
  unfold partOf
  split
  · rfl
  · rename_i a' buf hm
    refine if_neg ?_
    rintro rfl
    obtain ⟨area, harea, -⟩ := hw.carved p t a' buf hp hm
    cases ha.symm.trans harea

/-- A tensor that holds no part of the area at `a`. -/
theorem parts_insert {p : Nat} {t : Tensor CpuBackend} (hp : w.tensors.Free p)
    (ht : partOf a t = none) :
    (w.tensors.insert p t).values.filterMap (partOf a) = parts w a := by
  rw [AList.values_insert_of_free hp, List.filterMap_cons, ht]
  rfl

/-- What is cut out next lies behind what is cut out already. -/
theorem Cut.carve (h : Cut w a) {area : DeviceArea CpuBackend} (ha : w.areas.lookup a = some area)
    {words : Nat} (hwords : words ≤ CpuArea.words area.raw - CpuArea.next area.raw)
    (hp : parts w' a = CpuBuffer.range (cut area.raw words) :: parts w a)
    (ha' : w'.areas.lookup a = some ⟨rest area.raw words, area.dev⟩) : Cut w' a := by
  obtain ⟨hnext, hwithin⟩ := h.within area ha
  have hcut : CpuBuffer.range (cut area.raw words) =
      ⟨CpuArea.ptr area.raw + CpuArea.next area.raw * 4, words * 4⟩ := rfl
  have hused : CpuArea.used area.raw = ⟨CpuArea.ptr area.raw, CpuArea.next area.raw * 4⟩ := rfl
  have hrest : CpuArea.used (rest area.raw words) =
      ⟨CpuArea.ptr area.raw, (CpuArea.next area.raw + words) * 4⟩ := rfl
  refine ⟨?_, fun area' harea' => ?_⟩
  · rw [hp]
    refine .cons (fun r hr => ?_) h.apart
    refine Range.Disjoint.mono ?_ (Range.Within.refl _) (hwithin r hr)
    rw [hcut, hused, Range.disjoint_iff]
    simp only
    omega
  · obtain rfl := Option.some.inj (ha'.symm.trans harea')
    refine ⟨?_, fun r hr => ?_⟩
    · change CpuArea.next area.raw + words ≤ CpuArea.words area.raw
      omega
    · rw [hp] at hr
      rw [hrest]
      rcases List.mem_cons.mp hr with rfl | hr
      · rw [hcut]
        exact Range.within_of_le (by simp only; omega) (by simp only; omega)
      · refine (hwithin r hr).trans ?_
        rw [hused]
        exact Range.within_of_le (Nat.le_refl _) (by simp only; omega)

theorem TensorAct.cut {act : TensorAct CpuBackend} (h : Cut w a) (hw : w.Valid)
    (hact : act.Allowed w) : Cut (act.run w).2 a := by
  cases act with
  | alloc d env p kind len =>
    obtain ⟨buf, dev, -, hw'⟩ := alloc_obtained d env p kind len w
    rw [TensorAct.run, silent_world, hw']
    exact h.of_perm (.of_eq (parts_insert hact rfl).symm) fun _ => id
  | reserve d env a' bytes =>
    obtain ⟨area, raw, -, hnext, -, hw'⟩ := reserve_new d env a' bytes w
    rw [TensorAct.run, silent_world, hw']
    by_cases ha : a = a'
    · subst a'
      have hnil : parts ((w.setDevice d { w.devices d with raw }).setAreas
          (w.areas.insert a ⟨area, d⟩)) a = [] := parts_eq_nil (w := w) hw hact
      refine ⟨hnil ▸ .nil, fun area' harea' => ?_⟩
      rw [World.setAreas_areas, AList.lookup_insert] at harea'
      cases harea'
      refine ⟨hnext ▸ Nat.zero_le _, ?_⟩
      rw [hnil]
      exact List.forall_mem_nil _
    · refine h.of_perm (.refl _) fun area' harea' => ?_
      rwa [World.setAreas_areas, AList.lookup_insert_ne ha] at harea'
  | carve a' p kind len =>
    obtain ⟨area, harea⟩ := exists_of_mem hact.1
    rcases carve_cases harea p kind len with ⟨err, he⟩ | ⟨words, -, hwords, he⟩ <;>
      rw [TensorAct.run, silent_world, he]
    · exact h
    · by_cases ha : a = a'
      · subst a'
        refine h.carve harea hwords ?_ (AList.lookup_insert _)
        rw [parts, World.setAreas_tensors, World.setTensors_tensors,
          AList.values_insert_of_free hact.2, List.filterMap_cons, partOf_carved, if_pos rfl,
          parts]
      · have hnone := (partOf_carved (a := a) a' (Memory.cut area.raw words) kind
          (wholeWords kind len) area.dev).trans (if_neg (Ne.symm ha))
        refine h.of_perm (.of_eq (parts_insert hact.2 hnone).symm) fun area' harea' => ?_
        rwa [World.setAreas_areas, AList.lookup_insert_ne ha] at harea'
  | dropArea a' =>
    obtain ⟨area, harea⟩ := exists_of_mem hact.1
    rw [TensorAct.run, silent_world, dropArea_run harea]
    refine h.of_perm (.refl _) fun area' harea' => ?_
    simp only [World.setDevice_areas, World.setAreas_areas, AList.lookup_erase_eq] at harea'
    split at harea'
    · cases harea'
    · exact harea'
  | dropTensor p =>
    obtain ⟨t, ht⟩ := exists_of_mem hact.1
    rw [TensorAct.run, silent_world, dropTensor_run ht]
    have hsub : (parts ((w.setTensors (w.tensors.erase p)).setDevice t.dev
        (t.drop (w.devices t.dev)).2) a).Subperm (parts w a) := by
      refine List.Subperm.trans ?_ ((AList.values_erase ht).filterMap (partOf a)).symm.subperm
      rw [List.filterMap_cons]
      split
      · exact .refl _
      · exact (List.sublist_cons_self _ _).subperm
    obtain ⟨l, hperm, hl⟩ := hsub
    refine ⟨(hperm.pairwise_iff fun hr => hr.symm).mp (h.apart.sublist hl), fun area harea => ?_⟩
    obtain ⟨hnext, hwithin⟩ := h.within area harea
    exact ⟨hnext, fun r hr => hwithin r (hl.subset (hperm.mem_iff.mpr hr))⟩
  | moveTensor p q =>
    obtain ⟨t, ht⟩ := exists_of_mem hact.1.1
    exact h.of_perm ((AList.values_move ht (.inr hact.2)).filterMap _) fun _ => id
  | replaceTensor p q =>
    obtain ⟨t, ht⟩ := exists_of_mem hact.2.1.1
    obtain ⟨t', ht'⟩ := exists_of_mem hact.2.2.1
    rw [TensorAct.run, silent_world, replaceTensor_run ht ht']
    split
    · exact h.of_perm ((AList.values_swap ht ht').filterMap _) fun _ => id
    · exact h
    · exact h

/-! ## Every run -/

/-- **How a program's memory is laid out.** -/
structure Laid (w : World CpuBackend) : Prop where
  apart : ∀ d, Apart w d
  cut : ∀ a, Cut w a
  parts : OnlyParts w
  owners : Owners w

theorem Laid.init (poolBytes : Nat → Nat) : Laid (World.init CpuBackend.attach poolBytes) where
  apart _ := ⟨.nil, nofun⟩
  cut _ := ⟨.nil, fun _ h => by cases h⟩
  parts := nofun
  owners := ⟨fun _ => rfl, nofun, fun _ => nofun, fun _ _ h => by cases h⟩

theorem Laid.step {e : Event CpuBackend} (h : Laid w) (hw : w.Valid) (hs : w.Step e w') :
    Laid w' := by
  have hparts := h.parts.step hs
  have howners := h.owners.step hs
  obtain ⟨ha, hr⟩ := hs
  rcases e with ⟨act, out⟩
  obtain rfl : (act.perform w).2 = w' := congrArg Prod.snd hr
  have kept : (act.perform w).2.tensors = w.tensors → (act.perform w).2.areas = w.areas →
      w.Devices (Beside SameBlocks) (act.perform w).2 → Laid (act.perform w).2 := by
    intro ht hareas hdevices
    refine ⟨fun d => ?_, fun a => ?_, hparts, howners⟩
    · obtain ⟨hpool, hblocks, -⟩ := hdevices d
      refine (h.apart d).of_perm (.of_eq ?_) hblocks
      rw [held, held, poolBlocks, poolBlocks, ht, hareas, hpool]
    · refine (h.cut a).of_perm (.of_eq ?_) fun area harea => hareas ▸ harea
      rw [Memory.parts, Memory.parts, ht]
  cases act with
  | tensor act =>
    exact ⟨fun d => TensorAct.apart (h.apart d) h.parts ha,
      fun a => TensorAct.cut (h.cut a) hw ha, hparts, howners⟩
  | memory act =>
    obtain ⟨hf, hd⟩ := MemoryAct.keeps frame_sameBlocks memory_sameBlocks act w
    exact kept hf.tensors hf.areas hd
  | node act =>
    obtain ⟨hf, hd⟩ := NodeAct.keeps frame_sameBlocks nodes_sameBlocks act w
    exact kept hf.tensors hf.areas hd
  | scope act =>
    obtain ⟨hf, hd⟩ := ScopeAct.keeps frame_sameBlocks memory_sameBlocks.synchronize act w
    exact kept hf.tensors hf.areas hd
  | run act =>
    obtain ⟨hf, hd⟩ := RunAct.keeps frame_sameBlocks runs_sameBlocks act w
    exact kept hf.tensors hf.areas hd

theorem laid {poolBytes : Nat → Nat} (h : World.Reachable CpuBackend.attach poolBytes w) :
    Laid w :=
  (Transition.Reachable.invariant (I := fun w : World CpuBackend => w.Valid ∧ Laid w) h
    ⟨.init _ _, .init poolBytes⟩ fun _ _ _ h hs => ⟨h.1.step hs, h.2.step h.1 hs⟩).2

/-! ## Two tensors -/

/-- Every block held that isn't a tensor's own lies apart from the tensor's. -/
theorem Laid.disjoint_held (h : Laid w) {p : Nat} {t : Tensor CpuBackend} {buf : CpuBuffer}
    (ht : w.tensors.lookup p = some t) (hm : t.mem = .Alloc buf) {r : Range}
    (hr : r ∈ held (w.setTensors (w.tensors.erase p)) t.dev) :
    (CpuBuffer.range buf).Disjoint r := by
  have hperm := held_erase (d := t.dev) ht
  have hpairwise := (hperm.pairwise_iff fun hr => hr.symm).mp (h.apart t.dev).disjoint
  rw [tensorBlock, hm] at hpairwise
  simp only [if_true, Option.toList_some, List.singleton_append, List.pairwise_cons] at hpairwise
  exact hpairwise.1 r hr

/-- A carved tensor's area, which holds its bytes. -/
theorem Laid.carved_within (h : Laid w) (hw : w.Valid) {p : Nat} {t : Tensor CpuBackend}
    (ht : w.tensors.lookup p = some t) {buf : CpuBuffer} (hm : t.mem = .Carved a buf) :
    ∃ area, w.areas.lookup a = some area ∧ area.dev = t.dev ∧
      (CpuBuffer.range buf).Within (CpuArea.range area.raw) := by
  obtain ⟨area, harea, hdev⟩ := hw.carved p t a buf ht hm
  obtain ⟨hnext, hwithin⟩ := (h.cut a).within area harea
  have hr : CpuBuffer.range buf ∈ Memory.parts w a := by
    refine List.mem_filterMap.mpr ⟨t, AList.mem_values.mpr ⟨p, ht⟩, ?_⟩
    rw [partOf, hm]
    exact if_pos rfl
  refine ⟨area, harea, hdev, (hwithin _ hr).trans (Range.within_of_le (Nat.le_refl _) ?_)⟩
  change CpuArea.ptr area.raw + CpuArea.next area.raw * 4 ≤
    CpuArea.ptr area.raw + CpuArea.words area.raw * 4
  omega

theorem areaBlock_mem {area : DeviceArea CpuBackend} (ha : w.areas.lookup a = some area)
    (hd : area.dev = d) :
    CpuArea.range area.raw ∈ w.areas.values.filterMap (areaBlock d) :=
  List.mem_filterMap.mpr ⟨area, AList.mem_values.mpr ⟨a, ha⟩, if_pos hd⟩

/-- A tensor with a block of its own and a carved one. -/
theorem Laid.disjoint_carved (h : Laid w) (hw : w.Valid) {p q : Nat} {t t' : Tensor CpuBackend}
    (ht : w.tensors.lookup p = some t) (ht' : w.tensors.lookup q = some t')
    (hdev : t'.dev = t.dev) {buf buf' : CpuBuffer} (hm : t.mem = .Alloc buf)
    (hm' : t'.mem = .Carved a buf') :
    (CpuBuffer.range buf).Disjoint (CpuBuffer.range buf') := by
  obtain ⟨area, harea, had, hwithin⟩ := h.carved_within hw ht' hm'
  refine (h.disjoint_held ht hm ?_).mono (Range.Within.refl _) hwithin
  refine List.mem_append.mpr (.inr (List.mem_append.mpr (.inr ?_)))
  exact areaBlock_mem harea (had.trans hdev)

/-- Two areas. -/
theorem Laid.disjoint_areas (h : Laid w) {a b : Nat} {area area' : DeviceArea CpuBackend}
    (ha : w.areas.lookup a = some area) (hb : w.areas.lookup b = some area') (hne : a ≠ b)
    (hdev : area.dev = area'.dev) :
    (CpuArea.range area.raw).Disjoint (CpuArea.range area'.raw) := by
  have hpairwise := (List.pairwise_append.mp (List.pairwise_append.mp
    (h.apart area.dev).disjoint).2.1).2.1
  have hperm := (AList.values_erase ha).filterMap (areaBlock area.dev)
  rw [hperm.pairwise_iff fun hr => hr.symm, List.filterMap_cons, areaBlock, if_pos rfl] at hpairwise
  refine (List.pairwise_cons.mp hpairwise).1 _ (List.mem_filterMap.mpr ⟨area', ?_, ?_⟩)
  · exact AList.mem_values.mpr ⟨b, (AList.lookup_erase_ne (Ne.symm hne)).trans hb⟩
  · exact if_pos hdev.symm

/-- Two tensors cut out of one area. -/
theorem Laid.disjoint_parts (h : Laid w) {p q : Nat} {t t' : Tensor CpuBackend} (hne : p ≠ q)
    (ht : w.tensors.lookup p = some t) (ht' : w.tensors.lookup q = some t') {buf buf' : CpuBuffer}
    (hm : t.mem = .Carved a buf) (hm' : t'.mem = .Carved a buf') :
    (CpuBuffer.range buf).Disjoint (CpuBuffer.range buf') := by
  have hpairwise := (h.cut a).apart
  have hperm := (AList.values_erase ht).filterMap (partOf a)
  rw [Memory.parts, hperm.pairwise_iff fun hr => hr.symm, List.filterMap_cons, partOf, hm] at hpairwise
  simp only [if_true] at hpairwise
  refine (List.pairwise_cons.mp hpairwise).1 _ (List.mem_filterMap.mpr ⟨t', ?_, ?_⟩)
  · exact AList.mem_values.mpr ⟨q, (AList.lookup_erase_ne (Ne.symm hne)).trans ht'⟩
  · rw [partOf, hm']
    exact if_pos rfl

/-- **Two tensors of one device share no byte.** -/
theorem Laid.disjoint (h : Laid w) (hw : w.Valid) {p q : Nat} {t t' : Tensor CpuBackend}
    (hne : p ≠ q) (ht : w.tensors.lookup p = some t) (ht' : w.tensors.lookup q = some t')
    (hdev : t.dev = t'.dev) : (CpuBuffer.range t.raw).Disjoint (CpuBuffer.range t'.raw) := by
  rcases hm : t.mem with buf | ⟨a, buf⟩ <;> rcases hm' : t'.mem with buf' | ⟨b, buf'⟩ <;>
    rw [Tensor.raw, Tensor.raw, hm, hm']
  · refine h.disjoint_held ht hm (List.mem_append.mpr (.inl ?_))
    refine List.mem_filterMap.mpr ⟨t', ?_, ?_⟩
    · exact AList.mem_values.mpr ⟨q, (AList.lookup_erase_ne (Ne.symm hne)).trans ht'⟩
    · rw [tensorBlock, hm']
      exact if_pos hdev.symm
  · exact h.disjoint_carved hw ht ht' hdev.symm hm hm'
  · exact (h.disjoint_carved hw ht' ht hdev hm' hm).symm
  · by_cases hab : a = b
    · subst b
      exact h.disjoint_parts hne ht ht' hm hm'
    · obtain ⟨area, ha, had, hwithin⟩ := h.carved_within hw ht hm
      obtain ⟨area', hb, hbd, hwithin'⟩ := h.carved_within hw ht' hm'
      have hareas := h.disjoint_areas ha hb hab (had.trans (hdev.trans hbd.symm))
      exact hareas.mono hwithin hwithin'

/-- Tensors of one device that hold a byte have addresses of their own. -/
theorem Laid.place_eq (h : Laid w) (hw : w.Valid) {p q : Nat} {t t' : Tensor CpuBackend}
    (ht : w.tensors.lookup p = some t) (ht' : w.tensors.lookup q = some t')
    (hdev : t.dev = t'.dev) (hlen : 0 < Storage.sizeBytes t.raw)
    (hlen' : 0 < Storage.sizeBytes t'.raw)
    (ha : Storage.address t.raw = Storage.address t'.raw) : p = q := by
  by_contra hne
  exact (h.disjoint hw hne ht ht' hdev).start_ne hlen hlen' ha

end Wilupgu.Memory
