import Wilupgu.Memory.Layout

/-! # Addresses tell buffers apart

`replay` finds the recorded buffers by their addresses. Two live buffers of a
device that hold a byte lie apart, so they have addresses of their own. An empty
buffer has one too: where the area's next part begins, if it was cut out of an
area. What decides is whether a buffer is put where an empty part lies. -/

namespace Wilupgu.Memory

open Backend Backends ByteMemory Call

variable {w w' : World CpuBackend} {d a : Nat}

/-! ## Live buffers -/

/-- The buffer of device `d` that a tensor holds. -/
def bufferOn (d : Nat) (t : Tensor CpuBackend) : Option CpuBuffer :=
  if t.dev = d then some t.raw else none

/-- The live buffers of device `d`: its tensors' and those its pool keeps. -/
def buffers (w : World CpuBackend) (d : Nat) : List CpuBuffer :=
  w.tensors.values.filterMap (bufferOn d) ++ (w.devices d).pool.buffers

/-- Two live buffers have the same address only if both are empty. -/
def AddressesTell (w : World CpuBackend) (d : Nat) : Prop :=
  (buffers w d).Pairwise fun b c => b.ptr = c.ptr → b.bytes = 0 ∧ c.bytes = 0

instance (w : World CpuBackend) (d : Nat) : Decidable (AddressesTell w d) :=
  inferInstanceAs (Decidable (List.Pairwise _ _))

/-- The buffer of a new block of `bytes` bytes. -/
def newBuffer (dev : ComputeDevice CpuBackend) (env : Allocator dangling) (bytes : Nat) : CpuBuffer :=
  let words := Rounding.divCeil bytes 4
  ⟨.Owned (dev.raw.heap.alloc env words).1 words, dev.raw.owner⟩

/-- What `alloc` of this kind and length gets from the pool of device `d`. -/
def takenFromPool (w : World CpuBackend) (d : Nat) (kind : DataKind) (len : Nat) :
    Option CpuBuffer :=
  ((w.devices d).pool.take CpuBuffer.bytes kind (wholeWords kind len)).1

/-- The words that a tensor of this kind and length takes up. -/
def wordsOf (kind : DataKind) (len : Nat) : Nat :=
  Rounding.divCeil (bufferBytes kind (wholeWords kind len)) 4

/-- The buffer that a call puts into the memory of device `d`, if it does. -/
def placed (w : World CpuBackend) (d : Nat) : Act CpuBackend → Option CpuBuffer
  | .tensor (.alloc d' env _ kind len) =>
    if d' = d ∧ takenFromPool w d kind len = none then
      some (newBuffer (w.devices d) env (bufferBytes kind (wholeWords kind len)))
    else none
  | .tensor (.carve a _ kind len) =>
    (w.areas.lookup a).bind fun area =>
      if area.dev = d ∧ wordsOf kind len ≤ CpuArea.words area.raw - CpuArea.next area.raw then
        some (cut area.raw (wordsOf kind len))
      else none
  | _ => none

/-! ## What a call does to them -/

/-- A buffer comes out of the pool, or is made of a new block. -/
theorem allocBuffer_cases (env : Allocator dangling) (kind : DataKind) (len : Nat)
    (dev : ComputeDevice CpuBackend) :
    (∃ buf pool, dev.pool.take CpuBuffer.bytes kind len = (some buf, pool) ∧
      ComputeDevice.allocBuffer (B := CpuBackend) env kind len dev =
        (.ok buf, { dev with pool })) ∨
    (dev.pool.take CpuBuffer.bytes kind len).1 = none ∧
      ComputeDevice.allocBuffer (B := CpuBackend) env kind len dev =
        (.ok (newBuffer dev env (bufferBytes kind len)),
          { dev with raw := (CpuBackend.allocRaw env (bufferBytes kind len) dev.raw).2 }) := by
  have htake : ComputeDevice.takePooled (B := CpuBackend) kind len dev =
      (.ok (dev.pool.take CpuBuffer.bytes kind len).1,
        { dev with pool := (dev.pool.take CpuBuffer.bytes kind len).2 }) := rfl
  rw [ComputeDevice.allocBuffer, bind_of_ok htake]
  rcases h : dev.pool.take CpuBuffer.bytes kind len with ⟨_ | buf, pool⟩
  · obtain rfl := BufferPool.take_none _ h
    exact .inr ⟨rfl, rfl⟩
  · exact .inl ⟨buf, pool, rfl, rfl⟩

/-- `alloc` puts it at the tensor's place. -/
theorem alloc_cases (d₀ : Nat) (env : Allocator dangling) (p : Nat) (kind : DataKind) (len : Nat)
    (w : World CpuBackend) :
    (∃ buf pool, takenFromPool w d₀ kind len = some buf ∧
      (w.devices d₀).pool.buffers.Perm (buf :: pool.buffers) ∧
      (World.alloc (B := CpuBackend) d₀ env p kind len w).2 =
        (w.setDevice d₀ { w.devices d₀ with pool }).setTensors
          (w.tensors.insert p ⟨.Alloc buf, kind, wholeWords kind len, d₀⟩)) ∨
    (takenFromPool w d₀ kind len = none ∧ ∃ raw,
      (World.alloc (B := CpuBackend) d₀ env p kind len w).2 =
        (w.setDevice d₀ { w.devices d₀ with raw }).setTensors
          (w.tensors.insert p ⟨.Alloc (newBuffer (w.devices d₀) env
            (bufferBytes kind (wholeWords kind len))), kind, wholeWords kind len, d₀⟩)) := by
  have hsupported : Rules.supportedKind (w.devices d₀).raw kind = .ok () := rfl
  rw [alloc_run, ComputeDevice.alloc, bind_of_ok (get_run _), hsupported, check_run]
  rcases allocBuffer_cases env kind (wholeWords kind len) (w.devices d₀) with
    ⟨buf, pool, htake, hbuffer⟩ | ⟨hnone, hbuffer⟩
  · refine .inl ⟨buf, pool, congrArg Prod.fst htake,
      (BufferPool.take_some _ htake).map Prod.snd, ?_⟩
    rw [bind_of_ok hbuffer]
    rfl
  · refine .inr ⟨hnone,
      (CpuBackend.allocRaw env (bufferBytes kind (wholeWords kind len)) (w.devices d₀).raw).2, ?_⟩
    rw [bind_of_ok hbuffer]
    rfl

/-- `carve` cuts out a part exactly if there is room for it. -/
theorem carve_exact {area : DeviceArea CpuBackend} (ha : w.areas.lookup a = some area)
    (howner : CpuArea.owner area.raw = (w.devices area.dev).raw.owner) (p : Nat) (kind : DataKind)
    (len : Nat) : (World.carve (B := CpuBackend) a p kind len w).2 =
      if wordsOf kind len ≤ CpuArea.words area.raw - CpuArea.next area.raw then
        (w.setTensors (w.tensors.insert p ⟨.Carved a (cut area.raw (wordsOf kind len)), kind,
          wholeWords kind len, area.dev⟩)).setAreas
          (w.areas.insert a ⟨rest area.raw (wordsOf kind len), area.dev⟩)
      else w := by
  have hsupported : Rules.supportedKind (w.devices area.dev).raw kind = .ok () := rfl
  have hsame : w.setDevice area.dev (w.devices area.dev) = w := by simp [World.setDevice]
  rw [carve_run ha, areaAlloc_run hsupported]
  simp only [Areable.carve, CpuBackend.carve]
  rw [if_neg (not_not.mpr howner)]
  by_cases hroom : wordsOf kind len ≤ CpuArea.words area.raw - CpuArea.next area.raw
  · have hroom' := hroom
    rw [wordsOf] at hroom'
    rw [if_pos hroom, if_pos hroom']
    simp only [hsame, ← howner]
    rfl
  · have hroom' := hroom
    rw [wordsOf] at hroom'
    rw [if_neg hroom, if_neg hroom']
    simp only [hsame]

theorem buffers_insert {p : Nat} (h : w.tensors.Free p) (t : Tensor CpuBackend) :
    buffers (w.setTensors (w.tensors.insert p t)) d = (bufferOn d t).toList ++ buffers w d := by
  rw [buffers, World.setTensors_tensors, AList.values_insert_of_free h, List.filterMap_cons, buffers]
  cases bufferOn d t <;> rfl

theorem buffers_erase {p : Nat} {t : Tensor CpuBackend} (h : w.tensors.lookup p = some t) :
    (buffers w d).Perm ((bufferOn d t).toList ++ buffers (w.setTensors (w.tensors.erase p)) d) := by
  refine (((AList.values_erase h).filterMap (bufferOn d)).append_right _).trans ?_
  rw [List.filterMap_cons, buffers, World.setTensors_tensors]
  cases bufferOn d t <;> exact .refl _

theorem buffers_setDevice (d₀ : Nat) (dev : ComputeDevice CpuBackend) :
    buffers (w.setDevice d₀ dev) d = w.tensors.values.filterMap (bufferOn d) ++
      (if d = d₀ then dev else w.devices d).pool.buffers := by
  by_cases hd : d = d₀
  · subst hd
    simp [buffers, World.setDevice]
  · simp [buffers, World.setDevice, hd]

/-- A tensor put down where one was made. -/
theorem buffers_made {p : Nat} (h : w.tensors.Free p) (t : Tensor CpuBackend) (d₀ : Nat)
    (dev : ComputeDevice CpuBackend) :
    buffers ((w.setDevice d₀ dev).setTensors (w.tensors.insert p t)) d = (bufferOn d t).toList ++
      (w.tensors.values.filterMap (bufferOn d) ++
        (if d = d₀ then dev else w.devices d).pool.buffers) :=
  (buffers_insert (w := w.setDevice d₀ dev) h t).trans
    (congrArg ((bufferOn d t).toList ++ ·) (buffers_setDevice d₀ dev))

/-- What a device's memory gets new, if anything, and nothing more. -/
def Gets (d : Nat) (w w' : World CpuBackend) : Option CpuBuffer → Prop
  | some buf => (buffers w' d).Perm (buf :: buffers w d)
  | none => (buffers w' d).Subperm (buffers w d)

theorem gets_alloc {d₀ p : Nat} (env : Allocator dangling) (kind : DataKind) (len : Nat)
    (hp : w.tensors.Free p) : Gets d w (World.alloc (B := CpuBackend) d₀ env p kind len w).2
      (placed w d (.tensor (.alloc d₀ env p kind len))) := by
  rcases alloc_cases d₀ env p kind len w with ⟨buf, pool, htaken, hpool, hw'⟩ |
    ⟨hnone, raw, hw'⟩
  · have hplaced : placed w d (.tensor (.alloc d₀ env p kind len)) = none := by
      refine if_neg ?_
      rintro ⟨rfl, hnone⟩
      cases htaken.symm.trans hnone
    rw [hplaced, hw', Gets, buffers_made hp, bufferOn, buffers]
    refine List.Perm.subperm ?_
    by_cases hd : d = d₀
    · subst hd
      rw [if_pos rfl, if_pos rfl]
      have hmiddle : (buf :: (w.tensors.values.filterMap (bufferOn d) ++ pool.buffers)).Perm
          (w.tensors.values.filterMap (bufferOn d) ++ buf :: pool.buffers) := List.perm_middle.symm
      exact hmiddle.trans (hpool.symm.append_left _)
    · rw [if_neg (Ne.symm hd), if_neg hd]
      exact .refl _
  · rw [hw', placed]
    by_cases hd : d = d₀
    · subst hd
      rw [if_pos ⟨rfl, hnone⟩, Gets, buffers_made hp, bufferOn, if_pos rfl, if_pos rfl]
      exact .refl _
    · rw [if_neg (fun h => hd h.1.symm), Gets, buffers_made hp, bufferOn, if_neg (Ne.symm hd),
        if_neg hd]
      exact List.Subperm.refl _

theorem gets_carve {p : Nat} (hl : Laid w) {area : DeviceArea CpuBackend}
    (ha : w.areas.lookup a = some area) (hp : w.tensors.Free p) (kind : DataKind) (len : Nat) :
    Gets d w (World.carve (B := CpuBackend) a p kind len w).2
      (placed w d (.tensor (.carve a p kind len))) := by
  have howner := (hl.owners.area a area ha).trans (hl.owners.device area.dev).symm
  have hcarve := carve_exact ha howner p kind len
  rw [hcarve, placed, ha, Option.bind_some]
  by_cases hroom : wordsOf kind len ≤ CpuArea.words area.raw - CpuArea.next area.raw
  · have hbuffers := buffers_insert (d := d) hp
      ⟨.Carved a (cut area.raw (wordsOf kind len)), kind, wholeWords kind len, area.dev⟩
    rw [if_pos hroom]
    by_cases hd : area.dev = d
    · rw [bufferOn, if_pos hd] at hbuffers
      rw [if_pos ⟨hd, hroom⟩]
      exact .of_eq hbuffers
    · rw [bufferOn, if_neg hd] at hbuffers
      rw [if_neg fun h => hd h.1]
      exact (List.Perm.of_eq hbuffers).subperm
  · rw [if_neg hroom, if_neg fun h => hroom h.2]
    exact List.Subperm.refl _

theorem gets_dropTensor {p : Nat} {t : Tensor CpuBackend} (ht : w.tensors.lookup p = some t) :
    Gets d w (World.dropTensor (B := CpuBackend) p w).2 none := by
  rw [dropTensor_run ht, Gets, buffers_setDevice, World.setTensors_tensors, World.setTensors_devices]
  have herase := buffers_erase (d := d) ht
  rw [buffers] at herase
  have hmany : ((w.tensors.erase p).values.filterMap (bufferOn d) ++
      (if d = t.dev then (t.drop (w.devices t.dev)).2 else w.devices d).pool.buffers).Subperm
      ((bufferOn d t).toList ++ ((w.tensors.erase p).values.filterMap (bufferOn d) ++
        (w.devices d).pool.buffers)) := by
    by_cases hd : d = t.dev
    · subst hd
      rw [if_pos rfl, bufferOn, if_pos rfl]
      rcases tensorDrop_cases t (w.devices t.dev) with
        ⟨buf, pool, hm, hpool, hdrop⟩ | ⟨buf, hm, hdrop⟩ | ⟨a, buf, hm, hdrop⟩ <;> rw [hdrop]
      · -- the pool has it now
        rw [Tensor.raw, hm, BufferPool.buffers, hpool]
        exact List.perm_middle.subperm
      · exact (List.sublist_cons_self _ _).subperm
      · exact (List.sublist_cons_self _ _).subperm
    · rw [if_neg hd]
      exact (List.sublist_append_right _ _).subperm
  exact hmany.trans herase.symm.subperm

/-- **Step rule.** A step puts the one buffer there, or none. -/
theorem gets_step {e : Event CpuBackend} (hl : Laid w) (hs : w.Step e w') :
    Gets d w w' (placed w d e.act) := by
  obtain ⟨hallowed, hr⟩ := hs
  rcases e with ⟨act, out⟩
  obtain rfl : (act.perform w).2 = w' := congrArg Prod.snd hr
  have kept : (act.perform w).2.tensors = w.tensors →
      ((act.perform w).2.devices d).pool = (w.devices d).pool → Gets d w (act.perform w).2 none := by
    intro ht hpool
    rw [Gets, buffers, buffers, ht, hpool]
  cases act with
  | tensor act =>
    cases act with
    | alloc d₀ env p kind len =>
      rw [Act.perform, TensorAct.run, silent_world]
      exact gets_alloc env kind len hallowed
    | reserve d₀ env a' bytes =>
      refine kept rfl ?_
      rw [Act.perform, TensorAct.run, silent_world, reserve_run]
      by_cases hd : d = d₀
      · subst hd
        simp [World.setDevice]
      · simp [World.setDevice, hd]
    | carve a' p kind len =>
      obtain ⟨area, harea⟩ := exists_of_mem hallowed.1
      rw [Act.perform, TensorAct.run, silent_world]
      exact gets_carve hl harea hallowed.2 kind len
    | dropArea a' =>
      obtain ⟨area, harea⟩ := exists_of_mem hallowed.1
      refine kept ?_ ?_
      · rw [Act.perform, TensorAct.run, silent_world, dropArea_run harea]
        rfl
      · rw [Act.perform, TensorAct.run, silent_world, dropArea_run harea]
        by_cases hd : d = area.dev
        · subst hd
          simp [World.setDevice]
        · simp [World.setDevice, hd]
    | dropTensor p =>
      obtain ⟨t, ht⟩ := exists_of_mem hallowed.1
      rw [Act.perform, TensorAct.run, silent_world]
      exact gets_dropTensor ht
    | moveTensor p q =>
      obtain ⟨t, ht⟩ := exists_of_mem hallowed.1.1
      exact (((AList.values_move ht (.inr hallowed.2)).symm.filterMap _).append_right _).subperm
    | replaceTensor p q =>
      obtain ⟨t, ht⟩ := exists_of_mem hallowed.2.1.1
      obtain ⟨t', ht'⟩ := exists_of_mem hallowed.2.2.1
      rw [Act.perform, TensorAct.run, silent_world, replaceTensor_run ht ht']
      split
      · exact (((AList.values_swap ht ht').symm.filterMap _).append_right _).subperm
      · exact List.Subperm.refl _
      · exact List.Subperm.refl _
  | memory act =>
    obtain ⟨hf, hd⟩ := MemoryAct.keeps frame_sameBlocks memory_sameBlocks act w
    exact kept hf.tensors (hd d).1
  | node act =>
    obtain ⟨hf, hd⟩ := NodeAct.keeps frame_sameBlocks nodes_sameBlocks act w
    exact kept hf.tensors (hd d).1
  | scope act =>
    obtain ⟨hf, hd⟩ := ScopeAct.keeps frame_sameBlocks memory_sameBlocks.synchronize act w
    exact kept hf.tensors (hd d).1
  | run act =>
    obtain ⟨hf, hd⟩ := RunAct.keeps frame_sameBlocks runs_sameBlocks act w
    exact kept hf.tensors (hd d).1

/-! ## Where blocks and parts begin -/

/-- A block of some words begins past where the empty ones point. -/
def Sits (ptr words : Nat) : Prop := if words = 0 then ptr = dangling else dangling < ptr

theorem sits_alloc (env : Allocator dangling) (words : Nat) (h : Heap) :
    Sits (h.alloc env words).1 words := by
  simp only [Sits, Heap.alloc]
  split
  · rfl
  · exact env.above _ _

/-- A buffer with a block of its own. -/
def SitsAlone (buf : CpuBuffer) : Prop := ∃ ptr words, buf.mem = .Owned ptr words ∧ Sits ptr words

/-- All blocks are where the allocator puts them. -/
structure Seated (w : World CpuBackend) : Prop where
  tensor : ∀ t ∈ w.tensors.values, ∀ buf, t.mem = .Alloc buf → SitsAlone buf
  pool : ∀ d, ∀ b ∈ pooled w d, SitsAlone b.2
  area : ∀ a area, w.areas.lookup a = some area → Sits (CpuArea.ptr area.raw) (CpuArea.words area.raw)

theorem Seated.init (poolBytes : Nat → Nat) : Seated (World.init CpuBackend.attach poolBytes) where
  tensor := nofun
  pool _ := nofun
  area _ _ h := by cases h

/-- What `alloc` makes a tensor of. -/
theorem Seated.made (h : Seated w) {act : TensorAct CpuBackend} {t : Tensor CpuBackend}
    (hm : Made w act t) {buf : CpuBuffer} (hb : t.mem = .Alloc buf) : SitsAlone buf := by
  cases hm with
  | alloc ht =>
    rename_i d env p kind len dev
    obtain ⟨buf', rfl, hbuffer⟩ := deviceAlloc_ok ht
    cases hb
    rcases allocBuffer_cases env kind (wholeWords kind len) (w.devices d) with
      ⟨buf'', pool, htake, he⟩ | ⟨-, he⟩
    · obtain ⟨hbuf, -⟩ := Prod.mk.inj (he.symm.trans hbuffer)
      cases hbuf
      exact h.pool d _ ((BufferPool.take_some _ htake).mem_iff.mpr (.head _))
    · obtain ⟨hbuf, -⟩ := Prod.mk.inj (he.symm.trans hbuffer)
      cases hbuf
      exact ⟨_, _, rfl, sits_alloc env _ _⟩
  | carve harea ht =>
    obtain ⟨buf', raw, rfl, -⟩ := areaAlloc_ok ht
    cases hb

theorem Seated.step {e : Event CpuBackend} (h : Seated w) (hs : w.Step e w') : Seated w' where
  tensor t ht buf hm := by
    rcases made_step hs ht with ht | ⟨act, -, hmade⟩
    · exact h.tensor t ht buf hm
    · exact h.made hmade hm
  pool d b hb := by
    rcases pooled_step hs hb with hb | ⟨t, ht, buf, -, hm, rfl⟩
    · exact h.pool d b hb
    · exact h.tensor t ht buf hm
  area a area' ha' := by
    rcases areas_step hs ha' with ha | ⟨env, bytes, hraw⟩ | ⟨area, words, ha, rfl⟩
    · exact h.area a area' ha
    · rw [hraw]
      exact sits_alloc env _ _
    · exact h.area a area ha

/-- Where a live buffer is: in a block of its own, or in the used part of an area. -/
inductive Kept (w : World CpuBackend) (d : Nat) (b : CpuBuffer) : Prop
  | alone : SitsAlone b →
      b.range ∈ w.tensors.values.filterMap (tensorBlock d) ++ poolBlocks (w.devices d) → Kept w d b
  | part {a : Nat} {area : DeviceArea CpuBackend} : w.areas.lookup a = some area → area.dev = d →
      b.range ∈ parts w a → (∃ ptr words, b.mem = .Part ptr words) → Kept w d b

theorem kept (hl : Laid w) (hw : w.Valid) (hseat : Seated w) {b : CpuBuffer}
    (hb : b ∈ buffers w d) : Kept w d b := by
  rcases List.mem_append.mp hb with hb | hb
  · obtain ⟨t, ht, hon⟩ := List.mem_filterMap.mp hb
    obtain ⟨hdev, rfl⟩ : t.dev = d ∧ t.raw = b := by
      rw [bufferOn] at hon
      split at hon
      · rename_i hdev
        exact ⟨hdev, Option.some.inj hon⟩
      · cases hon
    rcases hm : t.mem with buf | ⟨a, buf⟩
    · have hraw : t.raw = buf := by rw [Tensor.raw, hm]
      rw [hraw]
      refine .alone (hseat.tensor t ht buf hm) (List.mem_append_left _ ?_)
      refine List.mem_filterMap.mpr ⟨t, ht, ?_⟩
      rw [tensorBlock, hm]
      exact if_pos hdev
    · have hraw : t.raw = buf := by rw [Tensor.raw, hm]
      obtain ⟨p, hp⟩ := AList.mem_values.mp ht
      obtain ⟨area, harea, hdev'⟩ := hw.carved p t a buf hp hm
      rw [hraw]
      refine .part harea (hdev'.trans hdev) ?_ (hl.parts t ht a buf hm)
      refine List.mem_filterMap.mpr ⟨t, ht, ?_⟩
      rw [partOf, hm]
      exact if_pos rfl
  · obtain ⟨entry, hentry, rfl⟩ := List.mem_map.mp hb
    exact .alone (hseat.pool d entry hentry)
      (List.mem_append_right _ (List.mem_map_of_mem hb))

/-- A part of an area lies in what is used of it. -/
theorem Laid.part_within (hl : Laid w) {area : DeviceArea CpuBackend}
    (ha : w.areas.lookup a = some area) {r : Range} (hr : r ∈ Memory.parts w a) :
    r.Within (CpuArea.used area.raw) ∧ CpuArea.next area.raw ≤ CpuArea.words area.raw :=
  ⟨((hl.cut a).within area ha).2 r hr, ((hl.cut a).within area ha).1⟩

/-- An area's used part is in it. -/
theorem used_within {area : CpuArea} (h : area.next ≤ area.words) :
    area.used.Within area.range :=
  Range.within_of_le (Nat.le_refl _) (by simp only [CpuArea.used, CpuArea.range]; omega)

/-- A buffer with a block of its own lies apart from every area. -/
theorem Laid.alone_disjoint (hl : Laid w) {area : DeviceArea CpuBackend}
    (ha : w.areas.lookup a = some area) (hd : area.dev = d) {r : Range}
    (hr : r ∈ w.tensors.values.filterMap (tensorBlock d) ++ poolBlocks (w.devices d)) :
    r.Disjoint (CpuArea.range area.raw) := by
  have hpairwise := (hl.apart d).disjoint
  rw [held, ← List.append_assoc] at hpairwise
  exact (List.pairwise_append.mp hpairwise).2.2 r hr _ (areaBlock_mem ha hd)

theorem ptr_mem {b : CpuBuffer} (h : b.bytes ≠ 0) : b.ptr ∈ b.range :=
  ⟨Nat.le_refl _, Nat.lt_add_of_pos_right (Nat.pos_of_ne_zero h)⟩

/-- **No buffer that holds a byte begins where an area is cut next**, while there
is something left of it. -/
theorem Kept.ne_cursor {b : CpuBuffer} (h : Kept w d b) (hl : Laid w)
    {area : DeviceArea CpuBackend} (ha : w.areas.lookup a = some area) (hd : area.dev = d)
    (hleft : CpuArea.next area.raw < CpuArea.words area.raw) (hb : b.bytes ≠ 0) :
    b.ptr ≠ CpuArea.ptr area.raw + CpuArea.next area.raw * 4 := by
  intro hptr
  have hin : b.ptr ∈ CpuArea.range area.raw := by
    rw [hptr]
    exact ⟨Nat.le_add_right _ _, by simp only [CpuArea.range]; omega⟩
  cases h with
  | alone _ hblock => exact hl.alone_disjoint ha hd hblock _ (ptr_mem hb) hin
  | @part a' area' ha' hd' hpart _ =>
    obtain ⟨hwithin, hle⟩ := hl.part_within ha' hpart
    have hused := hwithin _ (ptr_mem hb)
    by_cases hsame : a' = a
    · subst hsame
      obtain rfl := Option.some.inj (ha'.symm.trans ha)
      have hlt := hused.2
      simp only [CpuArea.used] at hlt
      omega
    · exact hl.disjoint_areas ha' ha hsame (hd'.trans hd.symm) _ (used_within hle _ hused) hin

/-- A buffer that holds a byte begins past where the empty ones point. -/
theorem Kept.dangling_lt {b : CpuBuffer} (h : Kept w d b) (hl : Laid w) (hseat : Seated w)
    (hb : b.bytes ≠ 0) : dangling < b.ptr := by
  cases h with
  | alone hsits _ =>
    obtain ⟨ptr, words, hm, hsits⟩ := hsits
    have hwords : words ≠ 0 := by
      rintro rfl
      simp [CpuBuffer.bytes, hm] at hb
    rw [Sits, if_neg hwords] at hsits
    simpa [CpuBuffer.ptr, hm] using hsits
  | @part a' area' ha' hd' hpart _ =>
    obtain ⟨hwithin, hle⟩ := hl.part_within ha' hpart
    obtain ⟨hge, hlt⟩ := hwithin _ (ptr_mem hb)
    have hsits := hseat.area a' area' ha'
    simp only [CpuArea.used] at hge hlt
    rw [Sits, if_neg (by omega)] at hsits
    omega

/-- It lies in a live block. -/
theorem Kept.live {b : CpuBuffer} (h : Kept w d b) (hl : Laid w) (hb : b.bytes ≠ 0) :
    ∃ r ∈ blocks w d, b.ptr ∈ r := by
  cases h with
  | alone _ hblock =>
    refine ⟨b.range, (hl.apart d).live _ ?_ hb, ptr_mem hb⟩
    rw [held, ← List.append_assoc]
    exact List.mem_append_left _ hblock
  | @part a' area' ha' hd' hpart _ =>
    obtain ⟨hwithin, hle⟩ := hl.part_within ha' hpart
    have hin := used_within hle _ (hwithin _ (ptr_mem hb))
    refine ⟨CpuArea.range area'.raw, (hl.apart d).live _ ?_ fun hzero => ?_, hin⟩
    · rw [held, ← List.append_assoc]
      exact List.mem_append_right _ (areaBlock_mem ha' hd')
    · obtain ⟨hge, hlt⟩ := hin
      omega

/-- An empty one points there, or is a part of an area. -/
theorem Kept.empty {b : CpuBuffer} (h : Kept w d b) (hb : b.bytes = 0) :
    b.ptr = dangling ∨ b.mem = .Part b.ptr 0 := by
  cases h with
  | alone hsits _ =>
    obtain ⟨ptr, words, hm, hsits⟩ := hsits
    have hzero : words * 4 = 0 := by simpa [CpuBuffer.bytes, hm] using hb
    obtain rfl : words = 0 := by omega
    rw [Sits, if_pos rfl] at hsits
    exact .inl (by simpa [CpuBuffer.ptr, hm] using hsits)
  | part _ _ _ hm =>
    obtain ⟨ptr, words, hm⟩ := hm
    have hzero : words * 4 = 0 := by simpa [CpuBuffer.bytes, hm] using hb
    obtain rfl : words = 0 := by omega
    exact .inr (by rw [hm, CpuBuffer.ptr, hm])

/-! ## What keeps addresses apart -/

/-- A live, empty part of an area begins there. -/
def EmptyPartAt (w : World CpuBackend) (d ptr : Nat) : Prop :=
  ∃ b ∈ buffers w d, b.mem = .Part ptr 0

instance (w : World CpuBackend) (d ptr : Nat) : Decidable (EmptyPartAt w d ptr) :=
  inferInstanceAs (Decidable (∃ b ∈ _, _))

/-- The call puts no buffer that holds a byte where an empty part lies, and cuts
no empty part at the end of an area where another buffer begins. -/
def Clear (w : World CpuBackend) (d : Nat) : Act CpuBackend → Prop
  | .tensor (.alloc d' env _ kind len) =>
    d' = d → takenFromPool w d kind len = none → wordsOf kind len ≠ 0 →
      ¬EmptyPartAt w d ((w.devices d).raw.heap.alloc env (wordsOf kind len)).1
  | .tensor (.carve a _ kind len) =>
    ∀ area ∈ w.areas.lookup a, area.dev = d →
      wordsOf kind len ≤ CpuArea.words area.raw - CpuArea.next area.raw →
        if wordsOf kind len = 0 then
          CpuArea.next area.raw = CpuArea.words area.raw →
            ∀ b ∈ buffers w d, b.ptr = CpuArea.ptr area.raw + CpuArea.words area.raw * 4 → b.bytes = 0
        else ¬EmptyPartAt w d (CpuArea.ptr area.raw + CpuArea.next area.raw * 4)
  | _ => True

/-- No live buffer has the address of a new one, unless both are empty. -/
def Unshared (w : World CpuBackend) (d : Nat) (buf : CpuBuffer) : Prop :=
  ∀ b ∈ buffers w d, buf.ptr = b.ptr → buf.bytes = 0 ∧ b.bytes = 0

theorem tells_of_gets {new : Option CpuBuffer} (ht : AddressesTell w d) (hg : Gets d w w' new) :
    AddressesTell w' d ↔ ∀ buf, new = some buf → Unshared w d buf := by
  have hsymm : ∀ {b c : CpuBuffer}, (b.ptr = c.ptr → b.bytes = 0 ∧ c.bytes = 0) →
      c.ptr = b.ptr → c.bytes = 0 ∧ b.bytes = 0 := fun h he => (h he.symm).symm
  cases new with
  | none =>
    obtain ⟨l, hperm, hsub⟩ := hg
    exact iff_of_true ((hperm.pairwise_iff hsymm).mp (ht.sublist hsub)) fun _ h => by cases h
  | some buf =>
    rw [AddressesTell, List.Perm.pairwise_iff hsymm hg, List.pairwise_cons]
    exact ⟨fun h b hb => by cases hb; exact h.1, fun h => ⟨h buf rfl, ht⟩⟩

/-- A new block. -/
theorem apart_newBuffer (hl : Laid w) (hw : w.Valid) (hseat : Seated w) (env : Allocator dangling)
    (bytes : Nat) : Unshared w d (newBuffer (w.devices d) env bytes) ↔
      (Rounding.divCeil bytes 4 ≠ 0 →
        ¬EmptyPartAt w d ((w.devices d).raw.heap.alloc env (Rounding.divCeil bytes 4)).1) := by
  set words := Rounding.divCeil bytes 4 with hwords
  have hptr : (newBuffer (w.devices d) env bytes).ptr = ((w.devices d).raw.heap.alloc env words).1 :=
    rfl
  have hbytes : (newBuffer (w.devices d) env bytes).bytes = words * 4 := rfl
  have hsits := sits_alloc env words (w.devices d).raw.heap
  rw [Unshared, hptr, hbytes]
  constructor
  · intro h hne hpart
    obtain ⟨b, hb, hm⟩ := hpart
    have hat : b.ptr = ((w.devices d).raw.heap.alloc env words).1 := by rw [CpuBuffer.ptr, hm]
    have hzero := (h b hb hat.symm).1
    omega
  · intro h b hb hat
    have hkept := kept hl hw hseat hb
    by_cases hzero : words = 0
    · rw [Sits, if_pos hzero] at hsits
      refine ⟨by rw [hzero], ?_⟩
      by_contra hne
      have hlt := hkept.dangling_lt hl hseat hne
      omega
    · rw [Sits, if_neg hzero] at hsits
      exfalso
      by_cases hne : b.bytes = 0
      · rcases hkept.empty hne with hd | hm
        · omega
        · exact h hzero ⟨b, hb, hat ▸ hm⟩
      · obtain ⟨r, hr, hin⟩ := hkept.live hl hne
        refine heap_alloc_disjoint env words (w.devices d).raw.heap r hr b.ptr ?_ hin
        rw [← hat]
        exact ⟨Nat.le_refl _, by simp only; omega⟩

/-- A new part of an area. -/
theorem apart_cut (hl : Laid w) (hw : w.Valid) (hseat : Seated w) {area : DeviceArea CpuBackend}
    (ha : w.areas.lookup a = some area) (hd : area.dev = d) {words : Nat}
    (hroom : words ≤ CpuArea.words area.raw - CpuArea.next area.raw) :
    Unshared w d (cut area.raw words) ↔
      if words = 0 then
        CpuArea.next area.raw = CpuArea.words area.raw →
          ∀ b ∈ buffers w d, b.ptr = CpuArea.ptr area.raw + CpuArea.words area.raw * 4 → b.bytes = 0
      else ¬EmptyPartAt w d (CpuArea.ptr area.raw + CpuArea.next area.raw * 4) := by
  have hptr : (cut area.raw words).ptr = CpuArea.ptr area.raw + CpuArea.next area.raw * 4 := rfl
  have hbytes : (cut area.raw words).bytes = words * 4 := rfl
  have hle := ((hl.cut a).within area ha).1
  rw [Unshared, hptr, hbytes]
  by_cases hzero : words = 0
  · rw [if_pos hzero]
    constructor
    · intro h hend b hb hat
      exact (h b hb (by rw [hat, hend])).2
    · intro h b hb hat
      refine ⟨by rw [hzero], ?_⟩
      by_contra hne
      rcases Nat.eq_or_lt_of_le hle with hend | hleft
      · exact hne (h hend b hb (by rw [← hat, hend]))
      · exact (kept hl hw hseat hb).ne_cursor hl ha hd hleft hne hat.symm
  · rw [if_neg hzero]
    constructor
    · intro h hpart
      obtain ⟨b, hb, hm⟩ := hpart
      have hat : b.ptr = CpuArea.ptr area.raw + CpuArea.next area.raw * 4 := by
        rw [CpuBuffer.ptr, hm]
      have hboth := (h b hb hat.symm).1
      omega
    · intro h b hb hat
      exfalso
      have hkept := kept hl hw hseat hb
      by_cases hne : b.bytes = 0
      · rcases hkept.empty hne with hdangling | hm
        · -- an area with something left begins past it
          have hsits := hseat.area a area ha
          rw [Sits, if_neg (by omega)] at hsits
          omega
        · exact h ⟨b, hb, hat ▸ hm⟩
      · exact hkept.ne_cursor hl ha hd (by omega) hne hat.symm

/-- **Exactly a clear call** keeps addresses apart. -/
theorem tells_step_iff (hl : Laid w) (hw : w.Valid) (hseat : Seated w) (ht : AddressesTell w d)
    {e : Event CpuBackend} (hs : w.Step e w') : AddressesTell w' d ↔ Clear w d e.act := by
  rw [tells_of_gets ht (gets_step hl hs)]
  rcases e with ⟨act, out⟩
  have hnone : placed w d act = none → Clear w d act →
      ((∀ buf, placed w d act = some buf → Unshared w d buf) ↔ Clear w d act) := by
    intro hplaced hclear
    exact iff_of_true (fun buf h => by cases hplaced.symm.trans h) hclear
  cases act with
  | tensor act =>
    cases act with
    | alloc d₀ env p kind len =>
      by_cases hplaced : d₀ = d ∧ takenFromPool w d kind len = none
      · have hsome : placed w d (.tensor (.alloc d₀ env p kind len)) =
            some (newBuffer (w.devices d) env (bufferBytes kind (wholeWords kind len))) :=
          if_pos hplaced
        have hiff := apart_newBuffer (d := d) hl hw hseat env (bufferBytes kind (wholeWords kind len))
        simp only [hsome, Option.some.injEq, forall_eq']
        exact hiff.trans ⟨fun h _ _ => h, fun h => h hplaced.1 hplaced.2⟩
      · exact hnone (if_neg hplaced) fun hd htaken => absurd ⟨hd, htaken⟩ hplaced
    | carve a' p kind len =>
      obtain ⟨area, ha⟩ := exists_of_mem hs.1.1
      by_cases hplaced : area.dev = d ∧
          wordsOf kind len ≤ CpuArea.words area.raw - CpuArea.next area.raw
      · have hsome : placed w d (.tensor (.carve a' p kind len)) =
            some (cut area.raw (wordsOf kind len)) := by
          rw [placed, ha, Option.bind_some, if_pos hplaced]
        have hiff := apart_cut hl hw hseat ha hplaced.1 hplaced.2
        simp only [hsome, Option.some.injEq, forall_eq']
        refine hiff.trans ⟨fun h area' ha' _ _ => ?_, fun h => h area ha hplaced.1 hplaced.2⟩
        obtain rfl := Option.some.inj (ha.symm.trans ha')
        exact h
      · refine hnone ?_ fun area' ha' hd hroom => ?_
        · rw [placed, ha, Option.bind_some, if_neg hplaced]
        · obtain rfl := Option.some.inj (ha.symm.trans ha')
          exact absurd ⟨hd, hroom⟩ hplaced
    | _ => exact hnone rfl trivial
  | memory act => exact hnone rfl trivial
  | node act => exact hnone rfl trivial
  | scope act => exact hnone rfl trivial
  | run act => exact hnone rfl trivial

theorem addressesTell_init (poolBytes : Nat → Nat) (d : Nat) :
    AddressesTell (World.init CpuBackend.attach poolBytes) d := .nil

/-- What is so in every world a program gets to. -/
structure Established (w : World CpuBackend) : Prop where
  laid : Laid w
  valid : w.Valid
  seated : Seated w

theorem Established.init (poolBytes : Nat → Nat) : Established (World.init CpuBackend.attach poolBytes) :=
  ⟨.init poolBytes, .init _ _, .init poolBytes⟩

theorem Established.step {e : Event CpuBackend} (h : Established w) (hs : w.Step e w') : Established w' :=
  ⟨h.laid.step h.valid hs, h.valid.step hs, h.seated.step hs⟩

/-- **Addresses tell buffers apart exactly in clear runs**: on the way of a
program two live buffers of the device have the same address only if both are
empty, exactly if no call puts a buffer that holds a byte where an empty part of
an area lies, or such a part where another buffer begins. -/
theorem addresses_tell_iff_clear {poolBytes : Nat → Nat} {es : List (Event CpuBackend)} :
    Transition.Runs (Transition.Into World.Step fun w => AddressesTell w d)
        (.init CpuBackend.attach poolBytes) es w ↔
      Transition.Runs (Transition.Where World.Step fun w e => Clear w d e.act)
        (.init CpuBackend.attach poolBytes) es w :=
  Transition.Runs.into_iff_where (I := Established) (fun _ _ _ h hs => h.step hs)
    (fun _ _ _ h ht hs => tells_step_iff h.laid h.valid h.seated ht hs) (.init poolBytes)
    (addressesTell_init poolBytes d)

/-! ## No empty parts -/

/-- The call carves something, if it carves. -/
def CarvesSome : Act CpuBackend → Prop
  | .tensor (.carve _ _ kind len) => wordsOf kind len ≠ 0
  | _ => True

theorem placed_ne_empty {act : Act CpuBackend} (hsome : CarvesSome act) {buf : CpuBuffer}
    (hp : placed w d act = some buf) (ptr : Nat) : buf.mem ≠ .Part ptr 0 := by
  unfold placed at hp
  split at hp
  · split at hp
    · cases hp
      exact fun hm => by cases hm
    · cases hp
  · obtain ⟨area, -, hp⟩ := Option.bind_eq_some_iff.mp hp
    split at hp
    · cases hp
      intro hm
      exact hsome (CpuMem.Part.inj hm).2
    · cases hp
  · cases hp

/-- Without empty carves there are no empty parts. -/
theorem noEmptyPart_step {e : Event CpuBackend} (hl : Laid w)
    (hnone : ∀ ptr, ¬EmptyPartAt w d ptr) (hs : w.Step e w') (hsome : CarvesSome e.act) :
    ∀ ptr, ¬EmptyPartAt w' d ptr := by
  have hg := gets_step (d := d) hl hs
  intro ptr hpart
  obtain ⟨b, hb, hm⟩ := hpart
  cases hp : placed w d e.act with
  | none =>
    rw [hp] at hg
    exact hnone ptr ⟨b, hg.subset hb, hm⟩
  | some buf =>
    rw [hp] at hg
    rcases List.mem_cons.mp (hg.mem_iff.mp hb) with rfl | hb
    · exact placed_ne_empty hsome hp ptr hm
    · exact hnone ptr ⟨b, hb, hm⟩

theorem clear_of_noEmptyPart {act : Act CpuBackend} (hnone : ∀ ptr, ¬EmptyPartAt w d ptr)
    (hsome : CarvesSome act) : Clear w d act := by
  unfold Clear
  split
  · exact fun _ _ _ => hnone _
  · intro area _ _ _
    rw [if_neg hsome]
    exact hnone _
  · trivial

/-- Where nothing empty is carved, addresses tell buffers apart. -/
theorem addresses_tell_without_empty_carves {poolBytes : Nat → Nat} {es : List (Event CpuBackend)}
    (h : Transition.Runs (Transition.Where World.Step fun _ e => CarvesSome e.act)
      (.init CpuBackend.attach poolBytes) es w) :
    Transition.Runs (Transition.Into World.Step fun w => AddressesTell w d)
      (.init CpuBackend.attach poolBytes) es w := by
  have hinit : Established (World.init CpuBackend.attach poolBytes) ∧
      ∀ ptr, ¬EmptyPartAt (World.init CpuBackend.attach poolBytes) d ptr :=
    ⟨.init poolBytes, fun _ hpart => by obtain ⟨_, hb, -⟩ := hpart; cases hb⟩
  have hclear : Transition.Runs (Transition.Where (Transition.Where World.Step
      fun _ e => CarvesSome e.act) fun w e => Clear w d e.act)
      (.init CpuBackend.attach poolBytes) es w := h.where_of_invariant
    (I := fun w : World CpuBackend => Established w ∧ ∀ ptr, ¬EmptyPartAt w d ptr)
    (fun _ _ _ hI hs => ⟨hI.1.step hs.1, noEmptyPart_step hI.1.laid hI.2 hs.1 hs.2⟩)
    (fun _ _ _ hI hs => clear_of_noEmptyPart hI.2 hs.2) hinit
  exact addresses_tell_iff_clear.mpr (hclear.mono fun _ _ _ hs => ⟨hs.1.1, hs.2⟩)

namespace Sample

open Backends.Sample

/-- An area of two words, of which no word is carved, then one. -/
def emptyThenOne : List (Act CpuBackend) := [
  .tensor (.reserve 0 env 0 8), .tensor (.carve 0 0 .F32 0), .tensor (.carve 0 1 .F32 1)]

/-- **An empty tensor and one of an element** at one address. -/
theorem empty_and_not_at_one_address : ∃ (es : List (Event CpuBackend)) (w : World CpuBackend)
    (t t' : Tensor CpuBackend), World.Runs (.init CpuBackend.attach fun _ => 0) es w ∧
      w.tensors.lookup 0 = some t ∧ w.tensors.lookup 1 = some t' ∧ t.dev = t'.dev ∧
      Storage.address t.raw = Storage.address t'.raw ∧ Storage.sizeBytes t.raw = 0 ∧
      Storage.sizeBytes t'.raw = 4 ∧ ¬AddressesTell w 0 := by
  obtain ⟨es, w, hplay, t, t', hrest⟩ : ∃ es w,
      (World.init CpuBackend.attach fun _ => 0).play (fun _ _ => True) emptyThenOne = some (es, w) ∧
      ∃ t t' : Tensor CpuBackend, w.tensors.lookup 0 = some t ∧ w.tensors.lookup 1 = some t' ∧
        t.dev = t'.dev ∧ Storage.address t.raw = Storage.address t'.raw ∧
        Storage.sizeBytes t.raw = 0 ∧ Storage.sizeBytes t'.raw = 4 ∧ ¬AddressesTell w 0 :=
    ⟨_, _, rfl, _, _, rfl, rfl, rfl, rfl, rfl, rfl, by decide⟩
  exact ⟨es, w, t, t', (World.runs_of_play hplay).of_where, hrest⟩

end Sample
end Wilupgu.Memory
