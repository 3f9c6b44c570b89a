import Wilupgu.Backends.CpuFrame
import Wilupgu.Safe.Valid

/-! # What lies where in the host's memory

Every tensor that isn't cut out of an area, every area and every pooled buffer
of a device holds a live block of its own. Blocks that hold a byte lie apart. -/

namespace Wilupgu.Memory

open Backend Backends ByteMemory Call

variable {w w' : World CpuBackend} {d : Nat}

/-- A new block lies apart from the live ones. -/
theorem heap_alloc_disjoint (env : Allocator dangling) (words : Nat) (h : Heap) :
    ∀ r ∈ h.blocks, (⟨(h.alloc env words).1, words * 4⟩ : Range).Disjoint r := by
  intro r hr
  simp only [Heap.alloc]
  split
  · exact Range.disjoint_of_len_eq_zero (by simp only; omega) r
  · exact env.fresh _ _ r hr

/-- A block is new to a device: apart from all it has, and added to them. -/
structure NewBlock (raw raw' : CpuBackend) (r : Range) : Prop where
  disjoint : ∀ s ∈ raw.heap.blocks, r.Disjoint s
  blocks : raw'.heap.blocks = r :: raw.heap.blocks
  recording : SameRecording raw raw'

/-- Where `alloc` gets a buffer from: the pool, which kept it for its kind and
length, or a new block. -/
inductive Obtained (kind : DataKind) (len : Nat) (dev : ComputeDevice CpuBackend) (buf : CpuBuffer)
    (dev' : ComputeDevice CpuBackend) : Prop
  | pooled : dev.pool.blocks.Perm (((kind, len), buf) :: dev'.pool.blocks) → dev'.raw = dev.raw →
      Obtained kind len dev buf dev'
  | new : dev'.pool = dev.pool → NewBlock dev.raw dev'.raw buf.range →
      buf.owner = dev.raw.owner → buf.bytes = Rounding.divCeil (bufferBytes kind len) 4 * 4 →
      Obtained kind len dev buf dev'

theorem allocRaw_new (env : Allocator dangling) (bytes : Nat) (raw : CpuBackend) :
    ∃ buf raw', CpuBackend.allocRaw env bytes raw = (.ok buf, raw') ∧
      NewBlock raw raw' buf.range ∧ buf.owner = raw.owner ∧
      buf.bytes = Rounding.divCeil bytes 4 * 4 :=
  ⟨_, _, rfl, ⟨heap_alloc_disjoint env _ _, rfl, rfl, rfl⟩, rfl, rfl⟩

theorem allocBuffer_obtained (env : Allocator dangling) (kind : DataKind) (len : Nat)
    (dev : ComputeDevice CpuBackend) : ∃ buf dev',
      ComputeDevice.allocBuffer (B := CpuBackend) env kind len dev = (.ok buf, dev') ∧
      Obtained kind len dev buf dev' := by
  have htake : ComputeDevice.takePooled (B := CpuBackend) kind len dev =
      (.ok (dev.pool.take CpuBuffer.bytes kind len).1,
        { dev with pool := (dev.pool.take CpuBuffer.bytes kind len).2 }) := rfl
  rcases h : dev.pool.take CpuBuffer.bytes kind len with ⟨_ | buf, pool⟩
  · obtain rfl := BufferPool.take_none _ h
    obtain ⟨buf, raw, hraw, hnew, howner, hbytes⟩ :=
      allocRaw_new env (bufferBytes kind len) dev.raw
    have hattempt : ((onRaw (Storage.allocRaw (B := CpuBackend) env (bufferBytes kind len))).attempt :
        Call _ Error _) dev = (.ok (.ok buf), { dev with raw }) := by
      rw [attempt_run, onRaw_run]
      simp only [Storage.allocRaw, hraw]
    refine ⟨buf, { dev with raw }, ?_, .new rfl hnew howner hbytes⟩
    rw [ComputeDevice.allocBuffer, bind_of_ok htake, h]
    exact bind_of_ok hattempt
  · refine ⟨buf, { dev with pool }, ?_, .pooled (BufferPool.take_some _ h) rfl⟩
    rw [ComputeDevice.allocBuffer, bind_of_ok htake, h]
    rfl

/-- `alloc` always makes a tensor on the CPU. -/
theorem alloc_obtained (d₀ : Nat) (env : Allocator dangling) (p : Nat) (kind : DataKind) (len : Nat)
    (w : World CpuBackend) : ∃ buf dev, Obtained kind (wholeWords kind len) (w.devices d₀) buf dev ∧
      World.alloc (B := CpuBackend) d₀ env p kind len w =
        (.ok (), (w.setDevice d₀ dev).setTensors
          (w.tensors.insert p ⟨.Alloc buf, kind, wholeWords kind len, d₀⟩)) := by
  obtain ⟨buf, dev, hb, hobtained⟩ :=
    allocBuffer_obtained env kind (wholeWords kind len) (w.devices d₀)
  have hsupported : Rules.supportedKind (w.devices d₀).raw kind = .ok () := rfl
  have ht : ComputeDevice.alloc (B := CpuBackend) d₀ env kind len (w.devices d₀) =
      (.ok ⟨.Alloc buf, kind, wholeWords kind len, d₀⟩, dev) := by
    rw [ComputeDevice.alloc, bind_of_ok (get_run _), hsupported, check_run]
    exact bind_of_ok hb
  refine ⟨buf, dev, hobtained, ?_⟩
  rw [alloc_run, ht]

theorem reserve_raw_new (env : Allocator dangling) (bytes : Nat) (raw : CpuBackend) :
    ∃ area raw', CpuBackend.reserve env bytes raw = (area, raw') ∧
      NewBlock raw raw' (CpuArea.range area) ∧ area.next = 0 ∧ area.owner = raw.owner :=
  ⟨_, _, rfl, ⟨heap_alloc_disjoint env _ _, rfl, rfl, rfl⟩, rfl, rfl⟩

/-- `reserve` gives the area a new block. -/
theorem reserve_new (d₀ : Nat) (env : Allocator dangling) (a bytes : Nat) (w : World CpuBackend) :
    ∃ area raw, NewBlock (w.devices d₀).raw raw (CpuArea.range area) ∧ area.next = 0 ∧
      area.owner = (w.devices d₀).raw.owner ∧
      World.reserve (B := CpuBackend) d₀ env a bytes w =
        (.ok (), (w.setDevice d₀ { w.devices d₀ with raw }).setAreas
          (w.areas.insert a ⟨area, d₀⟩)) := by
  obtain ⟨area, raw, hreserve, hnew, hnext, howner⟩ :=
    reserve_raw_new env bytes (w.devices d₀).raw
  refine ⟨area, raw, hnew, hnext, howner, ?_⟩
  rw [reserve_run]
  simp only [Areable.reserve, hreserve]

/-- The buffer of the next `words` words of an area. -/
def cut (area : CpuArea) (words : Nat) : CpuBuffer :=
  ⟨.Part (area.ptr + area.next * 4) words, area.owner⟩

/-- The area with these words cut out. -/
def rest (area : CpuArea) (words : Nat) : CpuArea := { area with next := area.next + words }

theorem carve_raw_cases (area : CpuArea) (bytes : Nat) (raw : CpuBackend) :
    (∃ e, CpuBackend.carve area bytes raw = (.err e, raw)) ∨
    area.owner = raw.owner ∧ Rounding.divCeil bytes 4 ≤ area.words - area.next ∧
      CpuBackend.carve area bytes raw =
        (.ok (cut area (Rounding.divCeil bytes 4), rest area (Rounding.divCeil bytes 4)), raw) := by
  simp only [CpuBackend.carve]
  split
  · exact .inl ⟨_, rfl⟩
  · rename_i howner
    have howner' : area.owner = raw.owner := Decidable.not_not.mp howner
    split
    · rename_i hwords
      refine .inr ⟨howner', hwords, ?_⟩
      rw [← howner']
      rfl
    · exact .inl ⟨_, rfl⟩

/-- `carve` cuts the buffer out of what is left of the area, or fails. -/
theorem carve_cases {a : Nat} {area : DeviceArea CpuBackend} (ha : w.areas.lookup a = some area)
    (p : Nat) (kind : DataKind) (len : Nat) :
    (∃ e, World.carve (B := CpuBackend) a p kind len w = (.err e, w)) ∨
    ∃ words, words = Rounding.divCeil (bufferBytes kind (wholeWords kind len)) 4 ∧
      words ≤ CpuArea.words area.raw - CpuArea.next area.raw ∧
      World.carve (B := CpuBackend) a p kind len w =
        (.ok (), (w.setTensors (w.tensors.insert p
          ⟨.Carved a (cut area.raw words), kind, wholeWords kind len, area.dev⟩)).setAreas
          (w.areas.insert a ⟨rest area.raw words, area.dev⟩)) := by
  have hsupported : Rules.supportedKind (w.devices area.dev).raw kind = .ok () := rfl
  have hsame : w.setDevice area.dev (w.devices area.dev) = w := by simp [World.setDevice]
  rw [carve_run ha, areaAlloc_run hsupported]
  simp only [Areable.carve]
  rcases carve_raw_cases area.raw (bufferBytes kind (wholeWords kind len))
    (w.devices area.dev).raw with ⟨e, he⟩ | ⟨-, hwords, he⟩
  · refine .inl ⟨.Backend e, ?_⟩
    rw [he]
    simp only [hsame]
  · refine .inr ⟨_, rfl, hwords, ?_⟩
    rw [he]
    simp only [hsame]

/-! ## Blocks held -/

/-- The block of device `d` that a tensor holds. -/
def tensorBlock (d : Nat) (t : Tensor CpuBackend) : Option Range :=
  match t.mem with
  | .Alloc buf => if t.dev = d then some (CpuBuffer.range buf) else none
  | .Carved _ _ => none

theorem tensorBlock_alloc (buf : CpuBuffer) (kind : DataKind) (len d₀ : Nat) :
    tensorBlock d ⟨.Alloc buf, kind, len, d₀⟩ =
      if d₀ = d then some (CpuBuffer.range buf) else none := rfl

/-- The block of device `d` that an area holds. -/
def areaBlock (d : Nat) (area : DeviceArea CpuBackend) : Option Range :=
  if area.dev = d then some (CpuArea.range area.raw) else none

/-- The blocks a device's pool holds. -/
def poolBlocks (dev : ComputeDevice CpuBackend) : List Range := dev.pool.buffers.map CpuBuffer.range

/-- All blocks of device `d` that something holds. -/
def held (w : World CpuBackend) (d : Nat) : List Range :=
  w.tensors.values.filterMap (tensorBlock d) ++
    (poolBlocks (w.devices d) ++ w.areas.values.filterMap (areaBlock d))

/-- The live blocks of device `d`. -/
abbrev blocks (w : World CpuBackend) (d : Nat) : List Range := (w.devices d).raw.heap.blocks

/-- The held blocks of device `d` lie apart, and are live unless empty. -/
structure Apart (w : World CpuBackend) (d : Nat) : Prop where
  disjoint : (held w d).Pairwise Range.Disjoint
  live : ∀ r ∈ held w d, r.len ≠ 0 → r ∈ blocks w d

/-- The same blocks held, in another order or by others. -/
theorem Apart.of_perm (h : Apart w d) (hp : (held w d).Perm (held w' d))
    (hb : blocks w' d = blocks w d) : Apart w' d where
  disjoint := (hp.pairwise_iff fun hr => hr.symm).mp h.disjoint
  live r hr hlen := hb ▸ h.live r (hp.mem_iff.mpr hr) hlen

/-- One new block held. -/
theorem Apart.of_fresh (h : Apart w d) {r : Range} (hp : (held w' d).Perm (r :: held w d))
    (hr : ∀ s ∈ blocks w d, r.Disjoint s) (hb : blocks w' d = r :: blocks w d) : Apart w' d where
  disjoint := by
    refine (hp.pairwise_iff fun hr => hr.symm).mpr (.cons (fun s hs => ?_) h.disjoint)
    by_cases hlen : s.len = 0
    · exact (Range.disjoint_of_len_eq_zero hlen r).symm
    · exact hr s (h.live s hs hlen)
  live s hs hlen := by
    rw [hb]
    rcases List.mem_cons.mp (hp.mem_iff.mp hs) with rfl | hs
    · exact List.mem_cons_self
    · exact List.mem_cons_of_mem _ (h.live s hs hlen)

/-- One block held no more, and freed at most. -/
theorem Apart.of_freed (h : Apart w d) {r : Range} (hp : (held w d).Perm (r :: held w' d))
    (hb : blocks w' d = (blocks w d).erase r ∨ blocks w' d = blocks w d) : Apart w' d := by
  have hpairwise := (hp.pairwise_iff fun hr => hr.symm).mp h.disjoint
  obtain ⟨hr, hrest⟩ := List.pairwise_cons.mp hpairwise
  refine ⟨hrest, fun s hs hlen => ?_⟩
  have hlive := h.live s (hp.mem_iff.mpr (.tail _ hs)) hlen
  rcases hb with hb | hb <;> rw [hb]
  · refine (List.mem_erase_of_ne ?_).mpr hlive
    rintro rfl
    exact Range.not_disjoint_self (Nat.pos_of_ne_zero hlen) (hr s hs)
  · exact hlive

/-! ## What a call on tensors does to them -/

/-- What a call does to the live blocks of device `d`, and to who holds them. A
tensor that has a part of an area for its own is never made. -/
inductive Moves (w w' : World CpuBackend) (d : Nat) : Prop
  | same : (held w d).Perm (held w' d) → blocks w' d = blocks w d → Moves w w' d
  | fresh {r : Range} : (held w' d).Perm (r :: held w d) → (∀ s ∈ blocks w d, r.Disjoint s) →
      blocks w' d = r :: blocks w d → Moves w w' d
  | freed {r : Range} : (held w d).Perm (r :: held w' d) → blocks w' d = (blocks w d).erase r →
      Moves w w' d
  | lost {r : Range} {t : Tensor CpuBackend} {buf : CpuBuffer} {ptr words : Nat} :
      t ∈ w.tensors.values → t.mem = .Alloc buf → buf.mem = .Part ptr words →
      (held w d).Perm (r :: held w' d) → blocks w' d = blocks w d → Moves w w' d

theorem Apart.of_moves (h : Apart w d) (hm : Moves w w' d) : Apart w' d := by
  cases hm with
  | same hp hb => exact h.of_perm hp hb
  | fresh hp hr hb => exact h.of_fresh hp hr hb
  | freed hp hb => exact h.of_freed hp (.inl hb)
  | lost _ _ _ hp hb => exact h.of_freed hp (.inr hb)

theorem held_setTensors {tensors : Places (Tensor CpuBackend)} :
    held (w.setTensors tensors) d = tensors.values.filterMap (tensorBlock d) ++
      (poolBlocks (w.devices d) ++ w.areas.values.filterMap (areaBlock d)) := rfl

/-- A tensor put down at a free place. -/
theorem held_insert {p : Nat} (h : w.tensors.Free p) (t : Tensor CpuBackend) :
    held (w.setTensors (w.tensors.insert p t)) d = (tensorBlock d t).toList ++ held w d := by
  rw [held_setTensors, AList.values_insert_of_free h, List.filterMap_cons, held]
  cases tensorBlock d t <;> rfl

/-- A tensor taken away. -/
theorem held_erase {p : Nat} {t : Tensor CpuBackend} (h : w.tensors.lookup p = some t) :
    (held w d).Perm ((tensorBlock d t).toList ++ held (w.setTensors (w.tensors.erase p)) d) := by
  refine (((AList.values_erase h).filterMap (tensorBlock d)).append_right _).trans ?_
  rw [List.filterMap_cons, held_setTensors]
  cases tensorBlock d t <;> exact .refl _

/-- The same tensors in other places. -/
theorem held_perm {tensors : Places (Tensor CpuBackend)}
    (h : w.tensors.values.Perm tensors.values) : (held w d).Perm (held (w.setTensors tensors) d) :=
  (h.filterMap _).append_right _

/-- A device's pool and heap changed. -/
theorem held_setDevice (d₀ : Nat) (dev : ComputeDevice CpuBackend) :
    held (w.setDevice d₀ dev) d = w.tensors.values.filterMap (tensorBlock d) ++
      (poolBlocks (if d = d₀ then dev else w.devices d) ++
        w.areas.values.filterMap (areaBlock d)) := by
  by_cases hd : d = d₀
  · subst hd
    simp [held, World.setDevice]
  · simp [held, World.setDevice, hd]

theorem blocks_setDevice (d₀ : Nat) (dev : ComputeDevice CpuBackend) :
    blocks (w.setDevice d₀ dev) d = if d = d₀ then dev.raw.heap.blocks else blocks w d := by
  by_cases hd : d = d₀
  · subst hd
    simp [blocks, World.setDevice]
  · simp [blocks, World.setDevice, hd]

/-- Only parts of areas are carved tensors' memory. -/
def OnlyParts (w : World CpuBackend) : Prop :=
  ∀ t ∈ w.tensors.values, ∀ a buf, t.mem = .Carved a buf → ∃ ptr words,
    CpuBuffer.mem buf = .Part ptr words

/-- A device that is given another pool and raw device holds what it did, but
for what the pool holds. -/
theorem held_setDevice_self (dev : ComputeDevice CpuBackend) :
    held (w.setDevice d dev) d = w.tensors.values.filterMap (tensorBlock d) ++
      (poolBlocks dev ++ w.areas.values.filterMap (areaBlock d)) := by
  rw [held_setDevice, if_pos rfl]

theorem held_setDevice_ne {d₀ : Nat} (h : d ≠ d₀) (dev : ComputeDevice CpuBackend) :
    held (w.setDevice d₀ dev) d = held w d := by
  rw [held_setDevice, if_neg h, held]

theorem alloc_moves {d₀ : Nat} {env : Allocator dangling} {p : Nat}
    {kind : DataKind} {len : Nat} (hp : w.tensors.Free p) :
    Moves w (World.alloc (B := CpuBackend) d₀ env p kind len w).2 d := by
  obtain ⟨buf, dev, hobtained, hw'⟩ := alloc_obtained d₀ env p kind len w
  rw [hw']
  have hheld := held_insert (w := w.setDevice d₀ dev) (d := d) (p := p) hp
    ⟨.Alloc buf, kind, wholeWords kind len, d₀⟩
  have hblocks := blocks_setDevice (w := w) (d := d) d₀ dev
  by_cases hd : d = d₀
  · subst hd
    rw [if_pos rfl] at hblocks
    rw [tensorBlock_alloc, if_pos rfl, held_setDevice_self] at hheld
    cases hobtained with
    | pooled hpool hraw =>
      refine .same ?_ (hblocks.trans (by rw [hraw]))
      have hpool' : (poolBlocks (w.devices d)).Perm (CpuBuffer.range buf :: poolBlocks dev) := by
        simp only [poolBlocks, BufferPool.buffers, List.map_map]
        exact hpool.map fun b => CpuBuffer.range b.2
      exact hheld ▸ ((hpool'.append_right _).append_left _).trans List.perm_middle
    | new hpool hnew =>
      refine .fresh (r := CpuBuffer.range buf) ?_ hnew.disjoint (hblocks.trans hnew.blocks)
      rw [poolBlocks, hpool] at hheld
      exact hheld ▸ .refl _
  · rw [if_neg hd] at hblocks
    rw [tensorBlock_alloc, if_neg (Ne.symm hd), held_setDevice_ne hd] at hheld
    exact .same (hheld ▸ .refl _) hblocks

theorem reserve_moves {d₀ : Nat} {env : Allocator dangling} {a bytes : Nat}
    (ha : w.areas.Free a) :
    Moves w (World.reserve (B := CpuBackend) d₀ env a bytes w).2 d := by
  obtain ⟨area, raw, hnew, -, -, hw'⟩ := reserve_new d₀ env a bytes w
  rw [hw']
  have hareas : (w.areas.insert a (⟨area, d₀⟩ : DeviceArea CpuBackend)).values.filterMap
      (areaBlock d) = (if d₀ = d then [CpuArea.range area] else []) ++
        w.areas.values.filterMap (areaBlock d) := by
    rw [AList.values_insert_of_free ha, List.filterMap_cons, areaBlock]
    by_cases hd : d₀ = d <;> simp [hd]
  have hblocks := blocks_setDevice (w := w) (d := d) d₀ { w.devices d₀ with raw }
  have hpool : poolBlocks (if d = d₀ then { w.devices d₀ with raw } else w.devices d) =
      poolBlocks (w.devices d) := by
    split
    · subst d
      rfl
    · rfl
  have hheld := held_setDevice (w := w.setAreas (w.areas.insert a ⟨area, d₀⟩)) (d := d) d₀
    { w.devices d₀ with raw }
  simp only [World.setAreas_tensors, World.setAreas_areas, World.setAreas_devices, hareas,
    hpool] at hheld
  by_cases hd : d = d₀
  · subst hd
    rw [if_pos rfl] at hblocks hheld
    refine .fresh (r := CpuArea.range area) (.trans (.of_eq hheld) ?_) hnew.disjoint
      (hblocks.trans hnew.blocks)
    refine .trans ?_ List.perm_middle
    rw [List.singleton_append]
    exact List.perm_middle.append_left _
  · rw [if_neg hd] at hblocks
    rw [if_neg (Ne.symm hd), List.nil_append] at hheld
    exact .same (.of_eq hheld.symm) hblocks

theorem carve_moves {a p : Nat} {kind : DataKind} {len : Nat}
    (ha : (TensorAct.carve (B := CpuBackend) a p kind len).Allowed w) :
    Moves w (World.carve (B := CpuBackend) a p kind len w).2 d := by
  obtain ⟨area, harea⟩ := exists_of_mem ha.1
  rcases carve_cases harea p kind len with ⟨e, he⟩ | ⟨words, -, -, he⟩
  · rw [he]
    exact .same (.refl _) rfl
  · rw [he]
    refine .same ?_ rfl
    have htensors : (w.tensors.insert p (⟨.Carved a (cut area.raw words), kind,
        wholeWords kind len, area.dev⟩ : Tensor CpuBackend)).values.filterMap (tensorBlock d) =
          w.tensors.values.filterMap (tensorBlock d) := by
      rw [AList.values_insert_of_free ha.2]
      rfl
    -- the area stays, as far as its block goes
    have hareas : (w.areas.values.filterMap (areaBlock d)).Perm ((w.areas.insert a
        (⟨rest area.raw words, area.dev⟩ : DeviceArea CpuBackend)).values.filterMap
          (areaBlock d)) := by
      rw [AList.values_insert, List.filterMap_cons]
      exact (AList.values_erase harea).filterMap _
    rw [held, ← htensors]
    exact (hareas.append_left _).append_left _

theorem dropArea_moves {a : Nat}
    (ha : (TensorAct.dropArea (B := CpuBackend) a).Allowed w) :
    Moves w (World.dropArea (B := CpuBackend) a w).2 d := by
  obtain ⟨area, harea⟩ := exists_of_mem ha.1
  rw [dropArea_run harea]
  have hareas := (AList.values_erase harea).filterMap (areaBlock d)
  rw [List.filterMap_cons, areaBlock] at hareas
  set dev : ComputeDevice CpuBackend := { w.devices area.dev with
    raw := Areable.release area.raw (w.devices area.dev).raw } with hdev
  have hheld := held_setDevice (w := w.setAreas (w.areas.erase a)) (d := d) area.dev dev
  have hblocks := blocks_setDevice (w := w.setAreas (w.areas.erase a)) (d := d) area.dev dev
  by_cases hd : d = area.dev
  · subst hd
    rw [if_pos rfl] at hheld hblocks
    rw [if_pos rfl] at hareas
    refine .freed (r := CpuArea.range area.raw) ?_ hblocks
    rw [hheld]
    refine ((hareas.append_left _).append_left _).trans ?_
    refine .trans ?_ List.perm_middle
    exact List.perm_middle.append_left _
  · rw [if_neg hd] at hheld hblocks
    rw [if_neg (Ne.symm hd)] at hareas
    exact .same (hheld ▸ (hareas.append_left _).append_left _) hblocks

theorem dropBuffer_blocks (buf : CpuBuffer) (raw : CpuBackend) :
    (CpuBackend.dropBuffer buf raw).heap.blocks = raw.heap.blocks.erase buf.range ∨
      (∃ ptr words, buf.mem = .Part ptr words) ∧
        (CpuBackend.dropBuffer buf raw).heap.blocks = raw.heap.blocks := by
  unfold CpuBackend.dropBuffer
  split
  · exact .inl rfl
  · rename_i ptr words hm
    exact .inr ⟨⟨ptr, words, hm⟩, rfl⟩

/-- A dropped tensor's block goes to the pool or is freed; a part's stays the area's. -/
theorem dropTensor_moves (hparts : OnlyParts w) {p : Nat}
    (ha : (TensorAct.dropTensor (B := CpuBackend) p).Allowed w) :
    Moves w (World.dropTensor (B := CpuBackend) p w).2 d := by
  obtain ⟨t, ht⟩ := exists_of_mem ha.1
  rw [dropTensor_run ht]
  have htensors := held_erase (d := d) ht
  have hheld := held_setDevice (w := w.setTensors (w.tensors.erase p)) (d := d) t.dev
    (t.drop (w.devices t.dev)).2
  have hblocks := blocks_setDevice (w := w.setTensors (w.tensors.erase p)) (d := d) t.dev
    (t.drop (w.devices t.dev)).2
  by_cases hd : d = t.dev
  · subst hd
    rw [if_pos rfl] at hheld hblocks
    rcases tensorDrop_cases t (w.devices t.dev) with
      ⟨buf, pool, hm, hpool, hdrop⟩ | ⟨buf, hm, hdrop⟩ | ⟨a, buf, hm, hdrop⟩ <;>
      rw [hdrop] at hheld hblocks <;> rw [hdrop]
    · refine .same (htensors.trans ?_) hblocks
      rw [hheld, tensorBlock, hm]
      simp only [poolBlocks, BufferPool.buffers, hpool, List.map_cons, if_true,
        Option.toList_some, List.cons_append, List.nil_append]
      exact List.perm_middle.symm
    · rw [tensorBlock, hm] at htensors
      simp only [if_true, Option.toList_some, List.singleton_append] at htensors
      have hsame := htensors.trans (.cons _ (.of_eq hheld.symm))
      rcases dropBuffer_blocks buf (w.devices t.dev).raw with hb | ⟨⟨ptr, words, hpart⟩, hb⟩
      · exact .freed hsame (hblocks.trans hb)
      · exact .lost (AList.mem_values.mpr ⟨p, ht⟩) hm hpart hsame (hblocks.trans hb)
    · obtain ⟨ptr, words, hpart⟩ :=
        hparts t (AList.mem_values.mpr ⟨p, ht⟩) a buf hm
      refine .same (htensors.trans ?_) ?_
      · rw [hheld, tensorBlock, hm]
        exact .refl _
      · rw [hblocks]
        simp only [Storage.dropBuffer, CpuBackend.dropBuffer, hpart]
  · rw [if_neg hd] at hheld hblocks
    refine .same (htensors.trans ?_) hblocks
    have hnone : tensorBlock d t = none := by
      unfold tensorBlock
      split
      · exact if_neg (Ne.symm hd)
      · rfl
    rw [hheld, hnone]
    exact .refl _

/-- **All that a call on tensors does to the blocks.** -/
theorem TensorAct.moves (hparts : OnlyParts w) {a : TensorAct CpuBackend} (ha : a.Allowed w) :
    Moves w (a.run w).2 d := by
  cases a with
  | alloc d₀ env p kind len =>
    rw [TensorAct.run, silent_world]
    exact alloc_moves ha
  | reserve d₀ env a bytes =>
    rw [TensorAct.run, silent_world]
    exact reserve_moves ha
  | carve a p kind len =>
    rw [TensorAct.run, silent_world]
    exact carve_moves ha
  | dropArea a =>
    rw [TensorAct.run, silent_world]
    exact dropArea_moves ha
  | dropTensor p =>
    rw [TensorAct.run, silent_world]
    exact dropTensor_moves hparts ha
  | moveTensor p q =>
    obtain ⟨t, ht⟩ := exists_of_mem ha.1.1
    exact .same (held_perm (AList.values_move ht (.inr ha.2))) rfl
  | replaceTensor p q =>
    obtain ⟨t, ht⟩ := exists_of_mem ha.2.1.1
    obtain ⟨t', ht'⟩ := exists_of_mem ha.2.2.1
    rw [TensorAct.run, silent_world, replaceTensor_run ht ht']
    split
    · exact .same (held_perm (AList.values_swap ht ht')) rfl
    · exact .same (.refl _) rfl
    · exact .same (.refl _) rfl

/-- **Calls on tensors keep the blocks apart.** -/
theorem TensorAct.apart (h : Apart w d) (hparts : OnlyParts w) {a : TensorAct CpuBackend}
    (ha : a.Allowed w) : Apart (a.run w).2 d := h.of_moves (TensorAct.moves hparts ha)

end Wilupgu.Memory
