import Mathlib.Algebra.Order.BigOperators.Group.List
import Wilupgu.Memory.Addresses

/-! # Nothing leaks

The live blocks of a device are those that its tensors, its areas and its pool
hold, each of them once. So a block that nothing holds any more was freed, and
no block is freed twice. The pool counts the bytes it keeps. -/

namespace Wilupgu.Memory

open Backend Backends ByteMemory Call Rounding Transition

variable {w w' : World CpuBackend} {d : Nat} {poolBytes : Nat → Nat}

/-! ## Live blocks and who holds them -/

/-- Each live block is held once, and nothing else is. -/
def Balanced (w : World CpuBackend) (d : Nat) : Prop := (held w d).Perm (blocks w d)

/-- No tensor has a part of an area for its own. -/
theorem Seated.owned (h : Seated w) {t : Tensor CpuBackend} {buf : CpuBuffer} {ptr words : Nat}
    (ht : t ∈ w.tensors.values) (hm : t.mem = .Alloc buf) : buf.mem ≠ .Part ptr words := by
  obtain ⟨ptr', words', hmem, -⟩ := h.tensor t ht buf hm
  rw [hmem]
  exact nofun

theorem Balanced.of_moves (h : Balanced w d) (hseat : Seated w) (hm : Moves w w' d) :
    Balanced w' d := by
  cases hm with
  | same hp hb => exact hp.symm.trans (hb ▸ h)
  | fresh hp _ hb => exact hp.trans (hb ▸ h.cons _)
  | freed hp hb =>
    rename_i r
    have hcons := (hp.symm.trans h).erase r
    rw [List.erase_cons_head] at hcons
    rw [Balanced, hb]
    exact hcons
  | lost ht hm hpart _ _ => exact absurd hpart (hseat.owned ht hm)

theorem Balanced.step {e : Event CpuBackend} (h : Balanced w d) (hw : Established w)
    (hs : w.Step e w') : Balanced w' d := by
  obtain ⟨ha, hr⟩ := hs
  rcases e with ⟨act, out⟩
  obtain rfl : (act.perform w).2 = w' := congrArg Prod.snd hr
  have kept : (act.perform w).2.tensors = w.tensors → (act.perform w).2.areas = w.areas →
      w.Devices (Beside SameBlocks) (act.perform w).2 → Balanced (act.perform w).2 d := by
    intro ht hareas hdevices
    obtain ⟨hpool, hblocks, -⟩ := hdevices d
    have hheld : held (act.perform w).2 d = held w d := by
      rw [held, held, poolBlocks, poolBlocks, ht, hareas, hpool]
    rw [Balanced, hheld, blocks, hblocks]
    exact h
  cases act with
  | tensor act => exact h.of_moves hw.seated (TensorAct.moves hw.laid.parts ha)
  | memory act =>
    obtain ⟨hf, hd⟩ := MemoryAct.keeps frame_sameBlocks memory_sameBlocks act w
    exact kept hf.tensors hf.areas hd
  | node act =>
    obtain ⟨hf, hd⟩ := NodeAct.keeps frame_sameBlocks nodes_sameBlocks act w
    exact kept hf.tensors hf.areas hd
  | scope act =>
    obtain ⟨hf, hd⟩ := ScopeAct.keeps frame_sameBlocks memory_sameBlocks.synchronize act w
    exact kept hf.tensors hf.areas hd
  | run act =>
    obtain ⟨hf, hd⟩ := RunAct.keeps frame_sameBlocks runs_sameBlocks act w
    exact kept hf.tensors hf.areas hd

theorem balanced {w : World CpuBackend} (h : World.Reachable CpuBackend.attach poolBytes w)
    (d : Nat) : Established w ∧ Balanced w d :=
  Transition.Reachable.invariant (I := fun w : World CpuBackend => Established w ∧ Balanced w d) h
    ⟨.init poolBytes, .refl _⟩ fun _ _ _ h hs => ⟨h.1.step hs, h.2.step h.1 hs⟩

/-- A tensor's bytes are in a live block. -/
theorem Balanced.tensor (h : Balanced w d) (hw : Established w) {p : Nat} {t : Tensor CpuBackend}
    (ht : w.tensors.lookup p = some t) (hd : t.dev = d) :
    ∃ r ∈ blocks w d, (CpuBuffer.range t.raw).Within r := by
  rcases hm : t.mem with buf | ⟨a, buf⟩ <;> rw [Tensor.raw, hm]
  · refine ⟨CpuBuffer.range buf, h.mem_iff.mp (List.mem_append_left _ ?_), .refl _⟩
    refine List.mem_filterMap.mpr ⟨t, AList.mem_values.mpr ⟨p, ht⟩, ?_⟩
    rw [tensorBlock, hm]
    exact if_pos hd
  · obtain ⟨area, harea, hdev, hwithin⟩ := hw.laid.carved_within hw.valid ht hm
    refine ⟨CpuArea.range area.raw, h.mem_iff.mp (List.mem_append_right _ ?_), hwithin⟩
    exact List.mem_append_right _ (areaBlock_mem harea (hdev.trans hd))

/-- Nothing on device `d` is in use. -/
structure Idle (w : World CpuBackend) (d : Nat) : Prop where
  tensors : ∀ t ∈ w.tensors.values, t.dev ≠ d
  areas : ∀ area ∈ w.areas.values, area.dev ≠ d

theorem idle_of_nothing (ht : w.tensors.values = []) (ha : w.areas.values = []) (d : Nat) :
    Idle w d := by
  refine ⟨fun t h => ?_, fun area h => ?_⟩
  · rw [ht] at h
    cases h
  · rw [ha] at h
    cases h

theorem Idle.held (h : Idle w d) : held w d = poolBlocks (w.devices d) := by
  have htensors : w.tensors.values.filterMap (tensorBlock d) = [] := by
    refine List.filterMap_eq_nil_iff.mpr fun t ht => ?_
    unfold tensorBlock
    split
    · exact if_neg (h.tensors t ht)
    · rfl
  have hareas : w.areas.values.filterMap (areaBlock d) = [] :=
    List.filterMap_eq_nil_iff.mpr fun area harea => if_neg (h.areas area harea)
  rw [Memory.held, htensors, hareas, List.nil_append, List.append_nil]

/-- **Nothing leaks, and nothing is freed twice**: whatever a program has done, a
device's live blocks are those that its tensors, its areas and its pool hold,
each once, and every tensor's bytes are in a live block. On a device that isn't
in use, only what the pool keeps is live. -/
theorem live_blocks_are_held {w : World CpuBackend}
    (h : World.Reachable CpuBackend.attach poolBytes w) (d : Nat) :
    (held w d).Perm (blocks w d) ∧
    (∀ p t, w.tensors.lookup p = some t → t.dev = d →
      ∃ r ∈ blocks w d, (CpuBuffer.range t.raw).Within r) ∧
    (Idle w d → (poolBlocks (w.devices d)).Perm (blocks w d)) := by
  obtain ⟨hw, hbalanced⟩ := balanced h d
  exact ⟨hbalanced, fun p t ht hd => hbalanced.tensor hw ht hd,
    fun hidle => hidle.held ▸ hbalanced⟩

/-! ## What the pool keeps -/

/-- What a call does to the pool of device `d`. -/
inductive PoolMoves (w w' : World CpuBackend) (d : Nat) : Prop
  | same : (w'.devices d).pool = (w.devices d).pool → PoolMoves w w' d
  | taken {kind : DataKind} {len : Nat} {buf : CpuBuffer} :
      (w.devices d).pool.take CpuBuffer.bytes kind len = (some buf, (w'.devices d).pool) →
      PoolMoves w w' d
  | recycled {t : Tensor CpuBackend} {buf : CpuBuffer} {back : Option CpuBuffer} :
      t ∈ w.tensors.values → t.dev = d → t.mem = .Alloc buf →
      (w.devices d).pool.recycle CpuBuffer.bytes t.kind t.len buf =
        (back, (w'.devices d).pool) → PoolMoves w w' d

theorem pool_setDevice (w : World CpuBackend) (d₀ : Nat) (dev : ComputeDevice CpuBackend)
    (d : Nat) : ((w.setDevice d₀ dev).devices d).pool =
      if d = d₀ then dev.pool else (w.devices d).pool := by
  by_cases hd : d = d₀
  · subst hd
    simp [World.setDevice]
  · simp [World.setDevice, hd]

theorem alloc_pool {d₀ p : Nat} (env : Allocator dangling) (kind : DataKind) (len : Nat) :
    PoolMoves w (World.alloc (B := CpuBackend) d₀ env p kind len w).2 d := by
  have hsupported : Rules.supportedKind (w.devices d₀).raw kind = .ok () := rfl
  have halloc : ∀ {buf dev}, ComputeDevice.allocBuffer (B := CpuBackend) env kind
      (wholeWords kind len) (w.devices d₀) = (.ok buf, dev) →
      ((World.alloc (B := CpuBackend) d₀ env p kind len w).2.devices d).pool =
        if d = d₀ then dev.pool else (w.devices d).pool := by
    intro buf dev hbuffer
    rw [alloc_run, ComputeDevice.alloc, bind_of_ok (get_run _), hsupported, check_run]
    simp only
    rw [bind_of_ok hbuffer]
    exact pool_setDevice w d₀ dev d
  rcases allocBuffer_cases env kind (wholeWords kind len) (w.devices d₀) with
    ⟨buf, pool, htake, hbuffer⟩ | ⟨-, hbuffer⟩
  · have hpool := halloc hbuffer
    split at hpool
    · subst d
      have htaken : (w.devices d₀).pool.take CpuBuffer.bytes kind (wholeWords kind len) =
          (some buf, ((World.alloc (B := CpuBackend) d₀ env p kind len w).2.devices d₀).pool) := by
        rw [hpool]
        exact htake
      exact .taken htaken
    · exact .same hpool
  · refine .same ((halloc hbuffer).trans ?_)
    split
    · subst d
      rfl
    · rfl

theorem tensorDrop_pool (t : Tensor CpuBackend) (dev : ComputeDevice CpuBackend) :
    (t.drop dev).2.pool = match t.mem with
      | .Alloc buf => (dev.pool.recycle CpuBuffer.bytes t.kind t.len buf).2
      | .Carved _ _ => dev.pool := by
  rw [Tensor.drop, modify_run]
  rcases t.mem with buf | ⟨a, buf⟩
  · simp only [Storage.sizeBytes]
    rcases dev.pool.recycle CpuBuffer.bytes t.kind t.len buf with ⟨_ | _, _⟩ <;> rfl
  · rfl

theorem dropTensor_pool {p : Nat} {t : Tensor CpuBackend} (ht : w.tensors.lookup p = some t) :
    PoolMoves w (World.dropTensor (B := CpuBackend) p w).2 d := by
  have hpool := pool_setDevice (w.setTensors (w.tensors.erase p)) t.dev
    (t.drop (w.devices t.dev)).2 d
  rw [dropTensor_run ht]
  split at hpool
  · subst d
    rw [tensorDrop_pool] at hpool
    rcases hm : t.mem with buf | ⟨a, buf⟩ <;> rw [hm] at hpool
    · exact .recycled (AList.mem_values.mpr ⟨p, ht⟩) rfl hm (Prod.ext rfl hpool.symm)
    · exact .same hpool
  · exact .same hpool

theorem pool_step {e : Event CpuBackend} (hs : w.Step e w') : PoolMoves w w' d := by
  obtain ⟨ha, hr⟩ := hs
  rcases e with ⟨act, out⟩
  obtain rfl : (act.perform w).2 = w' := congrArg Prod.snd hr
  cases act with
  | tensor act =>
    cases act with
    | alloc d₀ env p kind len =>
      rw [Act.perform, TensorAct.run, silent_world]
      exact alloc_pool env kind len
    | reserve d₀ env a bytes =>
      rw [Act.perform, TensorAct.run, silent_world, reserve_run]
      refine .same ((pool_setDevice w d₀ _ d).trans ?_)
      split
      · subst d
        rfl
      · rfl
    | carve a p kind len =>
      obtain ⟨area, harea⟩ := exists_of_mem ha.1
      rw [Act.perform, TensorAct.run, silent_world]
      rcases carve_cases harea p kind len with ⟨e, he⟩ | ⟨words, -, -, he⟩ <;> rw [he] <;>
        exact .same rfl
    | dropArea a =>
      obtain ⟨area, harea⟩ := exists_of_mem ha.1
      rw [Act.perform, TensorAct.run, silent_world, dropArea_run harea]
      refine .same ((pool_setDevice (w.setAreas _) area.dev _ d).trans ?_)
      split
      · subst d
        rfl
      · rfl
    | dropTensor p =>
      obtain ⟨t, ht⟩ := exists_of_mem ha.1
      rw [Act.perform, TensorAct.run, silent_world]
      exact dropTensor_pool ht
    | moveTensor p q => exact .same rfl
    | replaceTensor p q =>
      obtain ⟨t, ht⟩ := exists_of_mem ha.2.1.1
      obtain ⟨t', ht'⟩ := exists_of_mem ha.2.2.1
      rw [Act.perform, TensorAct.run, silent_world, replaceTensor_run ht ht']
      split <;> exact .same rfl
  | memory act => exact .same ((MemoryAct.keeps frame_sameBlocks memory_sameBlocks act w).2 d).1
  | node act => exact .same ((NodeAct.keeps frame_sameBlocks nodes_sameBlocks act w).2 d).1
  | scope act =>
    exact .same ((ScopeAct.keeps frame_sameBlocks memory_sameBlocks.synchronize act w).2 d).1
  | run act => exact .same ((RunAct.keeps frame_sameBlocks runs_sameBlocks act w).2 d).1

/-- The bytes of device `d`'s live blocks. -/
def liveBytes (w : World CpuBackend) (d : Nat) : Nat := ((blocks w d).map Range.len).sum

theorem Balanced.sum (h : Balanced w d) :
    ((held w d).map Range.len).sum = liveBytes w d := (h.map Range.len).sum_eq

theorem sum_poolBlocks (dev : ComputeDevice CpuBackend) :
    ((poolBlocks dev).map Range.len).sum = (dev.pool.buffers.map CpuBuffer.bytes).sum := by
  rw [poolBlocks, List.map_map]
  rfl

/-- What the pool keeps is live, and so is a tensor's own block besides. -/
theorem Balanced.pool_le (h : Balanced w d) :
    ((w.devices d).pool.buffers.map CpuBuffer.bytes).sum ≤ liveBytes w d := by
  rw [← h.sum, held, List.map_append, List.sum_append, List.map_append, List.sum_append,
    sum_poolBlocks]
  omega

theorem Balanced.pool_add_le (h : Balanced w d) {t : Tensor CpuBackend} {buf : CpuBuffer}
    (ht : t ∈ w.tensors.values) (hd : t.dev = d) (hm : t.mem = .Alloc buf) :
    ((w.devices d).pool.buffers.map CpuBuffer.bytes).sum + buf.bytes ≤ liveBytes w d := by
  have hmem : CpuBuffer.range buf ∈ w.tensors.values.filterMap (tensorBlock d) := by
    refine List.mem_filterMap.mpr ⟨t, ht, ?_⟩
    rw [tensorBlock, hm]
    exact if_pos hd
  have hle : buf.bytes ≤ ((w.tensors.values.filterMap (tensorBlock d)).map Range.len).sum :=
    List.single_le_sum (fun _ _ => Nat.zero_le _) _ (List.mem_map_of_mem (f := Range.len) hmem)
  rw [← h.sum, held, List.map_append, List.sum_append, List.map_append, List.sum_append,
    sum_poolBlocks]
  omega

/-- The pool of device `d` counts rightly, and may keep what it could at first. -/
structure PoolCounts (poolBytes : Nat → Nat) (w : World CpuBackend) (d : Nat) : Prop where
  counts : (w.devices d).pool.Counts CpuBuffer.bytes
  limit : (w.devices d).pool.maxFreeBytes = poolBytes d

theorem PoolCounts.step {e : Event CpuBackend} (h : PoolCounts poolBytes w d)
    (hb : Balanced w d) (hlt : liveBytes w d < Rounding.limit) (hs : w.Step e w') :
    PoolCounts poolBytes w' d := by
  have hbytes := h.counts.bytes
  cases pool_step (d := d) hs with
  | same hpool => exact ⟨hpool ▸ h.counts, hpool ▸ h.limit⟩
  | taken htake =>
    have hpool := hb.pool_le
    obtain ⟨hcounts, hmax⟩ := h.counts.take _ (by omega) htake
    exact ⟨hcounts, hmax.trans h.limit⟩
  | recycled ht hd hm hrecycle =>
    have hpool := hb.pool_add_le ht hd hm
    obtain ⟨hcounts, hmax⟩ := h.counts.recycle _ (by omega) hrecycle
    exact ⟨hcounts, hmax.trans h.limit⟩

/-- **An idle device keeps no more than its pool may**: as long as a device's
live blocks are less than 64 bits can count, its pool counts the bytes it keeps
and keeps at most what it was opened with. Once all tensors and areas of the
device are dropped, that is all of the device's memory. -/
theorem idle_device_keeps_what_its_pool_may {es : List (Event CpuBackend)}
    (hr : Runs (Where World.Step fun w _ => liveBytes w d < Rounding.limit)
      (World.init CpuBackend.attach poolBytes) es w) :
    (w.devices d).pool.bytes = ((poolBlocks (w.devices d)).map Range.len).sum ∧
    (w.devices d).pool.bytes ≤ poolBytes d ∧ (Idle w d → liveBytes w d ≤ poolBytes d) := by
  obtain ⟨hw, hb, hpool⟩ : Established w ∧ Balanced w d ∧ PoolCounts poolBytes w d :=
    hr.preserves (I := fun w => Established w ∧ Balanced w d ∧ PoolCounts poolBytes w d)
      (fun _ _ _ h hs => ⟨h.1.step hs.1, h.2.1.step h.1 hs.1, h.2.2.step h.2.1 hs.2 hs.1⟩)
      ⟨.init poolBytes, .refl _, .new _ _, rfl⟩
  have hbounded : (w.devices d).pool.bytes ≤ poolBytes d := hpool.limit ▸ hpool.counts.bounded
  have hsum := hpool.counts.bytes.trans (sum_poolBlocks _).symm
  refine ⟨hsum, hbounded, fun hidle => ?_⟩
  rw [← hb.sum, hidle.held, ← hsum]
  exact hbounded

namespace Sample

open Backends.Sample

/-- Two tensors of which the pool keeps the first one's block. -/
def twoDropped : List (Act CpuBackend) :=
  [.tensor (.alloc 0 env 0 .F32 2), .tensor (.alloc 0 env 1 .F32 1), .tensor (.dropTensor 0),
    .tensor (.dropTensor 1)]

end Sample

/-- What is left of both tensors is the first one's block. -/
theorem dropped_block_is_pooled : ∃ w : World CpuBackend, Idle w 0 ∧
    (poolBlocks (w.devices 0)).Perm (blocks w 0) ∧ (blocks w 0).length = 1 := by
  obtain ⟨es, w, hplay, htensors, hareas, hlength⟩ : ∃ es w,
      (World.init CpuBackend.attach fun _ => 8).play (fun _ _ => True) Sample.twoDropped =
        some (es, w) ∧ w.tensors.values = [] ∧ w.areas.values = [] ∧ (blocks w 0).length = 1 :=
    ⟨_, _, rfl, rfl, rfl, rfl⟩
  have hidle := idle_of_nothing htensors hareas 0
  have hreach : World.Reachable CpuBackend.attach (fun _ => 8) w :=
    ⟨es, (World.runs_of_play hplay).of_where⟩
  exact ⟨w, hidle, (live_blocks_are_held hreach 0).2.2 hidle, hlength⟩

theorem dropped_device_keeps_eight_bytes : ∃ w : World CpuBackend, Idle w 0 ∧
    liveBytes w 0 = 8 ∧ liveBytes w 0 ≤ 8 := by
  obtain ⟨es, w, hplay, htensors, hareas, hlive⟩ : ∃ es w,
      (World.init CpuBackend.attach fun _ => 8).play
        (fun w _ => liveBytes w 0 < Rounding.limit) Sample.twoDropped = some (es, w) ∧
      w.tensors.values = [] ∧ w.areas.values = [] ∧ liveBytes w 0 = 8 :=
    ⟨_, _, rfl, rfl, rfl, rfl⟩
  have hidle := idle_of_nothing htensors hareas 0
  exact ⟨w, hidle, hlive,
    (idle_device_keeps_what_its_pool_may (World.runs_of_play hplay)).2.2 hidle⟩

end Wilupgu.Memory
