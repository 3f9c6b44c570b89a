import Wilupgu.Safe.Valid

/-! # Where tensors and pooled buffers come from

A tensor there is after a call on tensors was there before, or the call made
it. What a pool keeps after a call it kept before, or a dropped tensor had it.
An invariant about every tensor and buffer has only these to look at. -/

namespace Wilupgu

open Backend Call

variable {B : Type} [Storage B] [Dispatch B] [Capturable B] [Areable B] [Topology B] {w w' : World B}

/-- The tensor that a call makes. -/
inductive Made (w : World B) : TensorAct B → Tensor B → Prop
  | alloc {d env p kind len t dev} :
      ComputeDevice.alloc d env kind len (w.devices d) = (.ok t, dev) →
      Made w (.alloc d env p kind len) t
  | carve {a p kind len area t area' dev} : w.areas.lookup a = some area →
      area.alloc a kind len (w.devices area.dev) = (.ok (t, area'), dev) →
      Made w (.carve a p kind len) t

theorem TensorAct.made {a : TensorAct B} (ha : a.Allowed w) {t : Tensor B}
    (h : t ∈ (a.run w).2.tensors.values) : t ∈ w.tensors.values ∨ Made w a t := by
  cases a with
  | alloc d env p kind len =>
    rw [TensorAct.run, silent_world, alloc_run] at h
    split at h
    · rename_i t' dev ht
      rw [World.setTensors_tensors, AList.values_insert_of_free ha] at h
      rcases List.mem_cons.mp h with rfl | h
      · exact .inr (.alloc ht)
      · exact .inl h
    · exact .inl h
    · exact .inl h
  | reserve d env a bytes => exact .inl h
  | carve a p kind len =>
    obtain ⟨area, harea⟩ := exists_of_mem ha.1
    rw [TensorAct.run, silent_world, carve_run harea] at h
    split at h
    · rename_i t' area' dev ht
      rw [World.setAreas_tensors, World.setTensors_tensors,
        AList.values_insert_of_free ha.2] at h
      rcases List.mem_cons.mp h with rfl | h
      · exact .inr (.carve harea ht)
      · exact .inl h
    · exact .inl h
    · exact .inl h
  | dropArea a =>
    obtain ⟨area, harea⟩ := exists_of_mem ha.1
    rw [TensorAct.run, silent_world, dropArea_run harea] at h
    exact .inl h
  | dropTensor p =>
    obtain ⟨t', ht'⟩ := exists_of_mem ha.1
    rw [TensorAct.run, silent_world, dropTensor_run ht'] at h
    exact .inl ((AList.values_erase ht').mem_iff.mpr (.tail _ h))
  | moveTensor p q =>
    obtain ⟨t', ht'⟩ := exists_of_mem ha.1.1
    exact .inl ((AList.values_move ht' (.inr ha.2)).mem_iff.mpr h)
  | replaceTensor p q =>
    obtain ⟨t₁, ht₁⟩ := exists_of_mem ha.2.1.1
    obtain ⟨t₂, ht₂⟩ := exists_of_mem ha.2.2.1
    rw [TensorAct.run, silent_world, replaceTensor_run ht₁ ht₂] at h
    split at h
    · exact .inl ((AList.values_swap ht₁ ht₂).mem_iff.mpr h)
    · exact .inl h
    · exact .inl h

/-- A tensor there is after a step was there before, or a call made it. -/
theorem made_step {e : Event B} (h : w.Step e w') {t : Tensor B} (ht : t ∈ w'.tensors.values) :
    t ∈ w.tensors.values ∨ ∃ a, e.act = .tensor a ∧ Made w a t := by
  obtain ⟨ha, hr⟩ := h
  rcases e with ⟨a, out⟩
  obtain rfl : (a.perform w).2 = w' := congrArg Prod.snd hr
  cases a with
  | tensor a => exact (TensorAct.made ha ht).imp_right fun hm => ⟨a, rfl, hm⟩
  | memory a => exact .inl ((MemoryAct.keeps frame_any memory_any a w).1.tensors ▸ ht)
  | node a => exact .inl ((NodeAct.keeps frame_any nodes_any a w).1.tensors ▸ ht)
  | scope a => exact .inl ((ScopeAct.keeps frame_any memory_any.synchronize a w).1.tensors ▸ ht)
  | run a => exact .inl ((RunAct.keeps frame_any runs_any a w).1.tensors ▸ ht)

/-! ## Pooled buffers -/

/-- The pool keeps no more than it did. -/
def Drained (dev dev' : ComputeDevice B) : Prop := dev'.pool.blocks ⊆ dev.pool.blocks

omit [Dispatch B] [Capturable B] [Areable B] [Topology B] in
theorem frame_drained : Frame (Drained (B := B)) :=
  ⟨fun _ => List.Subset.refl _, fun h h' => List.Subset.trans h' h⟩

omit [Dispatch B] [Capturable B] [Areable B] [Topology B] in
theorem allocBuffer_drained (env : Storage.Env B) (kind : DataKind) (len : Nat) :
    Keeps Drained (ComputeDevice.allocBuffer env kind len) := by
  have hF := frame_drained (B := B)
  have htake : Keeps Drained (ComputeDevice.takePooled (B := B) kind len) := by
    intro dev
    change (dev.pool.take Storage.sizeBytes kind len).2.blocks ⊆ dev.pool.blocks
    rcases h : dev.pool.take Storage.sizeBytes kind len with ⟨_ | buf, pool⟩
    · obtain rfl := BufferPool.take_none _ h
      exact List.Subset.refl _
    · exact fun b hb => (BufferPool.take_some _ h).mem_iff.mpr (.tail _ hb)
  have hraw : ∀ bytes, Keeps Drained (onRaw (Storage.allocRaw (B := B) env bytes)) :=
    fun bytes dev => List.Subset.refl _
  refine hF.bind htake fun pooled => ?_
  cases pooled with
  | some buf => exact hF.pure buf
  | none =>
    refine hF.bind (keeps_attempt (hraw _)) fun first => ?_
    cases first with
    | ok buf => exact hF.pure buf
    | error e =>
      exact hF.bind (keeps_modify fun dev => List.nil_subset _) fun _ => keeps_mapErr (hraw _)

omit [Dispatch B] [Capturable B] [Areable B] in
theorem deviceAlloc_drained (id : Nat) (env : Storage.Env B) (kind : DataKind) (len : Nat) :
    Keeps Drained (ComputeDevice.alloc id env kind len) :=
  have hF := frame_drained (B := B)
  hF.get_bind fun _ => hF.lift_bind fun _ =>
    hF.bind (allocBuffer_drained env kind _) fun _ => hF.pure _

/-- The pool of device `d`. -/
abbrev pooled (w : World B) (d : Nat) : List (Key × Storage.Buffer B) :=
  (w.devices d).pool.blocks

omit [Topology B] in
theorem pooled_setDevice (w : World B) (d₀ : Nat) (dev : ComputeDevice B) (d : Nat) :
    pooled (w.setDevice d₀ dev) d = if d = d₀ then dev.pool.blocks else pooled w d := by
  by_cases hd : d = d₀
  · subst hd
    simp [pooled]
  · simp [pooled, hd]

/-- A buffer a pool keeps after a call on tensors it kept before, or a dropped
tensor of the device had it. -/
theorem TensorAct.pooled {a : TensorAct B} (ha : a.Allowed w) {d : Nat}
    {b : Key × Storage.Buffer B} (h : b ∈ pooled (a.run w).2 d) : b ∈ pooled w d ∨
      ∃ t ∈ w.tensors.values, ∃ buf, t.dev = d ∧ t.mem = .Alloc buf ∧
        b = ((t.kind, t.len), buf) := by
  have same : ∀ {d₀} (dev : ComputeDevice B), dev.pool.blocks ⊆ Wilupgu.pooled w d₀ →
      b ∈ (if d = d₀ then dev.pool.blocks else Wilupgu.pooled w d) → b ∈ Wilupgu.pooled w d := by
    intro d₀ dev hsub hb
    split at hb
    · subst d
      exact hsub hb
    · exact hb
  cases a with
  | alloc d₀ env p kind len =>
    have hdrained := deviceAlloc_drained d₀ env kind len (w.devices d₀)
    rw [TensorAct.run, silent_world, alloc_run] at h
    refine .inl ?_
    split at h <;> rename_i halloc <;> rw [halloc] at hdrained
    · exact same _ hdrained ((pooled_setDevice w d₀ _ d) ▸ h)
    · exact same _ hdrained ((pooled_setDevice w d₀ _ d) ▸ h)
    · exact same _ hdrained ((pooled_setDevice w d₀ _ d) ▸ h)
  | reserve d₀ env a bytes =>
    rw [TensorAct.run, silent_world, reserve_run] at h
    refine .inl (same { w.devices d₀ with
      raw := (Areable.reserve env bytes (w.devices d₀).raw).2 } (List.Subset.refl _) ?_)
    exact (pooled_setDevice w d₀ _ d) ▸ h
  | carve a p kind len =>
    obtain ⟨area, harea⟩ := exists_of_mem ha.1
    have hpool : ((area.alloc a kind len (w.devices area.dev)).2).pool =
        (w.devices area.dev).pool := by
      have hF := frame_eq (ComputeDevice.pool (B := B))
      have hkeeps : Keeps (fun dev dev' : ComputeDevice B => dev'.pool = dev.pool)
          (area.alloc a kind len) :=
        hF.get_bind fun _ => hF.lift_bind fun _ => hF.bind (fun _ => rfl) fun _ => hF.pure _
      exact hkeeps _
    rw [TensorAct.run, silent_world, carve_run harea] at h
    refine .inl ?_
    split at h <;> rename_i halloc <;> rw [halloc] at hpool
    · exact same _ (hpool ▸ List.Subset.refl _) ((pooled_setDevice w area.dev _ d) ▸ h)
    · exact same _ (hpool ▸ List.Subset.refl _) ((pooled_setDevice w area.dev _ d) ▸ h)
    · exact same _ (hpool ▸ List.Subset.refl _) ((pooled_setDevice w area.dev _ d) ▸ h)
  | dropArea a =>
    obtain ⟨area, harea⟩ := exists_of_mem ha.1
    rw [TensorAct.run, silent_world, dropArea_run harea] at h
    refine .inl (same { w.devices area.dev with
      raw := Areable.release area.raw (w.devices area.dev).raw } (List.Subset.refl _) ?_)
    exact (pooled_setDevice (w.setAreas _) area.dev _ d) ▸ h
  | dropTensor p =>
    obtain ⟨t, ht⟩ := exists_of_mem ha.1
    rw [TensorAct.run, silent_world, dropTensor_run ht] at h
    have h' := (pooled_setDevice (w.setTensors (w.tensors.erase p)) t.dev
      (t.drop (w.devices t.dev)).2 d) ▸ h
    rcases tensorDrop_cases t (w.devices t.dev) with
      ⟨buf, pool, hm, hpool, hdrop⟩ | ⟨buf, hm, hdrop⟩ | ⟨a, buf, hm, hdrop⟩ <;> rw [hdrop] at h'
    · split at h'
      · subst d
        rw [hpool] at h'
        rcases List.mem_cons.mp h' with rfl | h'
        · exact .inr ⟨t, AList.mem_values.mpr ⟨p, ht⟩, buf, rfl, hm, rfl⟩
        · exact .inl h'
      · exact .inl h'
    · exact .inl (same { w.devices t.dev with
        raw := Storage.dropBuffer buf (w.devices t.dev).raw } (List.Subset.refl _) h')
    · exact .inl (same { w.devices t.dev with
        raw := Storage.dropBuffer buf (w.devices t.dev).raw } (List.Subset.refl _) h')
  | moveTensor p q => exact .inl h
  | replaceTensor p q =>
    obtain ⟨t₁, ht₁⟩ := exists_of_mem ha.2.1.1
    obtain ⟨t₂, ht₂⟩ := exists_of_mem ha.2.2.1
    rw [TensorAct.run, silent_world, replaceTensor_run ht₁ ht₂] at h
    split at h <;> exact .inl h

/-- A buffer a pool keeps after a step it kept before, or a tensor of the
device had it. -/
theorem pooled_step {e : Event B} (h : w.Step e w') {d : Nat} {b : Key × Storage.Buffer B}
    (hb : b ∈ pooled w' d) : b ∈ pooled w d ∨
      ∃ t ∈ w.tensors.values, ∃ buf, t.dev = d ∧ t.mem = .Alloc buf ∧
        b = ((t.kind, t.len), buf) := by
  obtain ⟨ha, hr⟩ := h
  rcases e with ⟨a, out⟩
  obtain rfl : (a.perform w).2 = w' := congrArg Prod.snd hr
  have kept : ((a.perform w).2.devices d).pool = (w.devices d).pool → b ∈ pooled w d := by
    intro h
    rw [pooled, h] at hb
    exact hb
  cases a with
  | tensor a => exact TensorAct.pooled ha hb
  | memory a => exact .inl (kept ((MemoryAct.keeps frame_any memory_any a w).2 d).1)
  | node a => exact .inl (kept ((NodeAct.keeps frame_any nodes_any a w).2 d).1)
  | scope a => exact .inl (kept ((ScopeAct.keeps frame_any memory_any.synchronize a w).2 d).1)
  | run a => exact .inl (kept ((RunAct.keeps frame_any runs_any a w).2 d).1)

end Wilupgu
