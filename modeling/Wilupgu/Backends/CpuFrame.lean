import Wilupgu.Backends.Cpu
import Wilupgu.Safe.Frame

/-! # What the CPU backend's calls leave alone

Only running and recording touches the recording state, and only allocating
and freeing touches which blocks are live. -/

namespace Wilupgu.Backends

open Backend Call ByteMemory

/-- The recording state and the owner as they were. -/
def SameRecording (raw raw' : CpuBackend) : Prop :=
  raw'.recording = raw.recording ∧ raw'.owner = raw.owner

/-- The live blocks and the owner as they were. -/
def SameBlocks (raw raw' : CpuBackend) : Prop :=
  raw'.heap.blocks = raw.heap.blocks ∧ raw'.owner = raw.owner

theorem frame_sameRecording : Frame SameRecording :=
  (frame_eq CpuBackend.recording).and (frame_eq CpuBackend.owner)

theorem frame_sameBlocks : Frame SameBlocks :=
  (frame_eq fun raw : CpuBackend => raw.heap.blocks).and (frame_eq CpuBackend.owner)

/-- A call that writes memory at most. -/
def OnlyMemory (raw raw' : CpuBackend) : Prop := ∃ mem, raw' = raw.setMem mem

theorem frame_onlyMemory : Frame OnlyMemory :=
  ⟨fun raw => ⟨raw.heap.mem, rfl⟩, fun ⟨_, h⟩ ⟨mem, h'⟩ => ⟨mem, by rw [h', h]; rfl⟩⟩

theorem OnlyMemory.sameRecording {raw raw' : CpuBackend} (h : OnlyMemory raw raw') :
    SameRecording raw raw' := by
  obtain ⟨mem, rfl⟩ := h
  exact ⟨rfl, rfl⟩

theorem OnlyMemory.sameBlocks {raw raw' : CpuBackend} (h : OnlyMemory raw raw') :
    SameBlocks raw raw' := by
  obtain ⟨mem, rfl⟩ := h
  exact ⟨rfl, rfl⟩

/-- Calls on contents write memory and nothing else. -/
theorem memory_onlyMemory : KeptByMemory OnlyMemory where
  upload buf offset data raw := by
    simp only [Storage.uploadRaw, CpuBackend.uploadRaw]
    split
    · exact ⟨_, rfl⟩
    · exact frame_onlyMemory.refl raw
  download buf offset bytes raw := by
    simp only [Storage.downloadRaw, CpuBackend.downloadRaw]
    split <;> exact frame_onlyMemory.refl raw
  copy src srcOffset dst dstOffset bytes raw := by
    simp only [Storage.copyRaw, CpuBackend.copyRaw]
    split
    · exact frame_onlyMemory.refl raw
    · split
      · exact ⟨_, rfl⟩
      · exact frame_onlyMemory.refl raw
  clear buf raw := by
    simp only [Storage.clearRaw, CpuBackend.clearRaw]
    split
    · exact frame_onlyMemory.refl raw
    · exact ⟨_, rfl⟩
  synchronize := frame_onlyMemory.refl

/-- Calls on nodes touch nothing. -/
theorem nodes_onlyMemory : KeptByNodes OnlyMemory where
  build shader words wg raw := by
    simp only [Dispatch.buildNode, CpuBackend.buildNode]
    split <;> exact frame_onlyMemory.refl raw
  update node words raw := by
    simp only [Dispatch.updateMeta, CpuBackend.updateMeta]
    split <;> exact frame_onlyMemory.refl raw
  drop _ := frame_onlyMemory.refl

theorem runNative_onlyMemory (node : CpuNode) (slots : List CpuSlot) :
    Keeps OnlyMemory (CpuBackend.runNative node slots) := fun _ => ⟨_, rfl⟩

theorem replayCalls_onlyMemory (nodes : Nat → Option CpuNode) (calls : List CpuCall) :
    Keeps OnlyMemory (CpuBackend.replayCalls nodes calls) := by
  induction calls with
  | nil => exact frame_onlyMemory.pure ()
  | cons call rest ih =>
    exact frame_onlyMemory.lift_bind fun node =>
      frame_onlyMemory.bind (runNative_onlyMemory node call.slots) fun _ => ih

theorem replay_onlyMemory (nodes : Nat → Option CpuNode) (capture : CpuCapture) :
    Keeps OnlyMemory (CpuBackend.replay nodes capture) := by
  intro raw
  simp only [CpuBackend.replay]
  split
  · exact frame_onlyMemory.refl raw
  · exact replayCalls_onlyMemory nodes capture.calls raw

/-- Nor does allocating and freeing touch the recording state. -/
theorem tensors_sameRecording : KeptByTensors SameRecording where
  alloc _ _ _ := ⟨rfl, rfl⟩
  dropBuffer buf raw := by
    simp only [Storage.dropBuffer, CpuBackend.dropBuffer]
    split <;> exact ⟨rfl, rfl⟩
  reserve _ _ _ := ⟨rfl, rfl⟩
  release _ _ := ⟨rfl, rfl⟩
  carve area bytes raw := by
    simp only [Areable.carve, CpuBackend.carve]
    split
    · exact ⟨rfl, rfl⟩
    · split <;> exact ⟨rfl, rfl⟩

/-- Nor does running and recording touch which blocks are live. -/
theorem runs_sameBlocks : KeptByRuns SameBlocks where
  execute address node bindings raw := by
    simp only [Dispatch.executeRaw, CpuBackend.executeRaw]
    split
    · exact ⟨rfl, rfl⟩
    · split
      · exact ⟨rfl, rfl⟩
      · split
        · exact ⟨rfl, rfl⟩
        · exact (runNative_onlyMemory _ _ raw).sameBlocks
  beginCapture raw := by
    simp only [Capturable.beginCapture, CpuBackend.beginCapture]
    split
    · exact ⟨rfl, rfl⟩
    · split <;> exact ⟨rfl, rfl⟩
  endCapture raw := by
    simp only [Capturable.endCapture, CpuBackend.endCapture]
    split
    · exact ⟨rfl, rfl⟩
    · split <;> exact ⟨rfl, rfl⟩
  replay nodes capture raw := (replay_onlyMemory nodes capture raw).sameBlocks
  release _ _ := ⟨rfl, rfl⟩

theorem memory_sameRecording : KeptByMemory SameRecording :=
  memory_onlyMemory.mono fun _ _ => OnlyMemory.sameRecording

theorem memory_sameBlocks : KeptByMemory SameBlocks :=
  memory_onlyMemory.mono fun _ _ => OnlyMemory.sameBlocks

theorem nodes_sameRecording : KeptByNodes SameRecording :=
  nodes_onlyMemory.mono fun _ _ => OnlyMemory.sameRecording

theorem nodes_sameBlocks : KeptByNodes SameBlocks :=
  nodes_onlyMemory.mono fun _ _ => OnlyMemory.sameBlocks

end Wilupgu.Backends
