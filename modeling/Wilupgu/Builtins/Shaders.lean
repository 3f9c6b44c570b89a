import Wilupgu.Lib.Lists
import Wilupgu.Backends.Cpu
import Wilupgu.Builtins.Owned
import Wilupgu.Safe.Nodes

/-! # Builtins as shaders

What `shader_for` gives the CPU backend: native code on bytes, which are the
bits of `f32`s. And what a device takes a node of: meta words of the fields'
count, and no dimension without workgroups. -/

namespace Wilupgu.Builtins

open Backend Backends Call Loops

namespace Builtin

/-- `pod_collect_to_vec::<u8, f32>`. -/
def f32s (bytes : List UInt8) : List UInt32 := (podCollect 4 bytes).map UInt32.ofNat

/-- `cast_slice`. -/
def f32Bytes (x : List UInt32) : List UInt8 := x.flatMap fun v => leBytes 4 v.toNat

def slotOf : NativeBinding → Slot UInt32
  | .Read bytes => .Read (f32s bytes)
  | .Write bytes => .Write (f32s bytes)

def bytesIn : NativeBinding → List UInt8
  | .Read bytes | .Write bytes => bytes

/-- `b.copy_from_slice(data)`, which panics unless the lengths are equal. -/
def copyInto : NativeBinding → List UInt8 → Option (List UInt8)
  | .Write bytes, data => if data.length = bytes.length then some data else none
  | .Read _, _ => none

/-- Native code on bytes: its one write is at its end. -/
def runBytes [Floats UInt32] (b : Builtin) (m : List UInt32) (bindings : List NativeBinding) :
    NativeEnd :=
  let old := bindings.map bytesIn
  match b.native m (bindings.map slotOf) with
  | .ok ends =>
    let data := f32Bytes ((ends[b.out - 1]?.map Slot.elems).getD [])
    match bindings[b.out - 1]?.bind (copyInto · data) with
    | some bytes => ⟨old.set (b.out - 1) bytes, false⟩
    | none => ⟨old, true⟩
  | _ => ⟨old, true⟩

theorem keeps_bytesIn (bindings : List NativeBinding) :
    List.Forall₂ NativeBinding.Keeps bindings (bindings.map bytesIn) := by
  rw [List.forall₂_map_right_iff, List.forall₂_same]
  intro binding _
  cases binding <;> rfl

theorem keeps_copyInto {binding : NativeBinding} {data bytes : List UInt8}
    (h : copyInto binding data = some bytes) : binding.Keeps bytes := by
  cases binding with
  | Read _ => cases h
  | Write old =>
    rw [copyInto] at h
    split at h
    · cases h
      assumption
    · cases h

def code [Floats UInt32] (b : Builtin) : Native where
  code := b.runBytes
  keeps m bindings := by
    rw [runBytes]
    split
    · dsimp only
      split
      · rename_i hbytes
        obtain ⟨binding, hb, hcopy⟩ := Option.bind_eq_some_iff.mp hbytes
        refine (keeps_bytesIn bindings).set_right fun binding' hb' => ?_
        obtain rfl : binding = binding' := Option.some.inj (hb.symm.trans hb')
        exact keeps_copyInto hcopy
      · exact keeps_bytesIn bindings
    · exact keeps_bytesIn bindings

/-- `shader_for::<CpuBackend>()`. -/
def shader [Floats UInt32] (b : Builtin) : Shader := ⟨b.signature, .Native b.code⟩

/-! ## On bytes as on elements -/

theorem elems_slotOf (binding : NativeBinding) : (slotOf binding).elems = f32s (bytesIn binding) := by
  cases binding <;> rfl

theorem f32s_f32Bytes (x : List UInt32) : f32s (f32Bytes x) = x := by
  have h : podCollect 4 (f32Bytes x) = x.map UInt32.toNat := HostData.podCollect_asBytes (.F32 x)
  rw [f32s, h, List.map_map]
  exact (List.map_congr_left fun v _ => UInt32.ofNat_toNat).trans (List.map_id x)

theorem length_f32Bytes (x : List UInt32) : (f32Bytes x).length = x.length * 4 := by
  have h := HostData.length_asBytes (.F32 x)
  rwa [HostData.words, List.length_map] at h

end Builtin

/-- The words of a byte string that is a number of words. -/
theorem length_f32s {bytes : List UInt8} (h : 4 ∣ bytes.length) :
    (Builtin.f32s bytes).length * 4 = bytes.length := by
  obtain ⟨n, hn⟩ := h
  rw [Builtin.f32s, List.length_map, podCollect, List.length_map,
    Splice.length_chunks_mul (by decide) (hn.trans (Nat.mul_comm 4 n)), hn, Nat.mul_comm]

section Bytes

variable [Floats UInt32] {b : Builtin} {m : List UInt32} {wg : Workgroups}
  {bindings : List NativeBinding}

/-- **On bytes as on elements**: native code leaves the bytes of the elements
it left, and panics where it did. -/
theorem runBytes_eq (hm : b.MetaOk m) (hs : Bound b m wg (bindings.map Builtin.slotOf))
    (hwords : ∀ binding ∈ bindings, 4 ∣ (Builtin.bytesIn binding).length) :
    (b.runBytes m bindings).slots.map Builtin.f32s =
        (b.run m (bindings.map Builtin.slotOf)).1.map Slot.elems ∧
      (b.runBytes m bindings).panicked = (b.run m (bindings.map Builtin.slotOf)).2 := by
  have hold : (bindings.map Builtin.bytesIn).map Builtin.f32s =
      (bindings.map Builtin.slotOf).map Slot.elems := by
    rw [List.map_map, List.map_map]
    exact List.map_congr_left fun binding _ => (Builtin.elems_slotOf binding).symm
  rw [Builtin.runBytes, Builtin.run]
  rcases hr : b.native m (bindings.map Builtin.slotOf) with ends | e | _
  · obtain rfl := native_ok hm hs hr
    obtain ⟨⟨role, hrole, hout⟩, n, hn, -⟩ := out_spec b m wg
    obtain ⟨slot, hslot, hfits⟩ := hs.exists_getElem?_left (i := b.out - 1) (a := (role, n))
      (List.getElem?_zip_eq_some.mpr ⟨hrole, hn⟩)
    obtain ⟨x, rfl, -⟩ := hfits.of_other hout
    obtain ⟨binding, hb, hx⟩ := Option.map_eq_some_iff.mp
      (List.getElem?_map.symm.trans hslot)
    obtain ⟨bytes, rfl, rfl⟩ : ∃ bytes, binding = .Write bytes ∧ Builtin.f32s bytes = x := by
      cases binding with
      | Read bytes => cases hx
      | Write bytes => exact ⟨bytes, rfl, Slot.Write.inj hx⟩
    have hlen := length_f32s (hwords _ (List.mem_of_getElem? hb))
    obtain ⟨hlt, -⟩ := List.getElem?_eq_some_iff.mp hslot
    generalize hv : fillTo (b.owns m) (b.value m (elem (bindings.map Builtin.slotOf)))
      (Builtin.f32s bytes) = v
    have hwritten : b.written m (bindings.map Builtin.slotOf) =
        (bindings.map Builtin.slotOf).set (b.out - 1) (.Write v) := by
      rw [Builtin.written, hslot, ← hv]
      rfl
    have hcopy : Builtin.copyInto (.Write bytes) (Builtin.f32Bytes v) =
        some (Builtin.f32Bytes v) := by
      refine if_pos ?_
      rw [Builtin.length_f32Bytes, ← hv, length_fillTo]
      exact hlen
    simp only [hwritten, List.getElem?_set_self hlt, Option.map_some, Option.getD_some, Slot.elems,
      hb, Option.bind_some, hcopy, List.map_set, Builtin.f32s_f32Bytes, hold, and_self]
  · exact ⟨hold, rfl⟩
  · exact ⟨hold, rfl⟩

end Bytes

/-! ## Nodes -/

/-- What `ComputeDevice.node` takes of a builtin where `validate` is the
backend's own check. -/
structure Builtin.Accepts (b : Builtin) (validate : Workgroups → Except String Unit)
    (m : List UInt32) (wg : Workgroups) : Prop where
  words : b.MetaOk m
  workgroups : 0 ∉ wg.dims
  valid : validate wg = .ok ()

/-- A word as a field's value. -/
def MetaValue.ofWord (ty : MetaType) (v : UInt32) : MetaValue :=
  match ty with
  | .Uint => .Uint v
  | .Float => .Float v

theorem exists_values {types : List MetaType} {m : List UInt32} (h : m.length = types.length) :
    ∃ values : List MetaValue, types = values.map MetaValue.ty ∧ values.map MetaValue.word = m := by
  induction types generalizing m with
  | nil => exact ⟨[], rfl, (List.eq_nil_of_length_eq_zero h).symm⟩
  | cons ty types ih =>
    cases m with
    | nil => cases h
    | cons v m =>
      obtain ⟨values, hty, hword⟩ := ih (Nat.succ.inj h)
      refine ⟨MetaValue.ofWord ty v :: values, ?_, ?_⟩
      · rw [List.map_cons, ← hty]
        cases ty <;> rfl
      · rw [List.map_cons, hword]
        cases ty <;> rfl

/-- Every list of as many words as fields is some values' words. -/
theorem exists_metaWords {b : Builtin} {m : List UInt32} :
    (∃ values, metaWords b.signature values = .ok m) ↔ b.MetaOk m := by
  simp only [metaWords_eq_ok]
  constructor
  · intro h
    obtain ⟨values, htypes, rfl⟩ := h
    have hlen := congrArg List.length htypes
    rw [List.length_map, List.length_map] at hlen
    rw [Builtin.MetaOk, List.length_map, hlen]
  · intro h
    exact exists_values (h.trans (List.length_map _).symm)

section Device

variable {B : Type} [Storage B] [Topology B] [Dispatch B] {b : Builtin} {shader : Shader}
  {values : List MetaValue} {wg : Workgroups} {id uid : Nat} {dev : ComputeDevice B}

/-- **What a device takes a builtin's node of.** -/
theorem node_accepts {node : Node B} {dev' : ComputeDevice B} (hs : shader.signature = b.signature)
    (h : ComputeDevice.node id uid shader values wg dev = (.ok node, dev')) :
    ∃ m, metaWords b.signature values = .ok m ∧
      b.Accepts (Dispatch.validateWorkgroups B) m wg ∧ node.lens = b.minLens m wg := by
  simp only [ComputeDevice.node] at h
  rw [check_eq_ok] at h
  obtain ⟨_, -, h⟩ := h
  rw [check_eq_ok] at h
  obtain ⟨_, hwg, h⟩ := h
  rw [check_eq_ok] at h
  obtain ⟨_, hvalid, h⟩ := h
  rw [bind_of_ok (get_run dev), check_eq_ok] at h
  obtain ⟨_, -, h⟩ := h
  rw [check_eq_ok] at h
  obtain ⟨m, hm, h⟩ := h
  obtain ⟨raw, dev₁, -, hn⟩ := bind_eq_ok.mp h
  cases hn
  rw [hs] at hm hwg
  refine ⟨m, hm, ⟨exists_metaWords.mp ⟨values, hm⟩, ?_, ?_⟩, ?_⟩
  · intro h0
    rw [Rules.hasWorkgroups, if_pos h0] at hwg
    cases hwg
  · cases hv : Dispatch.validateWorkgroups B wg with
    | error e =>
      rw [hv] at hvalid
      cases hvalid
    | ok _ => rfl
  · rw [hs]
    rfl

end Device

/-- The CPU backend takes every builtin with any such meta and workgroups. -/
theorem exists_node_iff [Floats UInt32] {b : Builtin} {m : List UInt32} {wg : Workgroups}
    {id uid : Nat} {dev : ComputeDevice CpuBackend} :
    (∃ values node dev', metaWords b.signature values = .ok m ∧
      ComputeDevice.node id uid b.shader values wg dev = (.ok node, dev')) ↔
    b.Accepts (Dispatch.validateWorkgroups CpuBackend) m wg := by
  constructor
  · intro h
    obtain ⟨values, node, dev', hm, h⟩ := h
    obtain ⟨m', hm', h', -⟩ := node_accepts rfl h
    rw [hm] at hm'
    cases hm'
    exact h'
  · intro h
    obtain ⟨values, hm⟩ := exists_metaWords.mpr h.words
    refine ⟨values, ⟨⟨b.signature, b.code, m, wg⟩, b.minLens m wg, values, id, uid⟩, dev, hm, ?_⟩
    have hkinds : (b.signature.layout.forM fun role => Rules.supportedKind dev.raw role.kind :
        Outcome Error Unit) = .ok () := Outcome.forM_eq_ok.mpr fun _ _ => rfl
    simp only [ComputeDevice.node]
    rw [check_eq_ok]
    refine ⟨(), rfl, ?_⟩
    rw [check_eq_ok]
    refine ⟨(), if_neg h.workgroups, ?_⟩
    rw [check_eq_ok]
    refine ⟨(), rfl, ?_⟩
    rw [bind_of_ok (get_run dev), check_eq_ok]
    refine ⟨(), hkinds, ?_⟩
    rw [check_eq_ok]
    exact ⟨m, hm, rfl⟩

end Wilupgu.Builtins
