import Wilupgu.Capture.Solo
import Wilupgu.Memory.Contents
import Wilupgu.Plan.Misfit
import Wilupgu.Plan.Reference

/-! # A handle runs what its plan describes

On the CPU backend a call of a handle finds its node and its tensors by their
slots in a scope, checks them again, and gives the native code ranges of the
device's memory. In the end it has done to the tensors what the reference
interpreter does to their contents. -/

namespace Wilupgu.Plan

open Backend Backends ByteMemory Call Memory

variable {plan : RunSpec} {d : Nat} {site : Site CpuBackend} {held : Nat → Tensor CpuBackend}
  {w w' : World CpuBackend} {ρ : Reference} {call : CallSpec}

/-! ## What a run keeps all along -/

/-- A plan's tensors, by their ids, as a run of it on device `d` holds them. -/
structure Holding (plan : RunSpec) (d : Nat) (site : Site CpuBackend)
    (held : Nat → Tensor CpuBackend) : Prop where
  built : ∀ spec ∈ plan.tensors, BuiltTensor spec d (held spec.id)
  owner : ∀ spec ∈ plan.tensors, CpuBuffer.owner (held spec.id).raw = d
  apart : ∀ spec ∈ plan.tensors, ∀ spec' ∈ plan.tensors, spec.id ≠ spec'.id →
    (CpuBuffer.range (held spec.id).raw).Disjoint (CpuBuffer.range (held spec'.id).raw)
  places : (plan.tensors.map fun spec => site.place spec.id).Nodup

/-- The node of a call, with its meta as the reference interpreter has it. -/
structure NodeOf (call : CallSpec) (d : Nat) (applied : Nat → UInt32) (node : Node CpuBackend) :
    Prop where
  dev : node.dev = d
  signature : node.signature = call.signature
  code : call.native = some (CpuNode.code node.raw)
  workgroups : call.node.workgroups = some node.workgroups
  agrees : node.Agrees
  metaVals : node.metaVals = call.node.metaSources.map (MetaSource.described applied)

/-- **The world stands as the reference interpreter does**: the plan's tensors
hold its contents, its nodes have its metas, and the device records nothing. -/
structure Stands (plan : RunSpec) (d : Nat) (site : Site CpuBackend)
    (held : Nat → Tensor CpuBackend) (w : World CpuBackend) (ρ : Reference) : Prop where
  tensors : ∀ spec ∈ plan.tensors,
    w.tensors.lookup (site.place spec.id) = some (held spec.id)
  nodes : ∀ call ∈ plan.calls, ∃ node,
    w.nodes.lookup (site.address call.id) = some node ∧ NodeOf call d ρ.applied node
  recording : Capture.recordingOf w d = ⟨none, false⟩
  owner : (w.devices d).raw.owner = d
  contents : ∀ spec ∈ plan.tensors, bytesIn (memOf w d) (held spec.id).raw = ρ.contents spec.id

theorem NodeOf.words {applied : Nat → UInt32} {node : Node CpuBackend}
    (h : NodeOf call d applied node) : CpuNode.metaWords node.raw = call.words applied := by
  have hwords : CpuNode.metaWords node.raw = node.metaVals.map MetaValue.word := h.agrees.words
  rw [hwords, h.metaVals, List.map_map]
  rfl

theorem NodeOf.lens {applied : Nat → UInt32} {node : Node CpuBackend}
    (h : NodeOf call d applied node) : node.lens = call.needs applied := by
  have hwords : Dispatch.metaWords node.raw = call.words applied := h.words
  rw [h.agrees.lens, h.signature, hwords, CallSpec.needs, h.workgroups]

section Slots

variable (hcall : call ∈ plan.calls)
include hcall

theorem slots_roles : call.slots.map Prod.snd = call.signature.layout :=
  List.map_snd_zip (Nat.le_of_eq (plan.fits hcall).1.length_eq.symm)

theorem slots_ids : call.slots.map Prod.fst = call.tensors :=
  List.map_fst_zip (Nat.le_of_eq (plan.fits hcall).1.length_eq)

theorem slots_length : call.slots.length = call.signature.layout.length := by
  rw [← slots_roles hcall, List.length_map]

/-- The tensor in a slot is of its kind. -/
theorem slots_specs {s : Nat × BindingRole} (hs : s ∈ call.slots) :
    ∃ spec ∈ plan.tensors, spec.id = s.1 ∧ spec.kind = s.2.kind := by
  obtain ⟨i, hi⟩ := List.mem_iff_getElem?.mp hs
  obtain ⟨hid, hrole⟩ := List.getElem?_zip_eq_some.mp hi
  obtain ⟨role, hrole', hspec⟩ := (plan.fits hcall).1.exists_getElem?_left hid
  obtain rfl : s.2 = role := Option.some.inj (hrole.symm.trans hrole')
  exact hspec

end Slots

/-- The tensor a spec describes, found by its id. -/
theorem RunSpec.tensorLen_eq {spec : TensorSpec} {t : Tensor CpuBackend}
    (hspec : spec ∈ plan.tensors) (h : BuiltTensor spec d t) : plan.tensorLen spec.id = t.len := by
  obtain ⟨len, hlen, ht⟩ := h.len
  have hfound := (List.find?_key_eq_some plan.nodup_tensors).mpr ⟨hspec, rfl⟩
  rw [RunSpec.tensorLen, hfound, ht]
  simp only [hlen, Option.getD_some]

/-! ## Native code writes back -/

/-- What a slot of a call gives the backend. -/
def slotBuffer (held : Nat → Tensor CpuBackend) (slot : Nat × BindingRole) : Access CpuBuffer :=
  if slot.2.isInput then .Read (held slot.1).raw else .Write (held slot.1).raw

/-- What the native code gets of the memory is what it gets of the contents. -/
theorem binding_slotBuffer {m : Mem} {contents : Nat → List UInt8} {slot : Nat × BindingRole}
    (h : bytesIn m (held slot.1).raw = contents slot.1) :
    (CpuSlot.ofAccess (slotBuffer held slot)).binding m =
      if slot.2.isInput then .Read (contents slot.1) else .Write (contents slot.1) := by
  unfold slotBuffer
  split
  · exact congrArg NativeBinding.Read h
  · exact congrArg NativeBinding.Write h

/-- **What is written back to the memory is what is stored in the contents**,
since the written tensors lie apart from all others. -/
theorem bytesIn_writeBack {P : Nat → Prop}
    (hapart : ∀ id id', P id → P id' → id ≠ id' →
      (CpuBuffer.range (held id).raw).Disjoint (CpuBuffer.range (held id').raw))
    {slots : List (Nat × BindingRole)} {ends : List (List UInt8)} {m : Mem}
    {contents : Nat → List UInt8} (hslots : ∀ slot ∈ slots, P slot.1)
    (hlens : List.Forall₂ (fun slot bytes =>
      bytes.length = CpuBuffer.bytes (held slot.1).raw) slots ends)
    (hm : ∀ id, P id → bytesIn m (held id).raw = contents id) {id : Nat} (hid : P id) :
    bytesIn (CpuSlot.writeBack m (slots.map fun slot => .ofAccess (slotBuffer held slot)) ends) (held id).raw =
      store contents slots ends id := by
  induction hlens generalizing m contents with
  | nil => exact hm id hid
  | @cons slot bytes slots ends hlen _ ih =>
    have hrest := fun s hs => hslots s (List.mem_cons_of_mem slot hs)
    rw [List.map_cons, store]
    unfold slotBuffer
    split
    · exact ih hrest hm
    · refine ih hrest fun id' hid' => ?_
      by_cases he : id' = slot.1
      · subst he
        rw [Function.update_self, bytesIn, ← hlen, read_write_self]
      · rw [Function.update_of_ne he, ← hm id' hid', bytesIn, bytesIn, read_write_disjoint]
        have hdisjoint := hapart slot.1 id' (hslots slot List.mem_cons_self) hid' (Ne.symm he)
        rw [CpuBuffer.range, ← hlen] at hdisjoint
        exact hdisjoint

/-! ## Handles of a built run -/

section Handles

variable {B : Type} [Storage B] [Dispatch B] [Capturable B] [Areable B] {w w' : World B}
  {bound bound' : Bound} {run : Run} {site : Site B}

/-- A handle has an argument for each slot of each call, in a scope of the
plan's device. -/
structure Bound.Fits (plan : RunSpec) (d : Nat) (w : World B) (bound : Bound) : Prop where
  args : ∀ call ∈ plan.calls, ∀ slot args, bound.calls.lookup call.id = some (slot, args) →
    List.Forall₂ (fun s arg => bound.tensors.lookup s.1 = some arg.slot ∧
      arg.isWrite = !s.2.isInput) call.slots args
  scope : ∀ id ∈ bound.calls, ∃ scope, w.scopes.lookup bound.scope = some scope ∧ scope.dev = d

theorem Bound.Fits.stays (h : bound.Fits plan d w) (hs : StaysOpen w w' bound.scope) :
    bound.Fits plan d w' := by
  refine ⟨h.args, fun id hid => ?_⟩
  obtain ⟨scope, hscope, hdev⟩ := h.scope id hid
  obtain ⟨scope', hscope', he⟩ := hs scope hscope
  exact ⟨scope', hscope', he.dev.trans hdev⟩

/-- The nodes of a plan's calls are the shaders' and on the plan's device. -/
def NodesFit (plan : RunSpec) (d : Nat) (site : Site B) (w : World B) : Prop :=
  ∀ call ∈ plan.calls, ∃ node, w.nodes.lookup (site.address call.id) = some node ∧
    node.signature = call.signature ∧ node.dev = d

theorem bindCall_fits {id : Nat} (h : run.bindCall id bound w = (.ok bound', w'))
    (hf : bound.Fits plan d w) (hcalls : run.calls = builtCalls plan site)
    (hnodes : NodesFit plan d site w) : bound'.Fits plan d w' ∧ w'.nodes = w.nodes := by
  rw [Run.bindCall, Call.check_eq_ok] at h
  obtain ⟨call, hcall, h⟩ := h
  rw [bind_of_ok (get_run w), Call.check_eq_ok] at h
  obtain ⟨node, hnode, h⟩ := h
  rw [Call.check_eq_ok] at h
  obtain ⟨args, hargs, h⟩ := h
  obtain ⟨slot, w₁, hbind, h⟩ := bind_eq_ok.mp h
  have hsame := (scopeBindNode_ok hbind).2
  have honward := scopeBindNode_onward bound.scope call.node w
  rw [hbind] at honward
  have hold := hf.stays (honward.staysOpen bound.scope)
  cases h
  rw [Run.call, hcalls, Outcome.okOr_eq_ok] at hcall
  obtain ⟨spec, hspec, rfl, rfl⟩ := AList.lookup_ofList.mp hcall
  obtain ⟨node', hnode', hsignature, hdev⟩ := hnodes spec hspec
  obtain rfl : node = node' := Option.some.inj ((Outcome.expect_eq_ok.mp hnode).symm.trans hnode')
  refine ⟨⟨fun call' hcall' slot' args' hid => ?_, fun id hid => ?_⟩, hsame⟩
  · rw [AList.lookup_insert_eq] at hid
    by_cases he : call'.id = spec.id
    · obtain rfl := List.inj_on_of_nodup_map plan.nodup_calls hcall' hspec he
      rw [if_pos rfl] at hid
      cases hid
      rw [hsignature] at hargs
      refine (Outcome.mapM_eq_ok.mp hargs).imp fun s arg harg => ?_
      obtain ⟨i, hi, harg⟩ := Outcome.bind_eq_ok.mp harg
      rcases s with ⟨tid, role⟩
      cases role <;> cases harg <;> exact ⟨Outcome.okOr_eq_ok.mp hi, rfl⟩
    · rw [if_neg he] at hid
      exact hold.args call' hcall' slot' args' hid
  · -- the scope took the node, so it is of the node's device
    rw [Scope.bindNode, bind_of_ok (get_run w), Call.check_eq_ok] at hbind
    obtain ⟨scope, hscope, hbind⟩ := hbind
    rw [Call.check_eq_ok] at hbind
    obtain ⟨node', hnode'', hbind⟩ := hbind
    obtain rfl : node = node' := Outcome.ok.inj (hnode.symm.trans hnode'')
    rw [Call.check_eq_ok] at hbind
    obtain ⟨_, hsameDev, -⟩ := hbind
    obtain ⟨scope', hscope', he⟩ := honward.scopes bound.scope scope (Outcome.expect_eq_ok.mp hscope)
    exact ⟨scope', hscope', he.dev.trans ((Rules.sameDevice_eq_ok.mp hsameDev).trans hdev)⟩

theorem bindCalls_fits {ids : List Nat} (h : run.bindCalls ids bound w = (.ok bound', w'))
    (hf : bound.Fits plan d w) (hcalls : run.calls = builtCalls plan site)
    (hnodes : NodesFit plan d site w) : bound'.Fits plan d w' := by
  induction ids generalizing bound w with
  | nil =>
    cases h
    exact hf
  | cons id rest ih =>
    obtain ⟨bound₁, w₁, hcall, hrest⟩ := bind_eq_ok.mp h
    obtain ⟨hf₁, hsame⟩ := bindCall_fits hcall hf hcalls hnodes
    refine ih hrest hf₁ fun call hcall => ?_
    rw [hsame]
    exact hnodes call hcall

theorem bind_fits {s : Nat} {ts cs : List Nat} (h : run.bind s ts cs w = (.ok bound, w'))
    (hcalls : run.calls = builtCalls plan site) (hnodes : NodesFit plan d site w) :
    bound.Fits plan d w' := by
  obtain ⟨tensors, w₁, htensors, h⟩ := bind_eq_ok.mp h
  have hsame := (bindTensors_ok htensors nofun).2
  refine bindCalls_fits h ⟨nofun, fun id hid => ?_⟩ hcalls fun call hcall => ?_
  · exact absurd hid (AList.notMem_empty id)
  · rw [hsame]
    exact hnodes call hcall

end Handles

/-! ## One call -/

/-- How `execute` ends past its checks, and what it does to the world but for
what the scope notes. -/
theorem executed_parts {B : Type} [Storage B] [Dispatch B] [Capturable B] [Areable B]
    (w : World B) (s : Nat) (scope : Scope) (address : Nat) (node : Node B)
    (bindings : List (Access (Storage.Buffer B))) :
    (Scope.executed w s scope address node bindings).1 =
        (Dispatch.executeRaw address node.raw bindings (w.devices scope.dev).raw).1.mapErr
          Error.Backend ∧
      (Scope.executed w s scope address node bindings).2.tensors = w.tensors ∧
      (Scope.executed w s scope address node bindings).2.nodes = w.nodes ∧
      (Scope.executed w s scope address node bindings).2.devices =
        Function.update w.devices scope.dev { w.devices scope.dev with
          raw := (Dispatch.executeRaw address node.raw bindings (w.devices scope.dev).raw).2 } := by
  simp only [Scope.executed]
  rcases Dispatch.executeRaw address node.raw bindings (w.devices scope.dev).raw with
    ⟨_ | e | _, raw⟩
  · rcases scope.recording with _ | calls <;> exact ⟨rfl, rfl, rfl, rfl⟩
  · exact ⟨rfl, rfl, rfl, rfl⟩
  · exact ⟨rfl, rfl, rfl, rfl⟩

/-- A call's arguments lead to the tensors of its slots. -/
def ArgsFit (plan : RunSpec) (site : Site CpuBackend) (scope : Scope) (call : CallSpec)
    (args : List Arg) : Prop :=
  List.Forall₂ (fun s arg => arg.isWrite = !s.2.isInput ∧ ∃ spec ∈ plan.tensors, spec.id = s.1 ∧
    scope.bufs[arg.slot]? = some (site.place spec.id)) call.slots args

theorem Bound.Fits.argsFit {bound : Bound} (hf : bound.Fits plan d w)
    {Copy : RunCall → List MetaValue → Prop}
    (hholds : bound.Holds Copy (builtRun plan d site (builtTensors plan site)) w)
    (hcall : call ∈ plan.calls) {slot : Nat} {args : List Arg}
    (hlook : bound.calls.lookup call.id = some (slot, args)) {scope : Scope}
    (hscope : w.scopes.lookup bound.scope = some scope) : ArgsFit plan site scope call args := by
  refine (hf.args call hcall slot args hlook).imp fun s arg harg => ⟨harg.2, ?_⟩
  obtain ⟨p, hp, scope', hscope', hbuf⟩ := hholds.tensors s.1 arg.slot harg.1
  obtain rfl : scope = scope' := Option.some.inj (hscope.symm.trans hscope')
  obtain ⟨spec, hspec, hid, rfl⟩ := builtTensors_lookup.mp hp
  exact ⟨spec, hspec, hid, hbuf⟩

section One

variable (h : Stands plan d site held w ρ) {scope : Scope} {args : List Arg}
include h

/-- The tensors at the arguments' slots. -/
theorem Stands.boundTensors (hargs : ArgsFit plan site scope call args) :
    List.Forall₂ (fun arg t => w.boundTensor scope arg.slot = .ok t) args
      (call.slots.map fun s => held s.1) := by
  rw [List.forall₂_map_right_iff]
  refine hargs.flip.imp fun arg s harg => ?_
  obtain ⟨-, spec, hspec, hid, hbuf⟩ := harg
  exact boundTensor_eq_ok.mpr ⟨_, hbuf, hid ▸ h.tensors spec hspec⟩

/-- What reaches the backend. -/
theorem Stands.access (hargs : ArgsFit plan site scope call args) :
    Scope.access w scope args = .ok (call.slots.map (slotBuffer held)) := by
  rw [access_eq_ok, List.forall₂_map_right_iff]
  refine hargs.flip.imp fun arg s harg => ?_
  obtain ⟨hwrite, spec, hspec, hid, hbuf⟩ := harg
  refine ⟨held s.1, boundTensor_eq_ok.mpr ⟨_, hbuf, hid ▸ h.tensors spec hspec⟩, ?_⟩
  rcases s with ⟨id, role⟩
  cases role <;> cases arg <;> first | rfl | cases hwrite

omit h in
/-- Arguments in different slots are different tensors, where the plan's are. -/
theorem ArgsFit.notAliased (hargs : ArgsFit plan site scope call args)
    (hh : Holding plan d site held) (hcall : call ∈ plan.calls) :
    Rules.notAliased call.signature (args.map Arg.slot) = .ok () := by
  have halias := Rules.notAliased_eq_ok.mp (plan.fits hcall).2
  -- the tensor that an argument's slot is of
  have hplace : ∀ (i slot : Nat), (args.map Arg.slot)[i]? = some slot →
      ∃ spec ∈ plan.tensors, call.tensors[i]? = some spec.id ∧
        scope.bufs[slot]? = some (site.place spec.id) := by
    intro i slot hi
    rw [List.getElem?_map, Option.map_eq_some_iff] at hi
    obtain ⟨arg, harg, rfl⟩ := hi
    obtain ⟨s, hs, -, spec, hspec, hid, hbuf⟩ := hargs.flip.exists_getElem?_left harg
    refine ⟨spec, hspec, ?_, hbuf⟩
    rw [hid, ← slots_ids hcall, List.getElem?_map, hs]
    rfl
  rw [Rules.notAliased_eq_ok]
  intro i role slot hrole hwritten hi other hne hother
  obtain ⟨spec, hspec, hid, hbuf⟩ := hplace i slot hi
  obtain ⟨spec', hspec', hid', hbuf'⟩ := hplace other slot hother
  obtain rfl := List.inj_on_of_nodup_map hh.places hspec hspec'
    (Option.some.inj (hbuf.symm.trans hbuf'))
  exact halias i role spec.id hrole hwritten hid other hne hid'

/-- **The checks of `execute`** are those of the reference interpreter: what
else they look at, the plan's own check has seen. -/
theorem Stands.check (hh : Holding plan d site held) (hcall : call ∈ plan.calls)
    {node : Node CpuBackend} (hn : NodeOf call d ρ.applied node)
    (hargs : ArgsFit plan site scope call args) :
    Scope.check w scope node args = call.longEnough plan ρ.applied := by
  have hslots := slots_length hcall
  have hlength : args.length = call.slots.length := hargs.length_eq.symm
  have hcount : call.tensors.length = call.signature.layout.length :=
    (plan.fits hcall).1.length_eq
  have hneeds : (call.needs ρ.applied).length = call.signature.layout.length := by
    rw [← hn.lens, hn.agrees.lens_length, hn.signature]
  have hkinds : Rules.slotKinds node.signature
      ((call.slots.map fun s => held s.1).map Tensor.kind) = .ok () := by
    rw [Rules.slotKinds_eq_ok, hn.signature, ← slots_roles hcall, List.map_map, List.map_map]
    refine List.map_congr_left fun s hs => ?_
    obtain ⟨spec, hspec, hid, hkind⟩ := slots_specs hcall hs
    have hbuilt := (hh.built spec hspec).kind
    rw [hid] at hbuilt
    exact hkind.symm.trans hbuilt.symm
  have hrest : ∀ checked : Outcome Error Unit, checked = call.longEnough plan ρ.applied →
      (checked >>= fun _ => Rules.notAliased node.signature (args.map Arg.slot)) =
        call.longEnough plan ρ.applied := by
    rintro _ rfl
    rw [hn.signature, hargs.notAliased hh hcall]
    rcases call.longEnough plan ρ.applied with _ | e | _ <;> rfl
  rw [Scope.check, Outcome.mapM_eq_ok.mpr (h.boundTensors hargs), Outcome.ok_bind, hkinds,
    Outcome.ok_bind]
  refine hrest _ (Outcome.forM_congr (List.forall₂_of_length_eq_of_get ?_ fun i h₁ h₂ => ?_))
  · simp only [List.length_zipIdx, List.length_zip, hn.signature, hneeds, hlength, hslots, hcount]
  · have hi : i < call.slots.length := by
      simp only [List.length_zipIdx, List.length_zip] at h₁
      omega
    obtain ⟨hwrite, spec, hspec, hid, -⟩ := hargs.get hi (hlength ▸ hi)
    have hlen := plan.tensorLen_eq hspec (hh.built spec hspec)
    simp only [List.get_eq_getElem] at hwrite hid ⊢
    have hs : call.slots[i] = (call.tensors[i], call.signature.layout[i]) := List.getElem_zip
    rw [hs] at hwrite hid
    rw [hid] at hlen
    have htensor : (call.slots.map fun s => held s.1)[i]? = some (held call.tensors[i]) := by
      rw [List.getElem?_map, List.getElem?_eq_getElem hi, hs]
      rfl
    have hneed : node.lens[i]? = some (call.needs ρ.applied)[i] := by
      rw [hn.lens]
      exact List.getElem?_eq_getElem (by omega)
    simp only [List.getElem_zipIdx, List.getElem_zip, Nat.zero_add, hn.signature,
      Rules.slotAccess_eq_ok.mpr hwrite, htensor, hneed]
    exact congrArg (Rules.longEnough call.signature i _) hlen.symm

/-- The backend takes every buffer, and runs the native code at once. -/
theorem Stands.executeRaw (hh : Holding plan d site held) (hcall : call ∈ plan.calls)
    (address : Nat) (node : CpuNode) :
    CpuBackend.executeRaw address node (call.slots.map (slotBuffer held)) (w.devices d).raw =
      CpuBackend.runNative node (call.slots.map fun slot => .ofAccess (slotBuffer held slot))
        (w.devices d).raw := by
  have howner : ((call.slots.map (slotBuffer held)).any fun a =>
      decide (a.buf.owner ≠ (w.devices d).raw.owner)) = false := by
    rw [List.any_eq_false]
    intro access haccess
    obtain ⟨slot, hslot, rfl⟩ := List.mem_map.mp haccess
    obtain ⟨spec, hspec, hid, -⟩ := slots_specs hcall hslot
    have hbuf : (slotBuffer held slot).buf = (held slot.1).raw := by
      unfold slotBuffer
      split <;> rfl
    simpa [hbuf, ← hid, h.owner] using hh.owner spec hspec
  have hrecording : (w.devices d).raw.recording = ⟨none, false⟩ := h.recording
  simp only [CpuBackend.executeRaw, howner, hrecording, List.map_map]
  rfl

omit h in
/-- Native code leaves as many bytes in each slot as the slot's buffer has. -/
theorem native_lengths (held : Nat → Tensor CpuBackend) (code : Native) (words : List UInt32)
    (m : Mem) (slots : List (Nat × BindingRole)) :
    List.Forall₂ (fun slot bytes => bytes.length = CpuBuffer.bytes (held slot.1).raw) slots
      (code.code words (slots.map fun slot =>
        (CpuSlot.ofAccess (slotBuffer held slot)).binding m)).slots := by
  have hkeeps := code.keeps words (slots.map fun slot =>
    (CpuSlot.ofAccess (slotBuffer held slot)).binding m)
  rw [List.forall₂_map_left_iff] at hkeeps
  refine hkeeps.imp fun slot bytes hslot => ?_
  unfold slotBuffer at hslot
  split at hslot
  · exact (congrArg List.length (hslot : bytes = _)).trans (length_read _ _ _)
  · exact (hslot : bytes.length = _).trans (length_read _ _ _)

/-- What the native code gets. -/
theorem Stands.bindings (hcall : call ∈ plan.calls) :
    (call.slots.map fun slot => (CpuSlot.ofAccess (slotBuffer held slot)).binding (memOf w d)) =
      call.bindings ρ.contents := by
  refine List.map_congr_left fun slot hslot => ?_
  obtain ⟨spec, hspec, hid, -⟩ := slots_specs hcall hslot
  exact binding_slotBuffer (hid ▸ h.contents spec hspec)

/-- What the native code does on the device. -/
theorem Stands.runNative (hcall : call ∈ plan.calls) {node : Node CpuBackend}
    (hn : NodeOf call d ρ.applied node) {fin : NativeEnd}
    (hfin : (CpuNode.code node.raw).code (call.words ρ.applied) (call.bindings ρ.contents) = fin) :
    CpuBackend.runNative node.raw (call.slots.map fun slot => .ofAccess (slotBuffer held slot))
        (w.devices d).raw =
      (if fin.panicked then .panic else .ok (), (w.devices d).raw.setMem
        (CpuSlot.writeBack (memOf w d)
          (call.slots.map fun slot => .ofAccess (slotBuffer held slot)) fin.slots)) := by
  rw [← h.bindings hcall, ← hn.words] at hfin
  subst hfin
  simp only [CpuBackend.runNative, List.map_map, Function.comp_def]

/-- **Past its checks a call does to the tensors** what its native code does to
their contents. -/
theorem Stands.executed (hh : Holding plan d site held) (hcall : call ∈ plan.calls)
    {node : Node CpuBackend} (hn : NodeOf call d ρ.applied node) (hdev : scope.dev = d)
    (s address : Nat) :
    (Scope.executed w s scope address node (call.slots.map (slotBuffer held))).1 =
        (Reference.runNative call (CpuNode.code node.raw) ρ).1 ∧
      Stands plan d site held
        (Scope.executed w s scope address node (call.slots.map (slotBuffer held))).2
        (Reference.runNative call (CpuNode.code node.raw) ρ).2 := by
  subst hdev
  obtain ⟨hout, htensors, hnodes, hdevices⟩ := executed_parts w s scope address node
    (call.slots.map (slotBuffer held))
  have hran : Dispatch.executeRaw address node.raw (call.slots.map (slotBuffer held))
      (w.devices scope.dev).raw = _ :=
    (h.executeRaw hh hcall address node.raw).trans (h.runNative hcall hn rfl)
  rw [hran] at hout hdevices
  have hdevice := congrFun hdevices scope.dev
  rw [Function.update_self] at hdevice
  have hlens := native_lengths held (CpuNode.code node.raw) (call.words ρ.applied)
    (memOf w scope.dev) call.slots
  rw [h.bindings hcall] at hlens
  refine ⟨?_, fun spec hspec => ?_, fun c hc => ?_, ?_, ?_, fun spec hspec => ?_⟩
  · rw [hout]
    simp only [Reference.runNative]
    split <;> rfl
  · rw [htensors]
    exact h.tensors spec hspec
  · rw [hnodes]
    exact h.nodes c hc
  · rw [Capture.recordingOf, hdevice]
    exact h.recording
  · rw [hdevice]
    exact h.owner
  · rw [memOf, hdevice]
    refine bytesIn_writeBack (P := fun id => ∃ spec ∈ plan.tensors, spec.id = id) ?_ ?_ hlens ?_
      ⟨spec, hspec, rfl⟩
    · rintro _ _ ⟨spec, hspec, rfl⟩ ⟨spec', hspec', rfl⟩
      exact hh.apart spec hspec spec' hspec'
    · intro slot hslot
      obtain ⟨spec, hspec, hid, -⟩ := slots_specs hcall hslot
      exact ⟨spec, hspec, hid⟩
    · rintro _ ⟨spec, hspec, rfl⟩
      exact h.contents spec hspec

end One

/-! ## Any number of calls -/

section Calls

variable {bound : Bound} {Copy : RunCall → List MetaValue → Prop}

/-- **A call of a handle** is the described one. -/
theorem Stands.executeCall (h : Stands plan d site held w ρ) (hh : Holding plan d site held)
    (hf : bound.Fits plan d w)
    (hholds : bound.Holds Copy (builtRun plan d site (builtTensors plan site)) w)
    (hmem : ∀ id, id ∈ bound.calls ↔ id ∈ builtCalls plan site) (id : Nat) :
    (bound.executeCall id w).1 = (Reference.executeCall plan id ρ).1 ∧
      Stands plan d site held (bound.executeCall id w).2 (Reference.executeCall plan id ρ).2 := by
  rcases hfound : plan.calls.find? fun call => call.id = id with _ | call
  · have hnone : bound.calls.lookup id = none := by
      rw [AList.lookup_eq_none, hmem, ← AList.lookup_eq_none]
      refine Option.eq_none_iff_forall_ne_some.mpr fun rc hrc => ?_
      obtain ⟨call, hcall, hid, -⟩ := AList.lookup_ofList.mp hrc
      have hnot := List.find?_eq_none.mp hfound call hcall
      simp [hid] at hnot
    rw [Bound.executeCall, Reference.executeCall, hnone, hfound]
    exact ⟨rfl, h⟩
  · obtain ⟨hcall, rfl⟩ := (List.find?_key_eq_some plan.nodup_calls).mp hfound
    have hbuilt : (builtCalls plan site).lookup call.id =
        some ⟨site.address call.id, call.tensors, call.node.metaSources⟩ :=
      AList.lookup_ofList.mpr ⟨call, hcall, rfl, rfl⟩
    obtain ⟨⟨slot, args⟩, hlook⟩ :=
      exists_of_mem ((hmem call.id).mpr (AList.lookup_isSome.mp (by rw [hbuilt]; rfl)))
    obtain ⟨rc, _, hrc, ⟨scope, hscope, hslot⟩, -⟩ := hholds.calls call.id slot args hlook
    obtain rfl := Option.some.inj (hbuilt.symm.trans hrc)
    obtain ⟨scope', hscope', hdev⟩ := hf.scope call.id (AList.lookup_isSome.mp (by rw [hlook]; rfl))
    obtain rfl : scope = scope' := Option.some.inj (hscope.symm.trans hscope')
    obtain ⟨node, hnode, hn⟩ := h.nodes call hcall
    have hargs := hf.argsFit hholds hcall hlook hscope
    rw [Reference.executeCall_eq hcall, Bound.executeCall, hlook, check_run]
    simp only [Outcome.okOr]
    rw [execute_run hscope (boundNode_eq_ok.mpr ⟨hslot, hnode⟩), h.check hh hcall hn hargs,
      Reference.runCall, bind_of_ok (get_run ρ), check_run]
    rcases call.longEnough plan ρ.applied with _ | e | _
    · simp only [h.access hargs]
      rw [hn.code, check_run]
      exact h.executed hh hcall hn hdev bound.scope (site.address call.id)
    · exact ⟨rfl, h⟩
    · exact ⟨rfl, h⟩

/-- From some world on, the handle's calls keep up with the described ones. -/
theorem matches_executeCall {w₀ : World CpuBackend} (hh : Holding plan d site held)
    (hf : bound.Fits plan d w₀)
    (hholds : bound.Holds Copy (builtRun plan d site (builtTensors plan site)) w₀)
    (hmem : ∀ id, id ∈ bound.calls ↔ id ∈ builtCalls plan site) (id : Nat) :
    Matches (fun w ρ => Executed w₀ w ∧ Stands plan d site held w ρ)
      (bound.executeCall id) (Reference.executeCall plan id) := by
  intro w ρ hw
  obtain ⟨hexec, h⟩ := hw
  have hopen := hexec.onward.staysOpen bound.scope
  obtain ⟨hout, hstands⟩ := h.executeCall hh (hf.stays hopen) (hholds.stays hopen) hmem id
  exact ⟨hout, frame_executed.trans hexec (executeCall_executed bound id w), hstands⟩

/-- **A run of a handle** is the described one. -/
theorem Stands.execute (h : Stands plan d site held w ρ) (hh : Holding plan d site held)
    (hf : bound.Fits plan d w)
    (hholds : bound.Holds Copy (builtRun plan d site (builtTensors plan site)) w)
    (hmem : ∀ id, id ∈ bound.calls ↔ id ∈ builtCalls plan site) :
    (bound.execute w).1 = (Reference.execute plan ρ).1 ∧
      Stands plan d site held (bound.execute w).2 (Reference.execute plan ρ).2 := by
  have horder : bound.order = plan.calls.map CallSpec.id := hholds.order
  have hmatches : Matches (fun w' ρ => Executed w w' ∧ Stands plan d site held w' ρ)
      bound.execute (Reference.execute plan) := by
    rw [Bound.execute, Reference.execute, Reference.runCalls, horder, List.zipIdx_map]
    refine Matches.forM ?_
    rw [List.forall₂_map_left_iff, List.forall₂_same]
    rintro ⟨call, index⟩ hcall
    have hmem' : call ∈ plan.calls := (List.mem_zipIdx hcall).2.2 ▸ List.getElem_mem _
    have hone := matches_executeCall hh hf hholds hmem call.id
    rw [Reference.executeCall_eq hmem'] at hone
    exact hone.mapErr (Error.InCall index)
  have hall := hmatches w ρ ⟨frame_executed.refl w, h⟩
  exact ⟨hall.1, hall.2.2⟩

end Calls

end Wilupgu.Plan
