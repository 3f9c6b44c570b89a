import Wilupgu.Lib.Lists
import Wilupgu.Backend.Logged
import Wilupgu.Backends.Cpu
import Wilupgu.Safe.Nodes

/-! # What reaches the backend

`execute` calls the backend's `execute_raw`, which is unsafe, only after its
checks. They pass exactly if the rules of the backend's contract hold, the
lengths being what the shader needs for the meta words the raw node holds; if
they don't pass, nothing reaches the backend. -/

namespace Wilupgu

open Backend Call

variable {B : Type} [Storage B] [Dispatch B] [Capturable B] [Areable B] {w w' : World B}
  {scope : Scope} {node : Node B} {args : List Arg}

/-! ## The rules -/

/-- **The contract of `execute_raw`**, for a node and the tensors bound at the
arguments' slots. -/
structure Contract (w : World B) (scope : Scope) (node : Node B) (args : List Arg) : Prop where
  /-- One binding per layout entry, in slot order. -/
  count : args.length = node.signature.layout.length
  /-- `Read` for `Input` slots and `Write` for all others. -/
  access : ∀ (slot : Nat) (arg : Arg) (role : BindingRole), args[slot]? = some arg →
    node.signature.layout[slot]? = some role → arg.isWrite = !role.isInput
  /-- Each tensor is of its slot's kind. -/
  kind : ∀ (slot : Nat) (arg : Arg) (role : BindingRole) (t : Tensor B), args[slot]? = some arg →
    node.signature.layout[slot]? = some role → w.boundTensor scope arg.slot = .ok t →
    t.kind = role.kind
  /-- Each is as long as the shader needs, for the raw node's words and workgroups. -/
  len : ∀ (slot : Nat) (arg : Arg) (needs : Nat) (t : Tensor B), args[slot]? = some arg →
    (minLens node.signature (Dispatch.metaWords node.raw) node.workgroups)[slot]? = some needs →
    w.boundTensor scope arg.slot = .ok t → needs ≤ t.len
  /-- No written tensor is in any other slot. -/
  alone : ∀ (slot other : Nat) (arg arg' : Arg) (p : Nat), args[slot]? = some arg →
    args[other]? = some arg' → arg.isWrite = true → scope.bufs[arg.slot]? = some p →
    scope.bufs[arg'.slot]? = some p → other = slot
  /-- Everything is on the scope's device. -/
  node_dev : node.dev = scope.dev
  tensor_dev : ∀ arg ∈ args, ∀ t, w.boundTensor scope arg.slot = .ok t → t.dev = scope.dev

/-! ## The checks -/

/-- **The checks of `execute`**, given the tensors at the arguments' slots. -/
theorem check_eq_ok {tensors : List (Tensor B)}
    (ht : List.Forall₂ (fun arg t => w.boundTensor scope arg.slot = .ok t) args tensors) :
    Scope.check w scope node args = .ok () ↔
      node.signature.layout.map BindingRole.kind = tensors.map Tensor.kind ∧
      (∀ (slot : Nat) (arg : Arg) (role : BindingRole), args[slot]? = some arg → node.signature.layout[slot]? = some role →
        arg.isWrite = (!role.isInput) ∧ ∃ (needs : Nat) (t : Tensor B),
          node.lens[slot]? = some needs ∧ tensors[slot]? = some t ∧ needs ≤ t.len) ∧
      Rules.notAliased node.signature (args.map Arg.slot) = .ok () := by
  rw [Scope.check, Outcome.mapM_eq_ok.mpr ht, Outcome.ok_bind, Outcome.check_bind_eq_ok,
    Rules.slotKinds_eq_ok, Outcome.check_bind_eq_ok]
  refine and_congr_right fun _ => and_congr_left fun _ => ?_
  rw [Rules.forM_zipIdx_eq_ok]
  simp only [Prod.forall, List.getElem?_zip_eq_some, Outcome.bind_eq_ok, Outcome.expect_eq_ok,
    Rules.longEnough_eq_ok]
  constructor
  · intro h slot arg role ha hr
    obtain ⟨_, haccess, needs, hneeds, t, ht, hle⟩ := h slot arg role ⟨ha, hr⟩
    exact ⟨Rules.slotAccess_eq_ok.mp haccess, needs, t, hneeds, ht, hle⟩
  · rintro h slot arg role ⟨ha, hr⟩
    obtain ⟨haccess, needs, t, hneeds, ht, hle⟩ := h slot arg role ha hr
    exact ⟨(), Rules.slotAccess_eq_ok.mpr haccess, needs, hneeds, t, ht, hle⟩

/-- The checks never panic: each argument's slot is bound, and there is a
length for each slot. -/
theorem check_returns {tensors : List (Tensor B)}
    (ht : List.Forall₂ (fun arg t => w.boundTensor scope arg.slot = .ok t) args tensors)
    (hlens : node.lens.length = node.signature.layout.length) :
    (Scope.check w scope node args).returns = true := by
  rw [Scope.check, Outcome.mapM_eq_ok.mpr ht, Outcome.ok_bind]
  refine Outcome.returns_bind (Rules.slotKinds_returns _ _) fun _ _ =>
    Outcome.returns_bind (Outcome.returns_forM ?_) fun _ _ => Rules.notAliased_returns _ _
  rintro ⟨⟨arg, role⟩, slot⟩ hm
  obtain ⟨ha, hr⟩ := List.getElem?_zip_eq_some.mp (List.mem_zipIdx_iff_getElem?.mp hm)
  have hslot : slot < node.lens.length :=
    hlens ▸ (List.getElem?_eq_some_iff.mp hr).1
  have htensor : slot < tensors.length :=
    ht.length_eq ▸ (List.getElem?_eq_some_iff.mp ha).1
  refine Outcome.returns_bind (Rules.slotAccess_returns _ _ _ _) fun _ _ => ?_
  rw [List.getElem?_eq_getElem hslot, List.getElem?_eq_getElem htensor]
  exact Rules.longEnough_returns _ _ _ _

/-! ## They are the rules -/

section Bound

variable {s : Nat} (hw : w.Valid) (hs : w.scopes.lookup s = some scope)
include hw hs

/-- The tensors at the arguments' slots. -/
theorem exists_tensors (hargs : ∀ arg ∈ args, arg.slot < scope.bufs.length) :
    ∃ tensors, List.Forall₂ (fun arg t => w.boundTensor scope arg.slot = .ok t) args tensors := by
  induction args with
  | nil => exact ⟨[], .nil⟩
  | cons arg rest ih =>
    obtain ⟨t, ht, -⟩ := hw.bufs s scope hs _ (List.getElem_mem (hargs arg (.head _)))
    obtain ⟨tensors, hrest⟩ := ih fun arg' hm => hargs arg' (.tail _ hm)
    exact ⟨t :: tensors,
      .cons (boundTensor_eq_ok.mpr ⟨_, List.getElem?_eq_getElem (hargs arg (.head _)), ht⟩) hrest⟩

omit hw hs [Capturable B] [Areable B] in
theorem layout_of_arg (h : args.length = node.signature.layout.length) {slot : Nat} {arg : Arg}
    (ha : args[slot]? = some arg) : ∃ role, node.signature.layout[slot]? = some role :=
  ⟨_, List.getElem?_eq_getElem (h ▸ (List.getElem?_eq_some_iff.mp ha).1)⟩

/-- **The checks pass exactly if the contract's rules hold.** -/
theorem check_iff_contract {tensors : List (Tensor B)} (hdev : node.dev = scope.dev)
    (hagree : node.Agrees)
    (ht : List.Forall₂ (fun arg t => w.boundTensor scope arg.slot = .ok t) args tensors) :
    Scope.check w scope node args = .ok () ↔ Contract w scope node args := by
  have htensor : ∀ {slot : Nat} {arg : Arg} {t : Tensor B}, args[slot]? = some arg →
      w.boundTensor scope arg.slot = .ok t → tensors[slot]? = some t := by
    intro slot arg t ha hb
    obtain ⟨t', ht', hb'⟩ := ht.exists_getElem?_left ha
    obtain rfl : t' = t := Outcome.ok.inj (hb'.symm.trans hb)
    exact ht'
  have hbound : ∀ {slot : Nat} {arg : Arg}, args[slot]? = some arg →
      ∃ t, tensors[slot]? = some t ∧ w.boundTensor scope arg.slot = .ok t :=
    fun ha => ht.exists_getElem?_left ha
  rw [check_eq_ok ht]
  constructor
  · rintro ⟨hkinds, hslots, halias⟩
    have hcount : args.length = node.signature.layout.length := by
      have := congrArg List.length hkinds
      rw [List.length_map, List.length_map] at this
      exact ht.length_eq.trans this.symm
    refine ⟨hcount, ?_, ?_, ?_, ?_, hdev, ?_⟩
    · exact fun slot arg role ha hr => (hslots slot arg role ha hr).1
    · intro slot arg role t ha hr hb
      have := congrArg (·[slot]?) hkinds
      simp only [List.getElem?_map, hr, htensor ha hb, Option.map_some, Option.some.injEq] at this
      exact this.symm
    · intro slot arg needs t ha hneeds hb
      obtain ⟨role, hr⟩ := layout_of_arg hcount ha
      obtain ⟨-, needs', t', hneeds', ht', hle⟩ := hslots slot arg role ha hr
      rw [htensor ha hb] at ht'
      rw [hagree.lens, hneeds] at hneeds'
      cases ht'
      cases hneeds'
      exact hle
    · intro slot other arg arg' p ha ha' hwrite hp hp'
      obtain ⟨role, hr⟩ := layout_of_arg hcount ha
      have hinput : role.isInput = false := by
        have := (hslots slot arg role ha hr).1
        rw [hwrite] at this
        simpa using this
      -- bound once, so under one index
      have hslot : arg'.slot = arg.slot :=
        (List.getElem?_inj (List.getElem?_eq_some_iff.mp hp').1 (hw.bufs_nodup s scope hs)).mp
          (hp'.trans hp.symm)
      by_contra hne
      refine Rules.notAliased_eq_ok.mp halias slot role arg.slot hr hinput ?_ other hne ?_
      · rw [List.getElem?_map, ha, Option.map_some]
      · rw [List.getElem?_map, ha', Option.map_some, hslot]
    · intro arg _ t hb
      obtain ⟨p, hp, hl⟩ := boundTensor_eq_ok.mp hb
      obtain ⟨t', hl', hd⟩ := hw.bufs s scope hs p (List.mem_of_getElem? hp)
      rw [hl] at hl'
      cases hl'
      exact hd
  · intro h
    refine ⟨?_, ?_, ?_⟩
    · refine List.ext_getElem (by simp [← h.count, ht.length_eq]) fun slot h₁ h₂ => ?_
      rw [List.length_map] at h₁ h₂
      obtain ⟨t, htslot, hb⟩ := hbound (List.getElem?_eq_getElem (h.count.symm ▸ h₁))
      obtain ⟨_, rfl⟩ := List.getElem?_eq_some_iff.mp htslot
      rw [List.getElem_map, List.getElem_map]
      exact (h.kind slot _ _ _ (List.getElem?_eq_getElem (h.count.symm ▸ h₁))
        (List.getElem?_eq_getElem h₁) hb).symm
    · intro slot arg role ha hr
      obtain ⟨t, htslot, hb⟩ := hbound ha
      have hneeds : slot < node.lens.length :=
        hagree.lens_length ▸ (List.getElem?_eq_some_iff.mp hr).1
      refine ⟨h.access slot arg role ha hr, _, t, List.getElem?_eq_getElem hneeds, htslot,
        h.len slot arg _ t ha ?_ hb⟩
      rw [← hagree.lens, List.getElem?_eq_getElem hneeds]
    · rw [Rules.notAliased_eq_ok]
      intro slot role i hr hinput hi other hne hother
      rw [List.getElem?_map, Option.map_eq_some_iff] at hi hother
      obtain ⟨arg, ha, rfl⟩ := hi
      obtain ⟨arg', ha', hsame⟩ := hother
      obtain ⟨t, -, hb⟩ := hbound ha
      obtain ⟨p, hp, -⟩ := boundTensor_eq_ok.mp hb
      refine hne (h.alone slot other arg arg' p ha ha' ?_ hp (hsame ▸ hp))
      rw [h.access slot arg role ha hr, hinput]
      rfl

end Bound

/-! ## What reaches the backend -/

/-- What `execute` gives the backend: each argument's buffer, read or written. -/
theorem access_eq_ok {bindings : List (Access (Storage.Buffer B))} :
    Scope.access w scope args = .ok bindings ↔
      List.Forall₂ (fun arg b => ∃ t, w.boundTensor scope arg.slot = .ok t ∧ arg.access t.raw = b)
        args bindings := by
  simp only [Scope.access, Outcome.mapM_eq_ok, Outcome.bind_eq_ok, Outcome.pure_def,
    Outcome.ok.injEq]

theorem exists_access {tensors : List (Tensor B)}
    (ht : List.Forall₂ (fun arg t => w.boundTensor scope arg.slot = .ok t) args tensors) :
    ∃ bindings, Scope.access w scope args = .ok bindings := by
  induction ht with
  | nil => exact ⟨[], rfl⟩
  | cons hb _ ih =>
    obtain ⟨bindings, h⟩ := ih
    exact ⟨_, access_eq_ok.mpr (.cons ⟨_, hb, rfl⟩ (access_eq_ok.mp h))⟩

/-- The calls that have reached device `d`. -/
abbrev logOf (w : World (Logged B)) (d : Nat) : List (RawCall B) := (w.devices d).raw.log

/-- From `w` to `w'` one call reached a device, `d`. -/
def Reached (w w' : World (Logged B)) (d : Nat) (call : RawCall B) : Prop :=
  ∀ d', logOf w' d' = logOf w d' ++ if d' = d then [call] else []

/-- `execute` past its checks. -/
theorem executed_reached (w : World (Logged B)) (s : Nat) (scope : Scope) (address : Nat)
    (node : Node (Logged B)) (bindings : List (Access (Storage.Buffer (Logged B)))) :
    Reached w (Scope.executed w s scope address node bindings).2 scope.dev
      (.execute node.raw bindings) := by
  intro d
  have hlog : ((Scope.executed w s scope address node bindings).2.devices d).raw.log =
      ((w.setDevice scope.dev { w.devices scope.dev with
        raw := (Dispatch.executeRaw address node.raw bindings
          (w.devices scope.dev).raw).2 }).devices d).raw.log := by
    simp only [Scope.executed]
    split <;> rfl
  rw [logOf, hlog, World.setDevice_devices, Function.update_apply]
  split
  · subst d
    exact (Logged.noting_eq rfl).2
  · exact (List.append_nil _).symm

/-- **A run reaches the backend exactly if the contract's rules hold.** In every
world a program gets to, an `execute` hands the backend its node and the bound
buffers, once, if they do, and otherwise returns an error and nothing happened;
and every node's values, words and lengths agree. -/
theorem execute_reaches_iff_contract [Topology B] [LawfulDispatch B] {raws : Nat → Logged B}
    {poolBytes : Nat → Nat} {w : World (Logged B)} (h : World.Reachable raws poolBytes w)
    {s n : Nat} {args : List Arg} (ha : (RunAct.execute s n args).Allowed w) :
    (∀ node ∈ w.nodes.values, node.Agrees) ∧
    ∃ scope address node bindings, w.scopes.lookup s = some scope ∧
      w.boundNode scope n = .ok (address, node) ∧
      List.Forall₂ (fun arg b => ∃ t, w.boundTensor scope arg.slot = .ok t ∧ arg.access t.raw = b)
        args bindings ∧
      (Contract w scope node args ↔
        Reached w (Scope.execute s n args w).2 scope.dev (.execute node.raw bindings)) ∧
      (¬Contract w scope node args → ∃ e, Scope.execute s n args w = (.err e, w)) := by
  have hw := World.Reachable.valid h
  have hagree := nodes_agree h
  refine ⟨hagree, ?_⟩
  obtain ⟨scope, hs, hn, hargs⟩ := ha
  obtain ⟨node, hnode, hdev⟩ := hw.nodes s scope hs _ (List.getElem_mem hn)
  have hb := boundNode_eq_ok.mpr ⟨List.getElem?_eq_getElem hn, hnode⟩
  have hnode' := hagree node (AList.mem_values.mpr ⟨_, hnode⟩)
  obtain ⟨tensors, ht⟩ := exists_tensors hw hs hargs
  obtain ⟨bindings, hbindings⟩ := exists_access ht
  have hcheck := check_iff_contract hw hs hdev hnode' ht
  have hfails : ¬Contract w scope node args → ∃ e, Scope.execute s n args w = (.err e, w) := by
    intro hnot
    rcases Outcome.returns_iff.mp (check_returns ht hnode'.lens_length) with hok | ⟨e, he⟩
    · exact absurd (hcheck.mp hok) hnot
    · exact ⟨e, by rw [execute_run hs hb, he]⟩
  refine ⟨scope, _, node, bindings, hs, hb, access_eq_ok.mp hbindings, ⟨fun hc => ?_, ?_⟩, hfails⟩
  · rw [execute_run hs hb, hcheck.mpr hc, hbindings]
    exact executed_reached w s scope _ node bindings
  · intro hreached
    by_contra hnot
    obtain ⟨e, he⟩ := hfails hnot
    have := hreached scope.dev
    rw [he, if_pos rfl, List.self_eq_append_right] at this
    cases this

namespace Sample

open Backends Backends.Sample

/-- CPU devices that log, without a pool. -/
def logged : World (Logged CpuBackend) := .init (fun d => ⟨.attach d, []⟩) fun _ => 0

/-- A tensor and a node, bound in scope 0. -/
def bound : List (Act (Logged CpuBackend)) := [
  .tensor (.alloc 0 env 0 .Int8 4), .node (.build 0 100 fill [] (.linear 1)),
  .scope (.openOn 0 0), .scope (.bind 0 0), .scope (.bindNode 0 100)]

end Sample

open Sample

set_option maxRecDepth 4000

/-- One that reaches it: the shader's one slot is written, as it says. -/
theorem execute_reaches_once : ∃ w scope node bindings, World.Reachable
      (fun d => ⟨Backends.CpuBackend.attach d, []⟩) (fun _ => 0) w ∧
    w.scopes.lookup 0 = some scope ∧ Contract w scope node [.Write 0] ∧
    Reached w (Scope.execute 0 0 [.Write 0] w).2 scope.dev (.execute node.raw bindings) := by
  have hrun : ((logged.play (fun _ _ => True) bound).any fun (_, w) =>
      (RunAct.execute 0 0 [.Write 0]).Allowed w ∧
        logOf w 0 = [] ∧ logOf (Scope.execute 0 0 [.Write 0] w).2 0 ≠ []) = true := by
    decide
  obtain ⟨⟨es, w⟩, hplay, hall⟩ := Option.any_eq_true _ _ |>.mp hrun
  obtain ⟨ha, hbefore, hafter⟩ := of_decide_eq_true hall
  have hreach : World.Reachable _ _ w := ⟨es, (World.runs_of_play hplay).of_where⟩
  obtain ⟨-, scope, _, node, bindings, hs, -, -, hiff, hfails⟩ :=
    execute_reaches_iff_contract hreach ha
  have hc : Contract w scope node [.Write 0] := by
    by_contra hnot
    obtain ⟨e, he⟩ := hfails hnot
    rw [he] at hafter
    exact hafter hbefore
  exact ⟨w, scope, node, bindings, hreach, hs, hc, hiff.mp hc⟩

end Wilupgu
