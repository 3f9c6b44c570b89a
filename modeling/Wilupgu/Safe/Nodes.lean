import Wilupgu.Safe.Valid

/-! # A node and its raw node

A node's meta is held three times: as values, as the lengths its slots need,
and as words in the raw node. The three agree, whatever is done to the node. -/

namespace Wilupgu

open Backend Call

variable {B : Type} [Storage B] [Dispatch B]

theorem metaWords_eq_ok {shader : Signature} {metaVals : List MetaValue} {words : List UInt32} :
    metaWords shader metaVals = .ok words ↔
      shader.metaFields.map MetaField.ty = metaVals.map MetaValue.ty ∧
        metaVals.map MetaValue.word = words := by
  rw [metaWords, Outcome.check_bind_eq_ok, Rules.metaTypes_eq_ok]
  simp

/-- What `update_meta` does: nothing if the values don't fit, and all of it
unless the raw node's update panics. -/
theorem nodeUpdateMeta_run (metaVals : List MetaValue) (dev : ComputeDevice B) (node : Node B) :
    Node.updateMeta metaVals (dev, node) =
      match metaWords node.signature metaVals with
      | .ok words =>
        let node' := { node with lens := minLens node.signature words node.workgroups }
        match Dispatch.updateMeta node.raw words dev.raw with
        | (.ok raw, raw') => (.ok (), ({ dev with raw := raw' }, { node' with raw, metaVals }))
        | (.err e, _) => e.elim
        | (.panic, raw') => (.panic, ({ dev with raw := raw' }, node'))
      | .err e => (.err e, (dev, node))
      | .panic => (.panic, (dev, node)) := by
  rw [Node.updateMeta, bind_of_ok (get_run _), check_run]
  simp only
  rcases metaWords node.signature metaVals with words | e | _
  · simp only
    rw [bind_of_ok (modify_run _ _), bind_of_ok (get_run _), bind_run, zoom_run]
    simp only [onRaw!, mapErr_run, onRaw_run]
    rcases Dispatch.updateMeta node.raw words dev.raw with ⟨raw | e | _, raw'⟩
    · rfl
    · exact e.elim
    · rfl
  · rfl
  · rfl

/-- **A node's values, words and lengths agree.** -/
structure Node.Agrees (node : Node B) : Prop where
  types : node.signature.metaFields.map MetaField.ty = node.metaVals.map MetaValue.ty
  words : Dispatch.metaWords node.raw = node.metaVals.map MetaValue.word
  lens : node.lens = minLens node.signature (Dispatch.metaWords node.raw) node.workgroups

theorem minLens_length (shader : Signature) (words : List UInt32) (wg : Workgroups) :
    (minLens shader words wg).length = shader.layout.length := by
  rw [minLens, shader.minLens_length, List.length_replicate]

/-- There is a length for each slot. -/
theorem Node.Agrees.lens_length {node : Node B} (h : node.Agrees) :
    node.lens.length = node.signature.layout.length := by
  rw [h.lens, minLens_length]

section Lawful

variable [LawfulDispatch B]

theorem agrees_of_build {s : Shader} {metaVals : List MetaValue} {words : List UInt32} {wg : Workgroups} {raw : Dispatch.Node B} {b b' : B} {id uid : Nat}
    (hwords : metaWords s.signature metaVals = .ok words)
    (hb : Dispatch.buildNode s words wg b = (.ok raw, b')) :
    Node.Agrees (⟨raw, minLens s.signature words wg, metaVals, id, uid⟩ : Node B) := by
  obtain ⟨htypes, rfl⟩ := metaWords_eq_ok.mp hwords
  obtain ⟨hsignature, hwg, hmeta⟩ := LawfulDispatch.buildNode_spec hb
  refine ⟨?_, hmeta, ?_⟩
  · rw [Node.signature, hsignature]
    exact htypes
  · rw [Node.signature, Node.workgroups, hsignature, hwg, hmeta]

/-- Also after an update that fails. -/
theorem Node.Agrees.updateMeta {node : Node B} (h : node.Agrees) (metaVals : List MetaValue)
    (dev : ComputeDevice B) : (Node.updateMeta metaVals (dev, node)).2.2.Agrees := by
  rw [nodeUpdateMeta_run]
  split
  · rename_i words hwords
    obtain ⟨htypes, rfl⟩ := metaWords_eq_ok.mp hwords
    -- as many words as before, so the raw node takes them
    have hlen : (metaVals.map MetaValue.word).length = (Dispatch.metaWords node.raw).length := by
      have := congrArg List.length (htypes.symm.trans h.types)
      rw [h.words]
      simpa using this
    obtain ⟨raw, b, hu, hsignature, hwg, hmeta⟩ :=
      LawfulDispatch.updateMeta_spec node.raw _ dev.raw hlen
    simp only [hu]
    refine ⟨?_, hmeta, ?_⟩
    · rw [Node.signature, hsignature]
      exact htypes
    · simp only [Node.signature, Node.workgroups, hsignature, hwg, hmeta]
  · exact h
  · exact h

end Lawful

/-! ## Every run -/

variable [Capturable B] [Areable B] [Topology B] {w : World B}

/-- What holds of every node that is built, and is kept by updating meta, holds
of every node after a call on nodes. -/
theorem NodeAct.forall_nodes {P : Node B → Prop} {a : NodeAct} (ha : a.Allowed w) (hw : w.Valid)
    (hbuild : ∀ id uid shader metaVals wg dev dev' node,
      ComputeDevice.node id uid shader metaVals wg dev = (.ok node, dev') → P node)
    (hupdate : ∀ metaVals dev node, P node → P (Node.updateMeta metaVals (dev, node)).2.2)
    (h : ∀ node ∈ w.nodes.values, P node) : ∀ node ∈ (a.run w).2.nodes.values, P node := by
  have updated : ∀ {b node} (vals : List MetaValue), w.nodes.lookup b = some node →
      ∀ node' ∈ (World.updateMeta b vals w).2.nodes.values, P node' := by
    intro b node vals hb node' hm
    rw [updateMeta_run hb, World.setNodes_nodes, AList.values_insert] at hm
    rcases List.mem_cons.mp hm with rfl | hm
    · exact hupdate vals _ node (h node (AList.mem_values.mpr ⟨b, hb⟩))
    · exact h node' ((AList.values_erase hb).mem_iff.mpr (.tail _ hm))
  cases a with
  | build d b shader vals wg =>
    rw [NodeAct.run, silent_world, buildNode_run]
    split
    · rename_i node dev hnode
      rw [World.setNodes_nodes, AList.values_insert_of_free ha]
      exact List.forall_mem_cons.mpr ⟨hbuild _ _ _ _ _ _ _ _ hnode, h⟩
    · exact h
    · exact h
  | dropNode b =>
    obtain ⟨node, hn⟩ := exists_of_mem ha.1
    rw [NodeAct.run, silent_world, dropNode_run hn]
    exact fun node' hm => h node' ((AList.values_erase hn).mem_iff.mpr (.tail _ hm))
  | moveNode b c =>
    obtain ⟨node, hn⟩ := exists_of_mem ha.1.1
    exact fun node' hm => h node' ((AList.values_move hn (.inr ha.2)).mem_iff.mpr hm)
  | replaceNode b c =>
    obtain ⟨node, hn⟩ := exists_of_mem ha.2.1.1
    obtain ⟨node', hn'⟩ := exists_of_mem ha.2.2.1
    rw [NodeAct.run, silent_world, replaceNode_run hn hn']
    split
    · exact fun node' hm => h node' ((AList.values_swap hn hn').mem_iff.mpr hm)
    · exact h
    · exact h
  | updateMeta b vals =>
    obtain ⟨node, hn⟩ := exists_of_mem ha.1
    rw [NodeAct.run, silent_world]
    exact updated vals hn
  | scopeUpdateMeta s i vals =>
    obtain ⟨scope, hs, hi⟩ := ha
    obtain ⟨node, hn, -⟩ := hw.nodes s scope hs _ (List.getElem_mem hi)
    rw [NodeAct.run, silent_world,
      scopeUpdateMeta_run hs (boundNode_eq_ok.mpr ⟨List.getElem?_eq_getElem hi, hn⟩)]
    exact updated vals hn

/-- Only calls on nodes change which nodes there are. -/
theorem nodes_kept {a : Act B} (h : ∀ a', a ≠ .node a') :
    (a.perform w).2.nodes = w.nodes := by
  cases a with
  | tensor a => exact (TensorAct.keeps frame_any tensors_any a w).1.nodes
  | memory a => exact (MemoryAct.keeps frame_any memory_any a w).1.nodes
  | node a => exact absurd rfl (h a)
  | scope a => exact (ScopeAct.keeps frame_any memory_any.synchronize a w).1.nodes
  | run a => exact (RunAct.keeps frame_any runs_any a w).1.nodes

/-- **In every world a program gets to, every node agrees with its raw node.** -/
theorem nodes_agree [LawfulDispatch B] {raws : Nat → B} {poolBytes : Nat → Nat}
    (h : World.Reachable raws poolBytes w) : ∀ node ∈ w.nodes.values, node.Agrees := by
  refine (Transition.Reachable.invariant
    (I := fun w : World B => w.Valid ∧ ∀ node ∈ w.nodes.values, node.Agrees) h
    ⟨.init raws poolBytes, nofun⟩ ?_).2
  rintro w e w' ⟨hw, hagree⟩ hs
  refine ⟨hw.step hs, ?_⟩
  obtain ⟨ha, hr⟩ := hs
  rcases e with ⟨a, out⟩
  obtain rfl : (a.perform w).2 = w' := congrArg Prod.snd hr
  by_cases hnode : ∃ a', a = .node a'
  · obtain ⟨a, rfl⟩ := hnode
    refine NodeAct.forall_nodes ha hw (fun id uid shader vals wg dev dev' node hn => ?_)
      (fun vals dev node hn => hn.updateMeta vals dev) hagree
    obtain ⟨words, raw, hwords, hbuild, -, rfl⟩ := deviceNode_ok hn
    exact agrees_of_build hwords hbuild
  · rw [nodes_kept fun a' he => hnode ⟨a', he⟩]
    exact hagree

end Wilupgu
