import Wilupgu.Capture.Isolation
import Wilupgu.Plan.Fill

/-! # A build that fails is undone

A build makes one thing after the other. Where it fails or panics, it drops
what it has made, so that everything is as before but what the pools keep. All
of it are calls of the safe layer that the borrow checker lets through. -/

namespace Wilupgu.Plan

open Backend Call Transition

/-! ## Things made and dropped -/

section Making

variable {σ ε : Type}

/-- What is done about the thing `id` leaves the room for the others, and the
others that are made. -/
def LeavesOthers (Room Made : Nat → σ → Prop) (ids : List Nat) (id : Nat) (s t : σ) : Prop :=
  ∀ id' ∈ ids, id' ≠ id → (Room id' s → Room id' t) ∧ (Made id' s → Made id' t)

/-- Dropping a thing that is made always works, and there is room for it again. -/
structure Drops (R : σ → σ → Prop) (Room Made : Nat → σ → Prop) (ids : List Nat)
    (drop : Nat → Call σ ε Unit) : Prop where
  drops : ∀ id ∈ ids, ∀ s, Made id s →
    (drop id s).1 = .ok () ∧ R s (drop id s).2 ∧ Room id (drop id s).2
  leaves : ∀ id ∈ ids, Keeps (LeavesOthers Room Made ids id) (drop id)

/-- Where there is room for a thing, making it works, or there still is. -/
structure Makes (R : σ → σ → Prop) (Room Made : Nat → σ → Prop) (ids : List Nat)
    (l : List (Nat × Call σ ε Unit)) : Prop where
  makes : ∀ x ∈ l, ∀ s, Room x.1 s → R s (x.2 s).2 ∧
    ((x.2 s).1 = .ok () → Made x.1 (x.2 s).2) ∧ ((x.2 s).1 ≠ .ok () → Room x.1 (x.2 s).2)
  leaves : ∀ x ∈ l, Keeps (LeavesOthers Room Made ids x.1) x.2

variable {R : σ → σ → Prop} (hR : Frame R) {Room Made : Nat → σ → Prop} {ids : List Nat}
  {drop : Nat → Call σ ε Unit}
include hR

/-- All that is made can be dropped, in any order. -/
theorem Drops.all (h : Drops R Room Made ids drop) {gone : List Nat} (hsub : gone ⊆ ids)
    (hnodup : gone.Nodup) {s : σ} (hmade : ∀ id ∈ gone, Made id s) :
    (gone.forM drop s).1 = .ok () ∧ R s (gone.forM drop s).2 ∧
      (∀ id ∈ gone, Room id (gone.forM drop s).2) ∧
      ∀ id ∈ ids, id ∉ gone → (Room id s → Room id (gone.forM drop s).2) ∧
        (Made id s → Made id (gone.forM drop s).2) := by
  induction gone generalizing s with
  | nil =>
    refine ⟨rfl, hR.refl s, fun id hid => ?_, fun _ _ _ => ⟨fun h => h, fun h => h⟩⟩
    cases hid
  | cons id rest ih =>
    obtain ⟨hid, hrest⟩ := List.cons_subset.mp hsub
    obtain ⟨hnot, hnodup⟩ := List.nodup_cons.mp hnodup
    obtain ⟨hok, hfirst, hroom⟩ := h.drops id hid s (hmade id List.mem_cons_self)
    have hothers := h.leaves id hid s
    obtain ⟨hok', hrest', hrooms, hkept⟩ := ih hrest hnodup (s := (drop id s).2) fun id' hid' =>
      (hothers id' (hrest hid') fun he => hnot (he ▸ hid')).2
        (hmade id' (List.mem_cons_of_mem id hid'))
    have hrun : (id :: rest).forM drop s = rest.forM drop (drop id s).2 :=
      bind_of_ok (Prod.ext hok rfl)
    rw [hrun]
    refine ⟨hok', hR.trans hfirst hrest', fun id' hid' => ?_, fun id' hid' hnot' => ?_⟩
    · rcases List.mem_cons.mp hid' with rfl | hid'
      · exact (hkept id' hid hnot).1 hroom
      · exact hrooms id' hid'
    · have hfirst' := hothers id' hid' fun he => hnot' (he ▸ List.mem_cons_self)
      have hlater := hkept id' hid' fun hm => hnot' (List.mem_cons_of_mem id hm)
      exact ⟨fun hr => hlater.1 (hfirst'.1 hr), fun hm => hlater.2 (hfirst'.2 hm)⟩

/-- **All or nothing.** Things made one after the other are all made in the
end, or there is room for all of them again, also for those made before. -/
theorem Makes.all_or_nothing {order : List Nat → List Nat} (hperm : ∀ ids, (order ids).Perm ids)
    (hdrops : Drops R Room Made ids drop) {made : List Nat} {l : List (Nat × Call σ ε Unit)}
    (h : Makes R Room Made ids l) (hsub : made ++ l.map Prod.fst ⊆ ids)
    (hnodup : (made ++ l.map Prod.fst).Nodup) {s : σ} (hmade : ∀ id ∈ made, Made id s)
    (hroom : ∀ x ∈ l, Room x.1 s) :
    R s (buildAll order drop made l s).2 ∧
      ((buildAll order drop made l s).1 = .ok () →
        ∀ id ∈ made ++ l.map Prod.fst, Made id (buildAll order drop made l s).2) ∧
      ((buildAll order drop made l s).1 ≠ .ok () →
        ∀ id ∈ made ++ l.map Prod.fst, Room id (buildAll order drop made l s).2) := by
  induction l generalizing made s with
  | nil =>
    refine ⟨hR.refl s, fun _ id hid => hmade id ?_, fun hne => absurd rfl hne⟩
    simpa using hid
  | cons x rest ih =>
    have hmoved : (made ++ (x :: rest).map Prod.fst).Perm (x.1 :: made ++ rest.map Prod.fst) := by
      rw [List.map_cons]
      exact List.perm_middle
    have hnodup' := hmoved.nodup_iff.mp hnodup
    have hsub' : x.1 :: made ++ rest.map Prod.fst ⊆ ids :=
      List.Subset.trans hmoved.symm.subset hsub
    have hx : x.1 ∈ ids := hsub' List.mem_cons_self
    have hmadeSub : made ⊆ ids := fun id hid => hsub (List.mem_append_left _ hid)
    have hdistinct : ∀ id ∈ made ++ rest.map Prod.fst, id ≠ x.1 :=
      fun id hid he => (List.nodup_cons.mp hnodup').1 (he ▸ hid)
    obtain ⟨hfirst, hworks, hfails⟩ := h.makes x List.mem_cons_self s (hroom x List.mem_cons_self)
    have hothers := h.leaves x List.mem_cons_self s
    have hothersMade : ∀ id ∈ made, Made id (x.2 s).2 := fun id hid =>
      (hothers id (hmadeSub hid) (hdistinct id (List.mem_append_left _ hid))).2 (hmade id hid)
    have hothersRoom : ∀ y ∈ rest, Room y.1 (x.2 s).2 := fun y hy =>
      (hothers y.1 (hsub' (List.mem_append_right _ (List.mem_map_of_mem hy)))
        (hdistinct y.1 (List.mem_append_right _ (List.mem_map_of_mem hy)))).1
        (hroom y (List.mem_cons_of_mem x hy))
    -- where making it doesn't work, all that was made is dropped
    have undone (hnot : (x.2 s).1 ≠ .ok ()) :
        R s ((order made).forM drop (x.2 s).2).2 ∧
          ∀ id ∈ made ++ (x :: rest).map Prod.fst,
            Room id ((order made).forM drop (x.2 s).2).2 := by
      have hgone : (order made).Nodup := (hperm made).nodup_iff.mpr
        (List.Nodup.of_append_left hnodup)
      obtain ⟨-, hR', hrooms, hkept⟩ := hdrops.all hR (s := (x.2 s).2)
        (List.Subset.trans (hperm made).subset hmadeSub) hgone
        fun id hid => hothersMade id ((hperm made).mem_iff.mp hid)
      refine ⟨hR.trans hfirst hR', fun id hid => ?_⟩
      by_cases hid' : id ∈ made
      · exact hrooms id ((hperm made).mem_iff.mpr hid')
      · refine (hkept id (hsub hid) fun hm => hid' ((hperm made).mem_iff.mp hm)).1 ?_
        rcases List.mem_cons.mp ((List.mem_append.mp hid).resolve_left hid') with rfl | hid
        · exact hfails hnot
        · obtain ⟨y, hy, rfl⟩ := List.mem_map.mp hid
          exact hothersRoom y hy
    rw [buildAll, Call.bind_run, orDrop_run]
    rcases hxs : x.2 s with ⟨u | e | _, t⟩ <;> rw [hxs] at hfirst hworks hothersMade hothersRoom
    · have hmade' : ∀ id ∈ x.1 :: made, Made id t := by
        intro id hid
        rcases List.mem_cons.mp hid with rfl | hid
        · exact hworks rfl
        · exact hothersMade id hid
      obtain ⟨hrest, hall, hnone⟩ := ih ⟨fun y hy => h.makes y (List.mem_cons_of_mem x hy),
        fun y hy => h.leaves y (List.mem_cons_of_mem x hy)⟩ hsub' hnodup' hmade' hothersRoom
      exact ⟨hR.trans hfirst hrest, fun hok id hid => hall hok id (hmoved.mem_iff.mp hid),
        fun hne id hid => hnone hne id (hmoved.mem_iff.mp hid)⟩
    · have hundone := undone (by rw [hxs]; simp)
      rw [hxs] at hundone
      exact ⟨hundone.1, (fun he => by cases he), fun _ => hundone.2⟩
    · have hundone := undone (by rw [hxs]; simp)
      rw [hxs] at hundone
      exact ⟨hundone.1, (fun he => by cases he), fun _ => hundone.2⟩

variable (Room Made) in
/-- **Everything at its own place.** Things made from their specs, each at a
place of its own, are all made in the end, or there is room for all of them. -/
theorem all_built {α : Type} {order : List Nat → List Nat} (hperm : ∀ ids, (order ids).Perm ids)
    {specs : List α} {key : α → Nat} {place : Nat → Nat} {make : α → Call σ ε Unit}
    (hkeys : (specs.map key).Nodup) (hplaces : (specs.map fun x => place (key x)).Nodup)
    (hmake : ∀ x ∈ specs, ∀ s, Room (place (key x)) s → R s (make x s).2 ∧
      ((make x s).1 = .ok () → Made (place (key x)) (make x s).2) ∧
      ((make x s).1 ≠ .ok () → Room (place (key x)) (make x s).2))
    (hdrop : ∀ x ∈ specs, ∀ s, Made (place (key x)) s → (drop (place (key x)) s).1 = .ok () ∧
      R s (drop (place (key x)) s).2 ∧ Room (place (key x)) (drop (place (key x)) s).2)
    (hleaves : ∀ x ∈ specs, ∀ p, p ≠ place (key x) → ∀ s,
      ((Room p s → Room p (make x s).2) ∧ (Made p s → Made p (make x s).2)) ∧
      ((Room p s → Room p (drop (place (key x)) s).2) ∧
        (Made p s → Made p (drop (place (key x)) s).2)))
    {s : σ} (hroom : ∀ x ∈ specs, Room (place (key x)) s) :
    let built := buildAll order (fun id => drop (place id)) []
      (specs.map fun x => (key x, make x)) s
    R s built.2 ∧ (built.1 = .ok () → ∀ x ∈ specs, Made (place (key x)) built.2) ∧
      (built.1 ≠ .ok () → ∀ x ∈ specs, Room (place (key x)) built.2) := by
  have hother : ∀ x ∈ specs, ∀ id ∈ specs.map key, id ≠ key x → place id ≠ place (key x) := by
    intro x hx id hid hne he
    obtain ⟨y, hy, rfl⟩ := List.mem_map.mp hid
    exact hne (congrArg key (List.inj_on_of_nodup_map hplaces hy hx he))
  have hdrops : Drops R (fun id => Room (place id)) (fun id => Made (place id)) (specs.map key)
      fun id => drop (place id) := by
    refine ⟨fun id hid s hmade => ?_, fun id hid s id' hid' hne => ?_⟩ <;>
      obtain ⟨x, hx, rfl⟩ := List.mem_map.mp hid
    · exact hdrop x hx s hmade
    · exact (hleaves x hx _ (hother x hx id' hid' hne) s).2
  have hmakes : Makes R (fun id => Room (place id)) (fun id => Made (place id)) (specs.map key)
      (specs.map fun x => (key x, make x)) := by
    refine ⟨fun y hy s hroom => ?_, fun y hy s id' hid' hne => ?_⟩ <;>
      obtain ⟨x, hx, rfl⟩ := List.mem_map.mp hy
    · exact hmake x hx s hroom
    · exact (hleaves x hx _ (hother x hx id' hid' hne) s).1
  have hids : (specs.map fun x => (key x, make x)).map Prod.fst = specs.map key := List.map_map ..
  have hsub : [] ++ (specs.map fun x => (key x, make x)).map Prod.fst ⊆ specs.map key := by
    rw [List.nil_append, hids]
    exact List.Subset.refl _
  have hnodup : ([] ++ (specs.map fun x => (key x, make x)).map Prod.fst).Nodup := by
    rw [List.nil_append, hids]
    exact hkeys
  have hroom' : ∀ y ∈ specs.map fun x => (key x, make x), Room (place y.1) s := by
    intro y hy
    obtain ⟨x, hx, rfl⟩ := List.mem_map.mp hy
    exact hroom x hx
  obtain ⟨hacts, hall, hnone⟩ := hmakes.all_or_nothing hR hperm hdrops hsub hnodup
    (fun _ h => by cases h) hroom'
  rw [List.nil_append, hids] at hall hnone
  exact ⟨hacts, fun hok x hx => hall hok (key x) (List.mem_map_of_mem hx),
    fun hne x hx => hnone hne (key x) (List.mem_map_of_mem hx)⟩

end Making

/-! ## Calls at some places -/

section Places

variable {B : Type} [Storage B] [Dispatch B] [Capturable B] [Areable B] [Topology B]
  {w w' : World B} {P P' A A' : Nat → Prop} {p a d : Nat}

/-- The call makes, fills or drops a tensor at a place of `P`, or makes or
drops a node at one of `A`. -/
def StaysAt (P A : Nat → Prop) : Act B → Prop
  | .tensor (.alloc _ _ p _ _) | .tensor (.dropTensor p) | .memory (.upload p _)
  | .memory (.zero p) => P p
  | .node (.build _ a _ _ _) | .node (.dropNode a) => A a
  | _ => False

/-- Such calls lead from one world to the other. -/
def Acts (P A : Nat → Prop) (w w' : World B) : Prop :=
  ∃ es, Runs (Where World.Step fun _ e => StaysAt P A e.act) w es w'

theorem frame_acts (P A : Nat → Prop) : Frame (Acts (B := B) P A) where
  refl w := ⟨[], .nil w⟩
  trans h h' := by
    obtain ⟨es, hes⟩ := h
    obtain ⟨es', hes'⟩ := h'
    exact ⟨es ++ es', hes.append hes'⟩

omit [Dispatch B] [Capturable B] [Areable B] [Topology B] in
theorem StaysAt.mono {act : Act B} (h : StaysAt P A act) (hP : ∀ p, P p → P' p)
    (hA : ∀ a, A a → A' a) : StaysAt P' A' act := by
  unfold StaysAt at h ⊢
  split at h
  all_goals first | exact hP _ h | exact hA _ h | exact h.elim

theorem Acts.mono (h : Acts P A w w') (hP : ∀ p, P p → P' p) (hA : ∀ a, A a → A' a) :
    Acts P' A' w w' := by
  obtain ⟨es, hes⟩ := h
  exact ⟨es, hes.mono fun _ _ _ hs => ⟨hs.1, hs.2.mono hP hA⟩⟩

/-- A call that gives nothing back is such a step. -/
theorem acts_of_silent (act : Act B) {c : Call (World B) Error Unit} (ha : act.Allowed w)
    (hperform : act.perform = silent c) (hstays : StaysAt P A act) : Acts P A w (c w).2 := by
  refine ⟨[⟨act, (silent c w).1⟩], .single ⟨⟨ha, ?_⟩, hstays⟩⟩
  rw [hperform]
  exact Prod.ext rfl (silent_world c w)

/-- What such a step leaves alone. -/
theorem staysAt_step {e : Wilupgu.Event B} (hs : w.Step e w') (h : StaysAt P A e.act) :
    Within P A w w' ∧ w'.areas = w.areas ∧ w'.recordings = w.recordings := by
  obtain ⟨-, hr⟩ := hs
  rcases e with ⟨act, out⟩
  obtain rfl : (act.perform w).2 = w' := congrArg Prod.snd hr
  have hF : Frame fun w w' : World B => w'.areas = w.areas := frame_eq World.areas
  cases act with
  | tensor act =>
    have hrecordings := (TensorAct.keeps frame_any tensors_any act w).1.recordings
    cases act with
    | alloc d env p kind len =>
      have hwithin := alloc_within (P := P) (A := A) h d env kind len w
      have hareas : Keeps (fun w w' : World B => w'.areas = w.areas)
          (World.alloc d env p kind len) :=
        hF.bind (fun _ => rfl) fun _ => keeps_modify fun _ => rfl
      rw [← silent_world] at hwithin
      exact ⟨hwithin, (congrArg World.areas (silent_world _ w)).trans (hareas w), hrecordings⟩
    | dropTensor p =>
      have hwithin := dropTensor_within (P := P) (A := A) h w
      have hareas : Keeps (fun w w' : World B => w'.areas = w.areas) (World.dropTensor p) :=
        hF.get_bind fun _ => hF.lift_bind fun _ =>
          hF.bind (keeps_modify fun _ => rfl) fun _ _ => rfl
      rw [← silent_world] at hwithin
      exact ⟨hwithin, (congrArg World.areas (silent_world _ w)).trans (hareas w), hrecordings⟩
    | reserve _ _ _ _ | carve _ _ _ _ | dropArea _ | moveTensor _ _ | replaceTensor _ _ =>
      exact h.elim
  | memory act =>
    have hf := (MemoryAct.keeps frame_any memory_any act w).1
    refine ⟨⟨fun p _ => ?_, fun a _ => ?_, hf.scopes⟩, hf.areas, hf.recordings⟩
    · exact congrArg (AList.lookup p) hf.tensors
    · exact congrArg (AList.lookup a) hf.nodes
  | node act =>
    have hf := (NodeAct.keeps frame_any nodes_any act w).1
    refine ⟨⟨fun p _ => congrArg (AList.lookup p) hf.tensors, ?_, hf.scopes⟩, hf.areas,
      hf.recordings⟩
    cases act with
    | build d a shader vals wg =>
      have hwithin := buildNode_within (P := P) (A := A) h d shader vals wg w
      rw [← silent_world] at hwithin
      exact hwithin.nodes
    | dropNode a =>
      have hwithin := dropNode_within (P := P) (A := A) h w
      rw [← silent_world] at hwithin
      exact hwithin.nodes
    | moveNode _ _ | replaceNode _ _ | updateMeta _ _ | scopeUpdateMeta _ _ _ => exact h.elim
  | scope act => exact h.elim
  | run act => exact h.elim

/-- And all such steps. -/
theorem Acts.within (h : Acts P A w w') :
    Within P A w w' ∧ w'.areas = w.areas ∧ w'.recordings = w.recordings := by
  have hF : Frame fun w w' : World B =>
      Within P A w w' ∧ w'.areas = w.areas ∧ w'.recordings = w.recordings :=
    (frame_within P A).and ((frame_eq World.areas).and (frame_eq World.recordings))
  obtain ⟨es, hes⟩ := h
  induction hes with
  | nil w => exact hF.refl w
  | cons hs _ ih => exact hF.trans (staysAt_step hs.1 hs.2) ih

/-! ## One tensor, one node -/

/-- Nothing stands at `p`, and nothing there is bound. -/
def TensorRoom (p : Nat) (w : World B) : Prop := w.tensors.Free p ∧ ¬w.TensorBound p

def NodeRoom (a : Nat) (w : World B) : Prop := w.nodes.Free a ∧ ¬w.NodeBound a

omit [Topology B] in
/-- What is bound is there. -/
theorem tensorRoom_of_free (hw : w.Valid) (h : w.tensors.Free p) : TensorRoom p w := by
  refine ⟨h, fun hbound => ?_⟩
  obtain ⟨scope, hscope, hp⟩ := hbound
  obtain ⟨s, hs⟩ := AList.mem_values.mp hscope
  obtain ⟨t, ht, -⟩ := hw.bufs s scope hs p hp
  cases h.symm.trans ht

omit [Topology B] in
theorem nodeRoom_of_free (hw : w.Valid) (h : w.nodes.Free a) : NodeRoom a w := by
  refine ⟨h, fun hbound => ?_⟩
  obtain ⟨scope, hscope, ha⟩ := hbound
  obtain ⟨s, hs⟩ := AList.mem_values.mp hscope
  obtain ⟨node, hnode, -⟩ := hw.nodes s scope hs a ha
  cases h.symm.trans hnode

omit [Topology B] in
theorem tensorBound_congr (h : w'.scopes = w.scopes) : w'.TensorBound p ↔ w.TensorBound p := by
  rw [World.TensorBound, World.TensorBound, h]

omit [Topology B] in
theorem nodeBound_congr (h : w'.scopes = w.scopes) : w'.NodeBound a ↔ w.NodeBound a := by
  rw [World.NodeBound, World.NodeBound, h]

omit [Topology B] in
/-- What is done at other places leaves a tensor's place as it is. -/
theorem Within.tensorPlace (h : Within P A w w') (hp : ¬P p) :
    (TensorRoom p w → TensorRoom p w') ∧ (w.HoldsTensor p → w'.HoldsTensor p) := by
  have hlookup := h.tensors p hp
  refine ⟨fun hroom => ⟨hlookup.trans hroom.1, ?_⟩, fun hheld => ⟨?_, ?_⟩⟩
  · exact (tensorBound_congr h.scopes).not.mpr hroom.2
  · rw [← AList.lookup_isSome, hlookup, AList.lookup_isSome]
    exact hheld.1
  · exact (tensorBound_congr h.scopes).not.mpr hheld.2

omit [Topology B] in
theorem Within.nodePlace (h : Within P A w w') (ha : ¬A a) :
    (NodeRoom a w → NodeRoom a w') ∧ (w.HoldsNode a → w'.HoldsNode a) := by
  have hlookup := h.nodes a ha
  refine ⟨fun hroom => ⟨hlookup.trans hroom.1, ?_⟩, fun hheld => ⟨?_, ?_⟩⟩
  · exact (nodeBound_congr h.scopes).not.mpr hroom.2
  · rw [← AList.lookup_isSome, hlookup, AList.lookup_isSome]
    exact hheld.1
  · exact (nodeBound_congr h.scopes).not.mpr hheld.2

theorem dropTensor_acts (h : w.HoldsTensor p) (hp : P p) :
    (World.dropTensor p w).1 = .ok () ∧ Acts P A w (World.dropTensor p w).2 ∧
      TensorRoom p (World.dropTensor p w).2 := by
  refine ⟨?_, acts_of_silent (.tensor (.dropTensor p)) h rfl hp, ?_⟩ <;>
    obtain ⟨t, ht⟩ := exists_of_mem h.1 <;> rw [dropTensor_run ht]
  exact ⟨AList.lookup_erase p w.tensors, h.2⟩

theorem dropNode_acts (h : w.HoldsNode a) (ha : A a) :
    (World.dropNode a w).1 = .ok () ∧ Acts P A w (World.dropNode a w).2 ∧
      NodeRoom a (World.dropNode a w).2 := by
  refine ⟨?_, acts_of_silent (.node (.dropNode a)) h rfl ha, ?_⟩ <;>
    obtain ⟨node, hnode⟩ := exists_of_mem h.1 <;> rw [dropNode_run hnode]
  exact ⟨AList.lookup_erase a w.nodes, h.2⟩

theorem fill_acts (spec : TensorSpec) (h : w.HoldsTensor p) (hp : P p) :
    Acts P A w (spec.fill p w).2 := by
  unfold TensorSpec.fill
  split
  · exact (frame_acts P A).refl w
  · exact acts_of_silent (.memory (.upload p _)) h rfl hp
  · exact acts_of_silent (.memory (.zero p)) h rfl hp

/-- It is filled, or it is dropped. -/
theorem filled_acts (spec : TensorSpec) (h : w.HoldsTensor p) (hp : P p) :
    Acts P A w ((spec.fill p).orDrop (World.dropTensor p) w).2 ∧
      (((spec.fill p).orDrop (World.dropTensor p) w).1 = .ok () →
        ((spec.fill p).orDrop (World.dropTensor p) w).2.HoldsTensor p) ∧
      (((spec.fill p).orDrop (World.dropTensor p) w).1 ≠ .ok () →
        TensorRoom p ((spec.fill p).orDrop (World.dropTensor p) w).2) := by
  have hF := frame_acts (B := B) P A
  have hfill := fill_acts (A := A) spec h hp
  have hstays := fill_within (P := fun _ => False) (A := fun _ => False) spec p w
  have hheld := (hstays.tensorPlace (p := p) not_false).2 h
  rw [orDrop_run]
  rcases hf : spec.fill p w with ⟨u | e | _, w₁⟩ <;> rw [hf] at hfill hheld
  · exact ⟨hfill, fun _ => hheld, fun hne => absurd rfl hne⟩
  all_goals
    obtain ⟨-, hdrop, hroom⟩ := dropTensor_acts (A := A) hheld hp
    exact ⟨hF.trans hfill hdrop, (fun he => by cases he), fun _ => hroom⟩

/-- **A tensor is built, or there is room for it again.** -/
theorem tensorBuild_acts (spec : TensorSpec) (d : Nat) (env : Storage.Env B)
    (hroom : TensorRoom p w) (hp : P p) : Acts P A w (spec.build d env p w).2 ∧
      ((spec.build d env p w).1 = .ok () → (spec.build d env p w).2.HoldsTensor p) ∧
      ((spec.build d env p w).1 ≠ .ok () → TensorRoom p (spec.build d env p w).2) := by
  have hF := frame_acts (B := B) P A
  rw [TensorSpec.build, check_run]
  rcases spec.ready with _ | e | _
  · simp only
    rw [check_run]
    rcases spec.len.value with len | e | _
    · have hfirst : Acts P A w (World.alloc d env p spec.kind len w).2 :=
        acts_of_silent (.tensor (.alloc d env p spec.kind len)) hroom.1 rfl hp
      simp only
      rw [Call.bind_run]
      rw [alloc_run] at hfirst ⊢
      rcases ht : ComputeDevice.alloc d env spec.kind len (w.devices d) with
        ⟨t | e | _, dev⟩ <;> rw [ht] at hfirst
      · have hheld : ((w.setDevice d dev).setTensors (w.tensors.insert p t)).HoldsTensor p :=
          ⟨(AList.mem_insert w.tensors).mpr (.inl rfl), hroom.2⟩
        obtain ⟨hrest, hmade⟩ := filled_acts (A := A) spec hheld hp
        exact ⟨hF.trans hfirst hrest, hmade⟩
      · exact ⟨hfirst, (fun he => by cases he), fun _ => hroom⟩
      · exact ⟨hfirst, (fun he => by cases he), fun _ => hroom⟩
    · exact ⟨hF.refl w, (fun he => by cases he), fun _ => hroom⟩
    · exact ⟨hF.refl w, (fun he => by cases he), fun _ => hroom⟩
  · exact ⟨hF.refl w, (fun he => by cases he), fun _ => hroom⟩
  · exact ⟨hF.refl w, (fun he => by cases he), fun _ => hroom⟩

/-- So is a node. -/
theorem nodeBuild_acts (spec : NodeSpec) (d : Nat) (hroom : NodeRoom a w) (ha : A a) :
    Acts P A w (spec.build d a w).2 ∧
      ((spec.build d a w).1 = .ok () → (spec.build d a w).2.HoldsNode a) ∧
      ((spec.build d a w).1 ≠ .ok () → NodeRoom a (spec.build d a w).2) := by
  have hF := frame_acts (B := B) P A
  rw [NodeSpec.build, check_run]
  rcases spec.metaSources.mapM MetaSource.buildValue with vals | e | _
  · simp only
    rw [check_run]
    rcases spec.workgroups.value with wg | e | _
    · simp only
      have hfirst : Acts P A w (World.buildNode d a spec.shader vals wg w).2 :=
        acts_of_silent (.node (.build d a spec.shader vals wg)) hroom.1 rfl ha
      rw [buildNode_run] at hfirst ⊢
      rcases hnode : ComputeDevice.node d w.nextUid spec.shader vals wg (w.devices d) with
        ⟨node | e | _, dev⟩ <;> rw [hnode] at hfirst
      · exact ⟨hfirst, fun _ => ⟨(AList.mem_insert w.nodes).mpr (.inl rfl), hroom.2⟩,
          fun hne => absurd rfl hne⟩
      · exact ⟨hfirst, (fun he => by cases he), fun _ => hroom⟩
      · exact ⟨hfirst, (fun he => by cases he), fun _ => hroom⟩
    · exact ⟨hF.refl w, (fun he => by cases he), fun _ => hroom⟩
    · exact ⟨hF.refl w, (fun he => by cases he), fun _ => hroom⟩
  · exact ⟨hF.refl w, (fun he => by cases he), fun _ => hroom⟩
  · exact ⟨hF.refl w, (fun he => by cases he), fun _ => hroom⟩

end Places

/-! ## A run that is dropped -/

section Runs

variable {B : Type} [Storage B] [Dispatch B] [Capturable B] [Areable B] [Topology B]
  {w w' : World B} {P A : Nat → Prop} {run : Run}

/-- The program has the run's tensors and nodes to itself, each once. -/
structure Run.Owned (run : Run) (w : World B) : Prop where
  tensor : ∀ id p, run.tensors.lookup id = some (.Live p) → w.HoldsTensor p
  node : ∀ id call, run.calls.lookup id = some call → w.HoldsNode call.node
  tensor_once : ∀ id id' p, run.tensors.lookup id = some (.Live p) →
    run.tensors.lookup id' = some (.Live p) → id = id'
  node_once : ∀ id id' call call', run.calls.lookup id = some call →
    run.calls.lookup id' = some call' → call.node = call'.node → id = id'

/-- There is room at each place of the run. -/
structure Run.Gone (run : Run) (w : World B) : Prop where
  tensor : ∀ id p, run.tensors.lookup id = some (.Live p) → TensorRoom p w
  node : ∀ id call, run.calls.lookup id = some call → NodeRoom call.node w

/-- Dropping the tensor `id` of a run. -/
def Run.dropTensor (run : Run) (id : Nat) : Call (World B) Error Unit :=
  match run.tensors.lookup id with
  | some (.Live p) => World.dropTensor p
  | _ => pure ()

/-- Dropping its node `id`. -/
def Run.dropNode (run : Run) (id : Nat) : Call (World B) Error Unit :=
  match run.calls.lookup id with
  | some call => World.dropNode call.node
  | none => pure ()

omit [Topology B] in
theorem run_drop_eq (run : Run) (order : List Nat → List Nat) :
    run.drop (B := B) order = (do
      (order run.tensors.keys).forM run.dropTensor
      (order run.calls.keys).forM run.dropNode) := rfl

theorem dropsTensors (hrun : run.Owned w) (hP : ∀ p, .Live p ∈ run.tensors.values → P p) :
    Drops (Acts (B := B) P A)
      (fun id w => ∀ p, run.tensors.lookup id = some (.Live p) → TensorRoom p w)
      (fun id w => ∀ p, run.tensors.lookup id = some (.Live p) → w.HoldsTensor p)
      run.tensors.keys run.dropTensor where
  drops id _ w hmade := by
    unfold Run.dropTensor
    split
    · rename_i p hp
      obtain ⟨hok, hacts, hroom⟩ := dropTensor_acts (P := P) (A := A) (hmade p hp)
        (hP p (AList.mem_values.mpr ⟨id, hp⟩))
      refine ⟨hok, hacts, fun q hq => ?_⟩
      cases hp.symm.trans hq
      exact hroom
    · rename_i hnone
      exact ⟨rfl, (frame_acts P A).refl w, fun q hq => absurd hq (hnone q)⟩
  leaves id _ w id' _ hne := by
    unfold Run.dropTensor
    split
    · rename_i p hp
      have hwithin := dropTensor_within (P := fun q => q = p) (A := fun _ => False) rfl w
      have hother : ∀ q, run.tensors.lookup id' = some (.Live q) → q ≠ p := by
        rintro q hq rfl
        exact hne (hrun.tensor_once id' id q hq hp)
      exact ⟨fun h q hq => (hwithin.tensorPlace (hother q hq)).1 (h q hq),
        fun h q hq => (hwithin.tensorPlace (hother q hq)).2 (h q hq)⟩
    · exact ⟨fun h => h, fun h => h⟩

theorem dropsNodes (hrun : run.Owned w) (hA : ∀ call ∈ run.calls.values, A call.node) :
    Drops (Acts (B := B) P A)
      (fun id w => ∀ call, run.calls.lookup id = some call → NodeRoom call.node w)
      (fun id w => ∀ call, run.calls.lookup id = some call → w.HoldsNode call.node)
      run.calls.keys run.dropNode where
  drops id _ w hmade := by
    unfold Run.dropNode
    split
    · rename_i call hcall
      obtain ⟨hok, hacts, hroom⟩ := dropNode_acts (P := P) (A := A) (hmade call hcall)
        (hA call (AList.mem_values.mpr ⟨id, hcall⟩))
      refine ⟨hok, hacts, fun other hother => ?_⟩
      cases hcall.symm.trans hother
      exact hroom
    · rename_i hnone
      refine ⟨rfl, (frame_acts P A).refl w, fun other hother => ?_⟩
      cases hnone.symm.trans hother
  leaves id _ w id' _ hne := by
    unfold Run.dropNode
    split
    · rename_i call hcall
      have hwithin := dropNode_within (P := fun _ => False) (A := fun a => a = call.node) rfl w
      have hother : ∀ other, run.calls.lookup id' = some other → other.node ≠ call.node :=
        fun other hother he => hne (hrun.node_once id' id other call hother hcall he)
      exact ⟨fun h other ho => (hwithin.nodePlace (hother other ho)).1 (h other ho),
        fun h other ho => (hwithin.nodePlace (hother other ho)).2 (h other ho)⟩
    · exact ⟨fun h => h, fun h => h⟩

/-- **A run that is dropped** is gone. -/
theorem Run.Owned.drop (hrun : run.Owned w) {order : List Nat → List Nat}
    (hperm : ∀ ids, (order ids).Perm ids) (hP : ∀ p, .Live p ∈ run.tensors.values → P p)
    (hA : ∀ call ∈ run.calls.values, A call.node) :
    Acts P A w (run.drop order w).2 ∧ run.Gone (run.drop order w).2 := by
  have hkeys {α : Type} (s : Places α) : order s.keys ⊆ s.keys ∧ (order s.keys).Nodup :=
    ⟨(hperm s.keys).subset, (hperm s.keys).nodup_iff.mpr s.keys_nodup⟩
  have hmem {α : Type} {s : Places α} {id : Nat} {a : α} (h : s.lookup id = some a) :
      id ∈ order s.keys :=
    (hperm s.keys).mem_iff.mpr (AList.mem_keys.mp (AList.lookup_isSome.mp (by rw [h]; rfl)))
  obtain ⟨hok, hfirst, hrooms, -⟩ := (dropsTensors (A := fun _ => False) hrun hP).all
    (frame_acts P _) (hkeys run.tensors).1 (hkeys run.tensors).2 fun id _ => hrun.tensor id
  obtain ⟨w₁, hw₁⟩ : ∃ w₁, (order run.tensors.keys).forM run.dropTensor w = (.ok (), w₁) :=
    ⟨_, Prod.ext hok rfl⟩
  rw [hw₁] at hfirst hrooms
  rw [run_drop_eq, bind_of_ok hw₁]
  obtain ⟨-, hnext, hrooms', -⟩ := (dropsNodes (P := fun _ => False) hrun hA).all
    (frame_acts _ A) (hkeys run.calls).1 (hkeys run.calls).2 fun id _ call hcall =>
      (hfirst.within.1.nodePlace not_false).2 (hrun.node id call hcall)
  refine ⟨(frame_acts P A).trans (hfirst.mono (fun _ h => h) fun _ => False.elim)
    (hnext.mono (fun _ => False.elim) fun _ h => h), fun id p hp => ?_, fun id call hcall => ?_⟩
  · exact (hnext.within.1.tensorPlace not_false).1 (hrooms id (hmem hp) p hp)
  · exact hrooms' id (hmem hcall) call hcall

end Runs

/-! ## Builds -/

section Builds

variable {B : Type} [Storage B] [Dispatch B] [Capturable B] [Areable B] [Topology B]
  {w : World B} {plan : RunSpec} {site : Site B} {d : Nat}

/-- A plan's tensors are all built, or there is room for all of them. -/
theorem buildTensors_acts (hv : (plan.tensors.map fun spec => site.place spec.id).Nodup)
    (hroom : ∀ spec ∈ plan.tensors, TensorRoom (site.place spec.id) w) :
    let built := buildAll site.order (fun id => World.dropTensor (site.place id)) []
      (plan.tensors.map fun spec =>
        (spec.id, spec.build d (site.env spec.id) (site.place spec.id))) w
    Acts (site.places plan) (fun _ => False) w built.2 ∧
      (built.1 = .ok () → ∀ spec ∈ plan.tensors, built.2.HoldsTensor (site.place spec.id)) ∧
      (built.1 ≠ .ok () → ∀ spec ∈ plan.tensors, TensorRoom (site.place spec.id) built.2) := by
  refine all_built (frame_acts _ _) TensorRoom (fun p w => w.HoldsTensor p) site.perm
    plan.nodup_tensors hv (fun spec hspec w hroom => ?_) (fun spec hspec w hmade => ?_)
    (fun spec hspec p hp w => ⟨?_, ?_⟩) hroom
  · exact tensorBuild_acts spec d _ hroom ⟨spec, hspec, rfl⟩
  · exact dropTensor_acts hmade ⟨spec, hspec, rfl⟩
  · exact (tensorBuild_within (P := fun p => p = site.place spec.id) (A := fun _ => False) rfl
      spec d _ w).tensorPlace hp
  · exact (dropTensor_within (P := fun p => p = site.place spec.id) (A := fun _ => False) rfl
      w).tensorPlace hp

/-- So are its nodes. -/
theorem buildNodes_acts (hv : (plan.calls.map fun spec => site.address spec.id).Nodup)
    (hroom : ∀ spec ∈ plan.calls, NodeRoom (site.address spec.id) w) :
    let built := buildAll site.order (fun id => World.dropNode (site.address id)) []
      (plan.calls.map fun spec => (spec.id, spec.node.build d (site.address spec.id))) w
    Acts (fun _ => False) (site.addresses plan) w built.2 ∧
      (built.1 = .ok () → ∀ spec ∈ plan.calls, built.2.HoldsNode (site.address spec.id)) ∧
      (built.1 ≠ .ok () → ∀ spec ∈ plan.calls, NodeRoom (site.address spec.id) built.2) := by
  refine all_built (frame_acts _ _) NodeRoom (fun a w => w.HoldsNode a) site.perm
    plan.nodup_calls hv (fun spec hspec w hroom => ?_) (fun spec hspec w hmade => ?_)
    (fun spec hspec a ha w => ⟨?_, ?_⟩) hroom
  · exact nodeBuild_acts spec.node d hroom ⟨spec, hspec, rfl⟩
  · exact dropNode_acts hmade ⟨spec, hspec, rfl⟩
  · exact (nodeBuild_within (P := fun _ => False) (A := fun a => a = site.address spec.id) rfl
      spec.node d w).nodePlace ha
  · exact (dropNode_within (P := fun _ => False) (A := fun a => a = site.address spec.id) rfl
      w).nodePlace ha

omit [Dispatch B] [Capturable B] [Areable B] [Topology B] in
theorem builtCalls_lookup {id : Nat} {call : RunCall} :
    (builtCalls plan site).lookup id = some call ↔ ∃ spec ∈ plan.calls, spec.id = id ∧
      ⟨site.address spec.id, spec.tensors, spec.node.metaSources⟩ = call := by
  rw [builtCalls, AList.lookup_ofList]

/-- **The nodes are built and the run is checked**, or everything is dropped,
the tensors that it was to have too. -/
theorem withTensors_acts (tensors : Places AnyTensor) {P : Nat → Prop}
    (hP : ∀ p, .Live p ∈ tensors.values → P p)
    (hheld : ∀ id p, tensors.lookup id = some (.Live p) → w.HoldsTensor p)
    (hdistinct : ∀ id id' p, tensors.lookup id = some (.Live p) →
      tensors.lookup id' = some (.Live p) → id = id')
    (hv : (plan.calls.map fun spec => site.address spec.id).Nodup)
    (hroom : ∀ spec ∈ plan.calls, NodeRoom (site.address spec.id) w) :
    Acts P (site.addresses plan) w (Run.withTensors plan d site tensors w).2 ∧
      ((∀ run, (Run.withTensors plan d site tensors w).1 ≠ .ok run) →
        (∀ id p, tensors.lookup id = some (.Live p) →
          TensorRoom p (Run.withTensors plan d site tensors w).2) ∧
        ∀ spec ∈ plan.calls,
          NodeRoom (site.address spec.id) (Run.withTensors plan d site tensors w).2) := by
  have hF := frame_acts (B := B) P (site.addresses plan)
  obtain ⟨hnodes, hall, hnone⟩ := buildNodes_acts (d := d) hv hroom
  have hheld' := fun id p h => (hnodes.within.1.tensorPlace not_false).2 (hheld id p h)
  have hnodes' : Acts P (site.addresses plan) w _ := hnodes.mono (fun _ => False.elim) fun _ h => h
  rw [Run.withTensors, Call.bind_run, orDrop_run]
  rcases hb : buildAll site.order (fun id => World.dropNode (site.address id)) []
    (plan.calls.map fun spec => (spec.id, spec.node.build d (site.address spec.id))) w with
    ⟨u | e | _, w₁⟩ <;> rw [hb] at hnodes' hall hnone hheld' <;> rw [hb] <;> simp only
  · have hrun : (builtRun plan d site tensors).Owned w₁ := by
      refine ⟨hheld', fun id call hcall => ?_, hdistinct, fun id id' call call' hc hc' he => ?_⟩
      · obtain ⟨spec, hspec, -, rfl⟩ := builtCalls_lookup.mp hcall
        exact hall rfl spec hspec
      · obtain ⟨spec, hspec, rfl, rfl⟩ := builtCalls_lookup.mp hc
        obtain ⟨spec', hspec', rfl, rfl⟩ := builtCalls_lookup.mp hc'
        rw [List.inj_on_of_nodup_map hv hspec hspec' he]
    obtain ⟨hdrop, hgone⟩ := hrun.drop site.perm (P := P) (A := site.addresses plan) hP
      fun call hcall => builtCalls_values hcall
    have hgone' : (∀ id p, tensors.lookup id = some (.Live p) → TensorRoom p
        ((builtRun plan d site tensors).drop site.order w₁).2) ∧
        ∀ spec ∈ plan.calls, NodeRoom (site.address spec.id)
          ((builtRun plan d site tensors).drop site.order w₁).2 :=
      ⟨hgone.tensor, fun spec hspec =>
        hgone.node spec.id _ (builtCalls_lookup.mpr ⟨spec, hspec, rfl, rfl⟩)⟩
    rw [Call.bind_run, orDrop_run, bind_of_ok (get_run w₁), lift_run]
    rcases Run.longEnough _ w₁ (site.order _) with _ | e | _
    · exact ⟨hnodes', fun hne => absurd rfl (hne _)⟩
    · exact ⟨hF.trans hnodes' hdrop, fun _ => hgone'⟩
    · exact ⟨hF.trans hnodes' hdrop, fun _ => hgone'⟩
  all_goals
    -- no node was built, so there are tensors only to drop
    have hrun : ({ builtRun plan d site tensors with calls := ∅ } : Run).Owned w₁ :=
      ⟨hheld', (fun _ _ h => by cases h), hdistinct, fun _ _ _ _ h _ _ => by cases h⟩
    obtain ⟨hdrop, hgone⟩ := hrun.drop site.perm (P := P) (A := fun _ => False) hP
      fun _ h => by cases h
    refine ⟨hF.trans hnodes' (hdrop.mono (fun _ h => h) fun _ => False.elim), fun _ =>
      ⟨hgone.tensor, fun spec hspec => ?_⟩⟩
    exact (hdrop.within.1.nodePlace not_false).1 (hnone (fun he => by cases he) spec hspec)

/-- **A build** is calls at the places of its site, and leaves room at each of
them if it doesn't succeed. -/
theorem build_acts (hw : w.Valid) (hv : Session.Vacant w plan site) :
    Acts (site.places plan) (site.addresses plan) w (plan.build d site w).2 ∧
      ((∀ run, (plan.build d site w).1 ≠ .ok run) →
        (∀ spec ∈ plan.tensors, TensorRoom (site.place spec.id) (plan.build d site w).2) ∧
        ∀ spec ∈ plan.calls, NodeRoom (site.address spec.id) (plan.build d site w).2) := by
  have hF := frame_acts (B := B) (site.places plan) (site.addresses plan)
  have hroom := fun spec hspec => tensorRoom_of_free hw (hv.place spec hspec)
  have hroom' := fun spec hspec => nodeRoom_of_free hw (hv.address spec hspec)
  obtain ⟨htensors, hall, hnone⟩ := buildTensors_acts (d := d) hv.places hroom
  have hnodeRoom := fun spec hspec =>
    (htensors.within.1.nodePlace (a := site.address spec.id) not_false).1 (hroom' spec hspec)
  have htensors' : Acts (site.places plan) (site.addresses plan) w _ :=
    htensors.mono (fun _ h => h) fun _ => False.elim
  rw [RunSpec.build, check_run]
  rcases plan.ready with _ | e | _
  · simp only
    rw [Run.build, Call.bind_run]
    rcases hb : buildAll site.order (fun id => World.dropTensor (site.place id)) []
      (plan.tensors.map fun spec =>
        (spec.id, spec.build d (site.env spec.id) (site.place spec.id))) w with
      ⟨u | e | _, w₁⟩ <;> rw [hb] at htensors' hall hnone hnodeRoom
    · obtain ⟨hrest, hundone⟩ := withTensors_acts (w := w₁) (d := d) (P := site.places plan)
        (builtTensors plan site) (fun p hp => builtTensors_values hp)
        (fun id p hp => by
          obtain ⟨spec, hspec, -, rfl⟩ := builtTensors_lookup.mp hp
          exact hall rfl spec hspec)
        (fun id id' p hp hp' => by
          obtain ⟨spec, hspec, rfl, rfl⟩ := builtTensors_lookup.mp hp
          obtain ⟨spec', hspec', rfl, he⟩ := builtTensors_lookup.mp hp'
          rw [List.inj_on_of_nodup_map hv.places hspec hspec' he.symm])
        hv.addresses hnodeRoom
      refine ⟨hF.trans htensors' hrest, fun hnot => ?_⟩
      obtain ⟨hgone, hgone'⟩ := hundone hnot
      exact ⟨fun spec hspec => hgone spec.id _ (builtTensors_lookup.mpr ⟨spec, hspec, rfl, rfl⟩),
        hgone'⟩
    · exact ⟨htensors', fun _ => ⟨hnone (fun he => by cases he), hnodeRoom⟩⟩
    · exact ⟨htensors', fun _ => ⟨hnone (fun he => by cases he), hnodeRoom⟩⟩
  · exact ⟨hF.refl w, fun _ => ⟨hroom, hroom'⟩⟩
  · exact ⟨hF.refl w, fun _ => ⟨hroom, hroom'⟩⟩

/-- So is one of hollow tensors, at the places of its nodes. -/
theorem buildHollow_acts (hw : w.Valid) (hv : Session.NodesVacant w plan site) :
    Acts (fun _ => False) (site.addresses plan) w (plan.buildHollow d site w).2 ∧
      ((∀ run, (plan.buildHollow d site w).1 ≠ .ok run) →
        ∀ spec ∈ plan.calls, NodeRoom (site.address spec.id) (plan.buildHollow d site w).2) := by
  have hF := frame_acts (B := B) (fun _ => False) (site.addresses plan)
  have hroom := fun spec hspec => nodeRoom_of_free hw (hv.address spec hspec)
  rw [RunSpec.buildHollow, check_run]
  rcases plan.calls.forM CallSpec.ready with _ | e | _
  · simp only
    rw [Run.buildHollow, check_run]
    rcases ht : Run.hollowTensors plan with tensors | e | _
    · -- none of its tensors is live
      have hnone : ∀ id p, tensors.toAList.lookup id ≠ some (.Live p) := by
        intro id p hp
        obtain ⟨_, -, -, _, -, he⟩ := (hollowTensors_lookup ht).mp hp
        cases he
      obtain ⟨hacts, hundone⟩ := withTensors_acts (w := w) (d := d) (P := fun _ => False)
        tensors.toAList (fun p hp => by
          obtain ⟨id, hid⟩ := AList.mem_values.mp hp
          exact hnone id p hid)
        (fun id p hp => absurd hp (hnone id p)) (fun id _ p hp => absurd hp (hnone id p))
        hv.addresses hroom
      exact ⟨hacts, fun hnot => (hundone hnot).2⟩
    · exact ⟨hF.refl w, fun _ => hroom⟩
    · exact ⟨hF.refl w, fun _ => hroom⟩
  · exact ⟨hF.refl w, fun _ => hroom⟩
  · exact ⟨hF.refl w, fun _ => hroom⟩

/-- Everything stands where it stood. -/
structure Undone (w w' : World B) : Prop where
  tensors : ∀ p, w'.tensors.lookup p = w.tensors.lookup p
  nodes : ∀ a, w'.nodes.lookup a = w.nodes.lookup a
  areas : w'.areas = w.areas
  scopes : w'.scopes = w.scopes
  recordings : w'.recordings = w.recordings

theorem undone_of_acts {w' : World B} {P A : Nat → Prop} (h : Acts P A w w')
    (hP : ∀ p, P p → w.tensors.Free p ∧ TensorRoom p w')
    (hA : ∀ a, A a → w.nodes.Free a ∧ NodeRoom a w') : Undone w w' := by
  obtain ⟨hwithin, hareas, hrecordings⟩ := h.within
  refine ⟨fun p => ?_, fun a => ?_, hareas, hwithin.scopes, hrecordings⟩
  · by_cases hp : P p
    · exact (hP p hp).2.1.trans (hP p hp).1.symm
    · exact hwithin.tensors p hp
  · by_cases ha : A a
    · exact (hA a ha).2.1.trans (hA a ha).1.symm
    · exact hwithin.nodes a ha

/-- A build of a plan at its site, live or hollow, that ends so. -/
inductive Ends (plan : RunSpec) (d : Nat) (site : Site B) (w : World B) :
    Outcome Error Run × World B → Prop
  | live : Session.Vacant w plan site → Ends plan d site w (plan.build d site w)
  | hollow : Session.NodesVacant w plan site → Ends plan d site w (plan.buildHollow d site w)

/-- **A build that doesn't succeed** leaves everything where it was. It was
calls at free places. -/
theorem build_undone {out : Outcome Error Run} {w' : World B} (hw : w.Valid)
    (h : Ends plan d site w (out, w')) (hnot : ∀ run, out ≠ .ok run) :
    Undone w w' ∧ ∃ P A : Nat → Prop, Acts P A w w' ∧ ∀ p, P p → w.tensors.Free p := by
  generalize hx : (out, w') = x at h
  cases h with
  | live hv =>
    obtain ⟨hacts, hundone⟩ := build_acts (d := d) hw hv
    rw [← hx] at hacts hundone
    obtain ⟨htensors, hnodes⟩ := hundone hnot
    have hfree : ∀ p, site.places plan p → w.tensors.Free p ∧ TensorRoom p w' := by
      rintro p ⟨spec, hspec, rfl⟩
      exact ⟨hv.place spec hspec, htensors spec hspec⟩
    refine ⟨undone_of_acts hacts hfree ?_, _, _, hacts, fun p hp => (hfree p hp).1⟩
    rintro a ⟨spec, hspec, rfl⟩
    exact ⟨hv.address spec hspec, hnodes spec hspec⟩
  | hollow hv =>
    obtain ⟨hacts, hundone⟩ := buildHollow_acts (d := d) hw hv
    rw [← hx] at hacts hundone
    have hnodes := hundone hnot
    refine ⟨undone_of_acts hacts (fun _ => False.elim) ?_, _, _, hacts, fun _ => False.elim⟩
    rintro a ⟨spec, hspec, rfl⟩
    exact ⟨hv.address spec hspec, hnodes spec hspec⟩

end Builds

/-! ## On the CPU -/

section Cpu

open Backends Capture Memory

variable {w w' : World CpuBackend} {P A : Nat → Prop} {plan : RunSpec} {site : Site CpuBackend}
  {d : Nat}

/-- Calls at other places leave a tensor's contents alone. -/
theorem Acts.bytesAt (h : Acts P A w w') (hw : Established w) (hb : ∀ d, Balanced w d) {p : Nat}
    (hp : ¬P p) : bytesAt w' p = bytesAt w p := by
  obtain ⟨es, hes⟩ := h
  induction hes with
  | nil => rfl
  | cons hs _ ih =>
    rename_i w₁ w₂ w₃ e es _
    obtain ⟨hstep, hstays⟩ := hs
    refine (ih (hw.step hstep) fun d => (hb d).step hw hstep).trans ?_
    have hsame := (staysAt_step hstep hstays).1.tensors p hp
    rcases ht : w₁.tensors.lookup p with _ | t
    · rw [Memory.bytesAt, Memory.bytesAt, hsame, ht]
    · rcases e with ⟨act, out⟩
      refine bytes_step hw (hb t.dev) (fun s r he => ?_) hstep ht rfl ?_ ?_
      · cases he
        exact hstays.elim
      · cases act with
        | tensor act =>
          cases act with
          | dropTensor q =>
            refine if_neg ?_
            rintro rfl
            exact hp hstays
          | alloc _ _ _ _ _ => rfl
          | reserve _ _ _ _ | carve _ _ _ _ | dropArea _ | moveTensor _ _ | replaceTensor _ _ =>
            exact hstays.elim
        | memory _ | node _ => rfl
        | scope _ | run _ => exact hstays.elim
      · cases act with
        | memory act =>
          cases act with
          | upload q _ | zero q =>
            rintro (rfl : p = q)
            exact hp hstays
          | uploadAt _ _ _ | download _ | downloadRange _ _ _ | copyInto _ _ _ _ _
          | scopeUpload _ _ _ | scopeDownload _ _ | scopeCopy _ _ _ _ _ _ => exact hstays.elim
        | tensor _ | node _ => exact not_false
        | scope _ | run _ => exact hstays.elim

/-- **A build that fails leaves nothing behind** but what the pools keep. From
any world a program gets to: tensors, nodes, areas, scopes and recordings stand
where they stood, every tensor has the contents it had, and the live blocks of
a device are those of its tensors and areas of before, and its pool's. -/
theorem failed_build_leaves_nothing {poolBytes : Nat → Nat}
    (hw : World.Reachable CpuBackend.attach poolBytes w) {out : Outcome Error Run}
    (h : Ends plan d site w (out, w')) (hnot : ∀ run, out ≠ .ok run) :
    Undone w w' ∧ bytesAt w' = bytesAt w ∧ ∀ d', (w.tensors.values.filterMap (tensorBlock d') ++
      (poolBlocks (w'.devices d') ++ w.areas.values.filterMap (areaBlock d'))).Perm
        (blocks w' d') := by
  have hbalanced := fun d => balanced hw d
  obtain ⟨hundone, P, A, hacts, hfree⟩ := build_undone (hbalanced 0).1.valid h hnot
  refine ⟨hundone, funext fun p => ?_, fun d' => ?_⟩
  · by_cases hp : P p
    · have hnone := hfree p hp
      rw [Memory.bytesAt, Memory.bytesAt, hundone.tensors p, hnone]
    · exact hacts.bytesAt (hbalanced 0).1 (fun d => (hbalanced d).2) hp
  · obtain ⟨es, hes⟩ := hacts
    obtain ⟨-, hperm⟩ := balanced (hw.trans hes.of_where) d'
    refine List.Perm.trans (.append ?_ ?_) hperm
    · exact (AList.values_perm fun p => (hundone.tensors p).symm).filterMap _
    · rw [hundone.areas]

namespace Sample

/-- A shader that no CPU runs. -/
def wgslOnly : Shader := ⟨Backends.Sample.fill.signature, .Wgsl ""⟩

/-- A tensor, and a call of such a shader on it. -/
def unbuildable : RunSpec :=
  ⟨⟨[bytes], [⟨1, ⟨wgslOnly, [], some (.linear 1), rfl⟩, [0], rfl⟩], tensorOnly.tensorIds,
    List.nodup_singleton _⟩, rfl⟩

/-- Another tensor. -/
def filledAside : World CpuBackend := Capture.Sample.start.after [
  .tensor (.alloc 0 Backends.Sample.env 7 .Int8 4), .memory (.upload 7 (.Int8 [1, 2, 3, 4]))]

end Sample

/-- Its tensor is built and dropped again, and the other one stays as it is. -/
theorem unbuildable_leaves_nothing : ∃ out w',
    Sample.unbuildable.build 0 Sample.site Sample.filledAside = (out, w') ∧
    bytesAt w' = bytesAt Sample.filledAside := by
  have hvacant : Session.Vacant Sample.filledAside Sample.unbuildable Sample.site :=
    ⟨⟨by decide, by decide⟩, by decide, by decide⟩
  have hplays : (Capture.Sample.start.play (fun _ _ => True)
      [.tensor (.alloc 0 Backends.Sample.env 7 .Int8 4),
        .memory (.upload 7 (.Int8 [1, 2, 3, 4]))]).isSome = true := by decide
  obtain ⟨es, hes⟩ := World.runs_after hplays
  have hfails : (Sample.unbuildable.build 0 Sample.site Sample.filledAside).1.isOk = false := by
    decide
  have hends : Ends Sample.unbuildable 0 Sample.site Sample.filledAside _ := .live hvacant
  rcases hb : Sample.unbuildable.build 0 Sample.site Sample.filledAside with ⟨out, w'⟩
  rw [hb] at hfails hends
  refine ⟨out, w', rfl, (failed_build_leaves_nothing ⟨es, hes.of_where⟩ hends fun run he => ?_).2.1⟩
  rw [he] at hfails
  cases hfails

end Cpu

end Wilupgu.Plan
