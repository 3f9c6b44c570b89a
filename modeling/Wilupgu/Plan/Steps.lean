import Wilupgu.Plan.Building

/-! # A build is calls of the safe layer

What a successful build does to the world, a program could have done by calls
on tensors and nodes. So what such calls keep, a build keeps. -/

namespace Wilupgu.Plan

open Backend Call Transition

variable {B : Type} [Storage B] [Dispatch B] [Capturable B] [Areable B] [Topology B]
  {w w' : World B} {d : Nat}

/-- The step opens no scope. -/
def OpensNone (_ : World B) (e : Wilupgu.Event B) : Prop := ∀ s d, e.act ≠ .scope (.openOn s d)

/-- Steps that open no scope lead from one world to the other. -/
def ByCalls (w w' : World B) : Prop := w.Valid → ∃ es, Runs (Where World.Step OpensNone) w es w'

theorem frame_byCalls : Frame (ByCalls (B := B)) where
  refl w _ := ⟨[], .nil w⟩
  trans h h' hw := by
    obtain ⟨es, hes⟩ := h hw
    obtain ⟨es', hes'⟩ := h' (hw.run hes.of_where)
    exact ⟨es ++ es', hes.append hes'⟩

/-- A call that gives nothing back and succeeds is a step. -/
theorem byCalls_of_silent {a : Act B} {c : Call (World B) Error Unit} (ha : w.Valid → a.Allowed w)
    (hperform : a.perform = silent c) (hopen : ∀ s d, a ≠ .scope (.openOn s d))
    (h : c w = (.ok (), w')) : ByCalls w w' := by
  intro hw
  refine ⟨[⟨a, .ok .unit⟩], .single ⟨⟨ha hw, ?_⟩, hopen⟩⟩
  rw [hperform, silent, bind_of_ok h]
  rfl

/-! ## Tensors and nodes -/

theorem tensorBuild_byCalls {spec : TensorSpec} {env : Storage.Env B} {p : Nat}
    (hp : w.tensors.Free p) (h : spec.build d env p w = (.ok (), w')) : ByCalls w w' := by
  intro hw
  rw [TensorSpec.build, Call.check_eq_ok] at h
  obtain ⟨_, -, h⟩ := h
  rw [Call.check_eq_ok] at h
  obtain ⟨len, -, h⟩ := h
  obtain ⟨_, w₁, halloc, hfill⟩ := bind_eq_ok.mp h
  rw [orDrop_eq_ok] at hfill
  have hfirst : ByCalls w w₁ := byCalls_of_silent (a := .tensor (.alloc d env p spec.kind len))
    (fun _ => hp) rfl (fun _ _ he => by cases he) halloc
  have hscopes := (alloc_within (P := fun q => q = p) (A := fun _ => False) rfl d env spec.kind len
    w).scopes
  rw [halloc] at hscopes
  have hheld : w₁.HoldsTensor p := by
    refine ⟨?_, fun hbound => ?_⟩
    · rw [alloc_run] at halloc
      rcases ht : ComputeDevice.alloc d env spec.kind len (w.devices d) with
        ⟨t | e | _, dev⟩ <;> rw [ht] at halloc <;> cases halloc
      exact (AList.mem_insert w.tensors).mpr (.inl rfl)
    · -- nothing is bound that wasn't there
      obtain ⟨scope, hscope, hmem⟩ := hbound
      rw [hscopes] at hscope
      obtain ⟨s, hs⟩ := AList.mem_values.mp hscope
      obtain ⟨t, ht, -⟩ := hw.bufs s scope hs p hmem
      cases hp.symm.trans ht
  refine frame_byCalls.trans hfirst ?_ hw
  rw [TensorSpec.fill] at hfill
  split at hfill
  · cases hfill
    exact frame_byCalls.refl _
  · rename_i data _
    exact byCalls_of_silent (a := .memory (.upload p data)) (fun _ => hheld) rfl
      (fun _ _ he => by cases he) hfill
  · exact byCalls_of_silent (a := .memory (.zero p)) (fun _ => hheld) rfl
      (fun _ _ he => by cases he) hfill

theorem nodeBuild_byCalls {spec : NodeSpec} {a : Nat} (ha : w.nodes.Free a)
    (h : spec.build d a w = (.ok (), w')) : ByCalls w w' := by
  rw [NodeSpec.build, Call.check_eq_ok] at h
  obtain ⟨vals, -, h⟩ := h
  rw [Call.check_eq_ok] at h
  obtain ⟨wg, -, h⟩ := h
  exact byCalls_of_silent (a := .node (.build d a spec.shader vals wg)) (fun _ => ha) rfl
    (fun _ _ he => by cases he) h

/-! ## All of them -/

omit [Storage B] [Dispatch B] [Capturable B] [Areable B] [Topology B] in
/-- Things made one after the other, each where there is still room for it. -/
theorem buildAll_frame {σ ε : Type} {R : σ → σ → Prop} (hR : Frame R) (Room : Nat → σ → Prop)
    {order : List Nat → List Nat} {drop : Nat → Call σ ε Unit} {made : List Nat}
    {l : List (Nat × Call σ ε Unit)} {s t : σ} (hl : (l.map Prod.fst).Nodup)
    (hmakes : ∀ x ∈ l, ∀ s t, Room x.1 s → x.2 s = (.ok (), t) → R s t)
    (hleaves : ∀ x ∈ l, ∀ y ∈ l, y.1 ≠ x.1 → ∀ s t, x.2 s = (.ok (), t) → Room y.1 s → Room y.1 t)
    (hroom : ∀ x ∈ l, Room x.1 s) (h : buildAll order drop made l s = (.ok (), t)) : R s t := by
  induction l generalizing made s with
  | nil =>
    cases h
    exact hR.refl _
  | cons x rest ih =>
    obtain ⟨_, s', hx, hrest⟩ := bind_eq_ok.mp h
    rw [orDrop_eq_ok] at hx
    obtain ⟨hnot, hrest'⟩ := List.nodup_cons.mp hl
    refine hR.trans (hmakes x List.mem_cons_self s s' (hroom x List.mem_cons_self) hx) ?_
    refine ih hrest' (fun y hy => hmakes y (List.mem_cons_of_mem x hy)) ?_ ?_ hrest
    · exact fun y hy z hz => hleaves y (List.mem_cons_of_mem x hy) z (List.mem_cons_of_mem x hz)
    · intro y hy
      refine hleaves x List.mem_cons_self y (List.mem_cons_of_mem x hy) ?_ s s' hx
        (hroom y (List.mem_cons_of_mem x hy))
      intro he
      exact hnot (he ▸ List.mem_map_of_mem hy)

variable {plan : RunSpec} {site : Site B} {run : Run}

/-- **A successful build**, taken apart. -/
theorem build_parts (h : plan.build d site w = (.ok run, w')) : plan.ready = .ok () ∧ ∃ w₁,
    buildAll site.order (fun id => World.dropTensor (site.place id)) [] (plan.tensors.map fun spec =>
      (spec.id, spec.build d (site.env spec.id) (site.place spec.id))) w = (.ok (), w₁) ∧
    buildAll site.order (fun id => World.dropNode (site.address id)) [] (plan.calls.map fun spec =>
      (spec.id, spec.node.build d (site.address spec.id))) w₁ = (.ok (), w') := by
  rw [RunSpec.build, Call.check_eq_ok] at h
  obtain ⟨_, hready, h⟩ := h
  obtain ⟨_, w₁, htensors, h⟩ := bind_eq_ok.mp h
  obtain ⟨_, w₂, hnodes, h⟩ := bind_eq_ok.mp h
  obtain ⟨_, w₃, hchecked, h⟩ := bind_eq_ok.mp h
  rw [orDrop_eq_ok] at hnodes hchecked
  cases h
  rw [bind_of_ok (get_run w₂), lift_run] at hchecked
  obtain ⟨-, rfl⟩ := Prod.mk.inj hchecked
  exact ⟨hready, w₁, htensors, hnodes⟩

/-- **A build is calls** that open no scope. -/
theorem build_byCalls (hv : Session.Vacant w plan site)
    (h : plan.build d site w = (.ok run, w')) : ByCalls w w' := by
  obtain ⟨-, w₁, htensors, hnodes⟩ := build_parts h
  have hF : Frame fun w w' : World B =>
      ByCalls w w' ∧ ∀ a, w'.nodes.lookup a = w.nodes.lookup a :=
    frame_byCalls.and ⟨fun _ _ => rfl, fun h h' a => (h' a).trans (h a)⟩
  have hfirst := buildAll_frame hF (fun id w => w.tensors.Free (site.place id)) ?_ ?_ ?_ ?_
    htensors
  · refine frame_byCalls.trans hfirst.1 (buildAll_frame frame_byCalls
      (fun id w => w.nodes.Free (site.address id)) ?_ ?_ ?_ ?_ hnodes)
    · rw [List.map_map]
      exact plan.nodup_calls
    · intro x hx s t hfree hbuild
      obtain ⟨spec, hspec, rfl⟩ := List.mem_map.mp hx
      exact nodeBuild_byCalls hfree hbuild
    · intro x hx y hy hne s t hbuild hfree
      obtain ⟨built, hbuilt, rfl⟩ := List.mem_map.mp hx
      obtain ⟨other, hother, rfl⟩ := List.mem_map.mp hy
      have hwithin := nodeBuild_within (P := fun _ => False)
        (A := fun a => a = site.address built.id) rfl built.node d s
      rw [hbuild] at hwithin
      refine (hwithin.nodes _ fun he => hne ?_).trans hfree
      rw [List.inj_on_of_nodup_map hv.addresses hother hbuilt he]
    · intro x hx
      obtain ⟨spec, hspec, rfl⟩ := List.mem_map.mp hx
      exact (hfirst.2 _).trans (hv.address spec hspec)
  · rw [List.map_map]
    exact plan.nodup_tensors
  · intro x hx s t hfree hbuild
    obtain ⟨spec, hspec, rfl⟩ := List.mem_map.mp hx
    have hwithin := tensorBuild_within (P := fun p => p = site.place spec.id)
      (A := fun _ => False) rfl spec d (site.env spec.id) s
    rw [hbuild] at hwithin
    exact ⟨tensorBuild_byCalls hfree hbuild, fun a => hwithin.nodes a not_false⟩
  · intro x hx y hy hne s t hbuild hfree
    obtain ⟨built, hbuilt, rfl⟩ := List.mem_map.mp hx
    obtain ⟨other, hother, rfl⟩ := List.mem_map.mp hy
    have hwithin := tensorBuild_within (P := fun p => p = site.place built.id)
      (A := fun _ => False) rfl built d (site.env built.id) s
    rw [hbuild] at hwithin
    refine (hwithin.tensors _ fun he => hne ?_).trans hfree
    rw [List.inj_on_of_nodup_map hv.places hother hbuilt he]
  · intro x hx
    obtain ⟨spec, hspec, rfl⟩ := List.mem_map.mp hx
    exact hv.place spec hspec

end Wilupgu.Plan
