import Wilupgu.Plan.Twins

/-! # Whole uses of a run

What a program may rely on that uses a built run, as it is or captured: the
reference interpreter says what all tensors and metas are, after whatever is
uploaded, applied, run and replayed. -/

namespace Wilupgu.Plan

open Backend Backends Call Memory Transition

variable {plan : RunSpec} {d : Nat} {site : Site CpuBackend}

/-- The run's tensors and metas are the reference interpreter's. -/
structure Shows (plan : RunSpec) (site : Site CpuBackend) (w : World CpuBackend)
    (ρ : Reference) : Prop where
  contents : ∀ spec ∈ plan.tensors, bytesAt w (site.place spec.id) = ρ.contents spec.id
  metas : ∀ call ∈ plan.calls, (w.nodes.lookup (site.address call.id)).map Node.metaVals =
    some (call.node.metaSources.map (MetaSource.described ρ.applied))

theorem Stands.shows {held : Nat → Tensor CpuBackend} {w : World CpuBackend} {ρ : Reference}
    (h : Stands plan d site held w ρ) (hh : Holding plan d site held) : Shows plan site w ρ :=
  ⟨fun _ hspec => h.bytesAt hh hspec, fun _ hcall => h.metaVals hcall⟩

/-- All but the recordings is as before, and those but for the one at `k`. -/
structure OnlyRecords (k : Nat) (w w' : World CpuBackend) : Prop where
  tensors : w'.tensors = w.tensors
  nodes : w'.nodes = w.nodes
  devices : w'.devices = w.devices
  areas : w'.areas = w.areas
  scopes : ∀ s, w'.scopes.lookup s = w.scopes.lookup s
  recordings : ∀ k', k' ≠ k → w'.recordings.lookup k' = w.recordings.lookup k'

namespace Session

variable {r k : Nat} {poolBytes : Nat → Nat} {w₀ : World CpuBackend}
  {es₀ : List (PlanEvent CpuBackend)} {ws : List (Wilupgu.Event CpuBackend)}
  {σ σ₁ σ₂ σ₃ : Session CpuBackend} {before : List UseEvent}
  (hsession : Runs Step (init w₀) es₀ σ)
  (hworld : Runs (Capture.Solo d) (World.init CpuBackend.attach poolBytes) ws σ.world)
  (hclosed : ∀ scope ∈ σ.world.scopes.values, scope.dev ≠ d)
  (hbuild : σ.Step ⟨.build r d plan site, .ok ()⟩ σ₁)
  (hbefore : Runs (Plain r d) σ₁ before σ₂)
include hsession hworld hclosed hbuild hbefore

/-- **A run in use follows its plan**: whatever is uploaded to its tensors in
an edit or in a scope, cleared, bound, applied and run does to tensors and
metas what it does in the reference interpreter, and ends alike. -/
theorem run_in_use_follows_plan : ∃ ρ,
    Runs (Reference.Used plan) (Reference.start site σ₁.world σ₁.dynamics) before ρ ∧
      Shows plan site σ₂.world ρ := by
  obtain ⟨held, hh, hstart, hfirst, -⟩ := InUse.built hsession hworld hclosed hbuild
  obtain ⟨ρ, href, h⟩ := hstart.runs hh hfirst hbefore
  exact ⟨ρ, href, h.stands.shows hh⟩

section Captured

variable {s : Nat} {ts cs : List Nat} (horders : σ₂.Orders r ts cs)
  (hfree : σ₂.world.scopes.Free s)
include horders hfree

/-- **A capture only checks.** It ends as the checks of the calls do, made in
the plan's order, the first that fails being named by its place. Whether it
succeeds or not, there is nothing new after it but the recording. -/
theorem capture_only_checks (k : Nat) : ∃ ρ,
    Runs (Reference.Used plan) (Reference.start site σ₁.world σ₁.dynamics) before ρ ∧
      (Session.capture r s k ts cs σ₂).1 = Reference.capture plan ρ.applied ∧
      OnlyRecords k σ₂.world (Session.capture r s k ts cs σ₂).2.world ∧
      (Session.capture r s k ts cs σ₂).2.runs = σ₂.runs ∧
      ((Session.capture r s k ts cs σ₂).1 ≠ .ok () →
        (Session.capture r s k ts cs σ₂).2.world.recordings = σ₂.world.recordings) := by
  obtain ⟨held, hh, hstart, hfirst, -⟩ := InUse.built hsession hworld hclosed hbuild
  obtain ⟨ρ, href, h⟩ := hstart.runs hh hfirst hbefore
  refine ⟨ρ, href, ?_⟩
  obtain ⟨scopes, hsame, ⟨recording, -, hpass, hran⟩ | ⟨e, he, hran⟩⟩ :=
    h.captures hh horders hfree k
  · rw [hran, hpass]
    exact ⟨rfl, ⟨rfl, rfl, rfl, rfl, hsame, fun _ hne => AList.lookup_insert_ne hne⟩, rfl,
      fun hne => absurd rfl hne⟩
  · rw [hran, he]
    exact ⟨rfl, ⟨rfl, rfl, rfl, rfl, hsame, fun _ _ => rfl⟩, rfl, fun _ => rfl⟩

/-- **A captured run follows its plan**, its replays making every check before
any call runs, where nothing shadows it. -/
theorem captured_run_follows_plan
    (hcapture : Session.capture r s k ts cs σ₂ = (.ok (), σ₃)) {es : List UseEvent}
    {σ₄ : Session CpuBackend} (hrun : Runs (Where (Captured r d k) (Unshadowed r)) σ₃ es σ₄) :
    ∃ ρ ρ',
      Runs (Reference.Used plan) (Reference.start site σ₁.world σ₁.dynamics) before ρ ∧
        Runs (Reference.UsedCaptured plan) ρ es ρ' ∧ Shows plan site σ₄.world ρ' := by
  obtain ⟨held, hh, hstart, hfirst, -⟩ := InUse.built hsession hworld hclosed hbuild
  obtain ⟨ρ, href, h⟩ := hstart.runs hh hfirst hbefore
  obtain ⟨hout, -, hrecorded⟩ := h.capture hh horders hfree k
  rw [hcapture] at hout hrecorded
  obtain ⟨ρ', href', h'⟩ := (hrecorded hout.symm).runs hh hfirst hrun
  exact ⟨ρ, ρ', href, href', h'.stands.shows hh⟩

end Captured

end Session

/-! ## The sample's run -/

set_option maxRecDepth 8000

theorem Sample.runs_asItIs : Runs (Session.Plain 0 0) Sample.beside
    (Use.events Sample.asItIs Sample.beside Sample.fillTwice)
    (Use.after Sample.asItIs Sample.beside Sample.fillTwice) :=
  Use.runs_of_plays (fun _ _ => Sample.plain_of_usable) Sample.plays_asItIs

/-- Filled, cleared and filled again, the tensor is as the plan says. -/
theorem filling_in_use_follows_plan : ∃ ρ, Runs (Reference.Used Sample.filling)
    (Reference.start Sample.site Sample.beside.world Sample.beside.dynamics)
    (Use.events Sample.asItIs Sample.beside Sample.fillTwice) ρ ∧
      Shows Sample.filling Sample.site
        (Use.after Sample.asItIs Sample.beside Sample.fillTwice).world ρ := by
  obtain ⟨ws, hworld⟩ := Sample.runs_carved
  exact Session.run_in_use_follows_plan (.nil _) hworld
    (fun _ hscope => absurd hscope List.not_mem_nil) Sample.run_beside Sample.runs_asItIs

/-- It can be captured as it is built. -/
theorem filling_capture_only_checks : ∃ ρ, Runs (Reference.Used Sample.filling)
    (Reference.start Sample.site Sample.beside.world Sample.beside.dynamics) [] ρ ∧
      Reference.capture Sample.filling ρ.applied = .ok () ∧
      OnlyRecords 0 Sample.beside.world Sample.captured.world := by
  obtain ⟨ws, hworld⟩ := Sample.runs_carved
  obtain ⟨ρ, href, hout, honly, -⟩ := Session.capture_only_checks (.nil _) hworld
    (fun _ hscope => absurd hscope List.not_mem_nil) Sample.run_beside (.nil _)
    (Sample.orders rfl) (s := 0) rfl 0
  exact ⟨ρ, href, hout.symm, honly⟩

/-- So it is when it is captured first. -/
theorem captured_filling_follows_plan : ∃ ρ ρ', Runs (Reference.Used Sample.filling)
    (Reference.start Sample.site Sample.beside.world Sample.beside.dynamics) [] ρ ∧
      Runs (Reference.UsedCaptured Sample.filling) ρ
        (Use.events Sample.asCaptured Sample.captured Sample.fillTwice) ρ' ∧
      Shows Sample.filling Sample.site
        (Use.after Sample.asCaptured Sample.captured Sample.fillTwice).world ρ' := by
  obtain ⟨ws, hworld⟩ := Sample.runs_carved
  exact Session.captured_run_follows_plan (.nil _) hworld
    (fun _ hscope => absurd hscope List.not_mem_nil) Sample.run_beside (.nil _)
    (Sample.orders rfl) (s := 0) rfl rfl
    (Use.runs_of_plays (fun _ _ => Sample.where_of_ready) Sample.plays_asCaptured)

end Wilupgu.Plan
