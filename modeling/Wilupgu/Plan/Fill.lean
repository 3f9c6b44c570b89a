import Wilupgu.Plan.Owners
import Wilupgu.Backends.Cpu

/-! # Tensors change hands

`fill_from` moves a live tensor into the hollow place of another run. Over any
sequence of such calls, between any number of runs, no tensor is lost and none
is in two runs. -/

namespace Wilupgu.Plan

open Backend Call Transition

variable {B : Type} [Storage B] [Dispatch B] [Capturable B] [Areable B] {σ σ' σ'' : Session B}

namespace Session

/-- The kind and the length of the tensor `id` of the run at `r`, live or hollow. -/
def shape (σ : Session B) (r id : Nat) : Option (Outcome Error DataKind × Outcome Error Nat) := do
  let run ← σ.runs.lookup r
  let tensor ← run.tensors.lookup id
  return (tensor.kind σ.world, tensor.len σ.world)

/-- What `fill_from`s leave of the tensors: the world, so their contents, the
same live ones, each in one run, and every place's kind and length. -/
structure Conserves (σ σ' : Session B) : Prop where
  world : σ'.world = σ.world
  live : ∀ id p, (∃ r, σ'.OwnsTensor r id p) ↔ ∃ r, σ.OwnsTensor r id p
  once : ∀ r id r' id' p, σ'.OwnsTensor r id p → σ'.OwnsTensor r' id' p → r = r' ∧ id = id'
  shape : ∀ r id, σ'.shape r id = σ.shape r id

/-- The world, and every run, as they were. -/
def Unchanged (σ σ' : Session B) : Prop :=
  σ'.world = σ.world ∧ ∀ r, σ'.runs.lookup r = σ.runs.lookup r

theorem Conserves.refl (h : σ.Sound) : σ.Conserves σ :=
  ⟨rfl, fun _ _ => Iff.rfl, h.tensor_once, fun _ _ => rfl⟩

theorem Conserves.trans (h : σ.Conserves σ') (h' : σ'.Conserves σ'') : σ.Conserves σ'' :=
  ⟨h'.world.trans h.world, fun id p => (h'.live id p).trans (h.live id p), h'.once,
    fun r id => (h'.shape r id).trans (h.shape r id)⟩

theorem Unchanged.conserves (h : σ.Unchanged σ') (hs : σ.Sound) : σ.Conserves σ' := by
  obtain ⟨hworld, hruns⟩ := h
  refine ⟨hworld, fun id p => ?_, fun r id r' id' p ho ho' => ?_, fun r id => ?_⟩
  · simp only [OwnsTensor, hruns]
  · rw [OwnsTensor, hruns] at ho ho'
    exact hs.tensor_once r id r' id' p ho ho'
  · simp only [shape, hruns, hworld]

/-! ## One call -/

section One

variable {r source id : Nat} {run from' : Run} (hr : σ.runs.lookup r = some run)
  (hs : σ.runs.lookup source = some from') (hne : r ≠ source)
include hr hs hne

/-- The hollow place and the live tensor that change hands are alike. -/
theorem filled_shape {hollow : HollowTensor} {p : Nat} {t : Tensor B}
    (hplace : run.tensors.lookup id = some (.Hollow hollow))
    (hlive : from'.tensors.lookup id = some (.Live p)) (ht : σ.world.tensors.lookup p = some t)
    (hkind : hollow.kind = t.kind) (hlen : hollow.len = t.len) (r' id' : Nat) :
    (σ.filled r source id run from' (.Hollow hollow) (.Live p)).shape r' id' = σ.shape r' id' := by
  simp only [shape, filled, AList.lookup_insert_eq]
  by_cases h₁ : r' = source
  · subst h₁
    by_cases h₃ : id' = id
    · subst h₃
      simp [hs, hlive, AnyTensor.kind, AnyTensor.len, World.tensor, ht, Outcome.expect, hkind, hlen]
    · simp [hs, h₃]
  · by_cases h₂ : r' = r
    · subst h₂
      by_cases h₃ : id' = id
      · subst h₃
        simp [hr, h₁, hplace, AnyTensor.kind, AnyTensor.len, World.tensor, ht, Outcome.expect,
          hkind, hlen]
      · simp [hr, h₁, h₃]
    · simp [h₁, h₂]

/-- A call that fails changes nothing, one that succeeds moves the tensor. -/
theorem fillFrom_conserves (id : Nat) (h : σ.Sound) :
    σ.Conserves (fillFrom r source id σ).2 ∧
      ((fillFrom r source id σ).1 ≠ .ok () → σ.Unchanged (fillFrom r source id σ).2) := by
  have hsound := h.fillFrom hr hs hne id
  rw [fillFrom_run hr hs] at hsound ⊢
  rcases hf : run.fills from' σ.world id with ⟨place, live⟩ | e | _
  · rw [hf] at hsound
    obtain ⟨-, hplace, hlive, hollow, p, t, rfl, rfl, ht, hkind, hlen⟩ := fills_eq_ok.mp hf
    refine ⟨⟨rfl, fun id' q => ?_, hsound.tensor_once, ?_⟩, fun hok => absurd rfl hok⟩
    · have howns := fun r' => @filled_ownsTensor _ _ _ _ _ σ r source id run from' hr hs hne hollow
        p r' id' q hplace
      constructor
      · intro hex
        obtain ⟨r', ho⟩ := hex
        rcases (howns r').mp ho with ⟨-, rfl, rfl⟩ | ⟨ho, -⟩
        · exact ⟨source, from', hs, hlive⟩
        · exact ⟨r', ho⟩
      · intro hex
        obtain ⟨r', ho⟩ := hex
        by_cases hmoved : r' = source ∧ id' = id
        · obtain ⟨rfl, rfl⟩ := hmoved
          obtain ⟨_, hs', hq⟩ := ho
          obtain rfl : from' = _ := Option.some.inj (hs.symm.trans hs')
          obtain rfl : p = q := by simpa using hlive.symm.trans hq
          exact ⟨r, (howns r).mpr (.inl ⟨rfl, rfl, rfl⟩)⟩
        · exact ⟨r', (howns r').mpr (.inr ⟨ho, hmoved⟩)⟩
    · exact filled_shape hr hs hne hplace hlive ht hkind hlen
  · have hsame : σ.Unchanged { σ with runs := (σ.runs.insert r run).insert source from' } :=
      ⟨rfl, unchanged_lookup hr hs⟩
    exact ⟨hsame.conserves h, fun _ => hsame⟩
  · have hsame : σ.Unchanged { σ with runs := (σ.runs.insert r run).insert source from' } :=
      ⟨rfl, unchanged_lookup hr hs⟩
    exact ⟨hsame.conserves h, fun _ => hsame⟩

end One

/-! ## Any sequence of calls -/

variable [Topology B]

/-- A step that is a `fill_from`. -/
def Fills (_ : Session B) (e : PlanEvent B) : Prop := ∃ r source id, e.act = .fillFrom r source id

theorem Step.fills {e : PlanEvent B} (h : σ.Sound) (hs : σ.Step e σ') (he : σ.Fills e) :
    σ.Conserves σ' ∧ (e.out ≠ .ok () → σ.Unchanged σ') := by
  obtain ⟨r, source, id, hact⟩ := he
  rcases e with ⟨act, out⟩
  obtain rfl : act = .fillFrom r source id := hact
  obtain ⟨⟨hne, hr, hsource⟩, hp⟩ := hs
  obtain ⟨run, hrun⟩ := exists_of_mem hr.1
  obtain ⟨from', hfrom⟩ := exists_of_mem hsource.1
  have hone := fillFrom_conserves hrun hfrom hne id h
  rw [show fillFrom r source id σ = (out, σ') from hp] at hone
  exact hone

/-- **`fill_from` neither loses nor duplicates a tensor.** In a session that a
program gets to, after any sequence of `fill_from`s between its runs, the
tensors are conserved, and one more that fails changes nothing. -/
theorem fill_from_conserves_tensors {w : World B} {es fs : List (PlanEvent B)}
    (h : Runs Step (init w) es σ) (hf : Runs (Where Step Fills) σ fs σ') :
    σ.Conserves σ' ∧ ∀ r source id out σ'', out ≠ .ok () →
      σ'.Step ⟨.fillFrom r source id, out⟩ σ'' → σ'.Unchanged σ'' := by
  have hsound := sound_of_runs h
  have hall : σ'.Sound ∧ σ.Conserves σ' := by
    refine hf.preserves (I := fun σ' => σ'.Sound ∧ σ.Conserves σ') ?_ ⟨hsound, .refl hsound⟩
    intro σ₁ e σ₂ h₁ hs
    exact ⟨h₁.1.step hs.1, h₁.2.trans (hs.1.fills h₁.1 hs.2).1⟩
  refine ⟨hall.2, fun r source id out σ'' hout hs => ?_⟩
  exact (hs.fills hall.1 ⟨r, source, id, rfl⟩).2 hout

end Session

/-! ## Two runs of one plan -/

namespace Sample

open Backends

/-- CPU devices without a pool, and no run yet. -/
def start : Session CpuBackend := .init (.init CpuBackend.attach fun _ => 0)

/-- A scope is open, and no run built yet. -/
def opened : World CpuBackend := (Scope.openOn 0 0 (World.init CpuBackend.attach fun _ => 0)).2

/-- Tensors at the places of their ids, nodes at 100 and on. -/
def site : Site CpuBackend := ⟨id, (100 + ·), fun _ => Backends.Sample.env, id, fun _ => .rfl⟩

def bytes : TensorSpec := ⟨0, .Int8, some 4, .Zero, rfl⟩

/-- One tensor. -/
def tensorOnly : RunSpec := ⟨⟨[bytes], [], by decide, by decide⟩, rfl⟩

def live : Session CpuBackend := ((PlanAct.build 0 0 tensorOnly site).perform start).2

def both : Session CpuBackend := ((PlanAct.buildHollow 1 0 tensorOnly site).perform live).2

def moved : Session CpuBackend := ((PlanAct.fillFrom 1 0 0).perform both).2

theorem run_both : Runs Session.Step start
    [⟨.build 0 0 tensorOnly site, .ok ()⟩, ⟨.buildHollow 1 0 tensorOnly site, .ok ()⟩] both := by
  have hlive : start.Step ⟨.build 0 0 tensorOnly site, .ok ()⟩ live :=
    ⟨⟨rfl, ⟨by decide, by decide⟩, by decide, by decide⟩, rfl⟩
  have hboth : live.Step ⟨.buildHollow 1 0 tensorOnly site, .ok ()⟩ both :=
    ⟨⟨rfl, by decide, by decide⟩, rfl⟩
  exact .cons hlive (.single hboth)

end Sample

/-- The live tensor moves to the second run, and doesn't move again. -/
theorem one_tensor_is_conserved : Sample.moved.OwnsTensor 1 0 0 ∧
    Sample.both.Conserves Sample.moved ∧
    Sample.moved.Unchanged ((PlanAct.fillFrom 1 0 0).perform Sample.moved).2 := by
  have hfill : Session.Step Sample.both ⟨.fillFrom 1 0 0, .ok ()⟩ Sample.moved :=
    ⟨⟨by decide, ⟨by decide, rfl⟩, by decide, rfl⟩, rfl⟩
  have hfail : Session.Step Sample.moved ⟨.fillFrom 1 0 0, .err .NotHollow⟩
      ((PlanAct.fillFrom 1 0 0).perform Sample.moved).2 :=
    ⟨⟨by decide, ⟨by decide, rfl⟩, by decide, rfl⟩, rfl⟩
  have hall := Session.fill_from_conserves_tensors Sample.run_both
    (.single ⟨hfill, 1, 0, 0, rfl⟩)
  exact ⟨⟨_, rfl, rfl⟩, hall.1, hall.2 1 0 0 _ _ (by decide) hfail⟩

end Wilupgu.Plan
