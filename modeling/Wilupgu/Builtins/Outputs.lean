import Wilupgu.Builtins.Shaders

/-! # What an output slot held before

`BindingRole.Output`: written, and its old contents don't matter. So native
code must write every element needed of such a slot, from the other slots
alone. A reduction writes the first partial only. -/

namespace Wilupgu.Builtins

open Backend Backends Loops Native

variable {F : Type} {b : Builtin} {m : List UInt32} {wg : Workgroups} {slots slots' : List (Slot F)}

/-- The same slots but for what the output slots hold. -/
structure SameButOutputs (b : Builtin) (slots slots' : List (Slot F)) : Prop where
  kept : ∀ i : Nat, (∀ kind, b.signature.layout[i]? ≠ some (.Output kind)) → slots[i]? = slots'[i]?
  lens : slots.map (fun slot => slot.elems.length) = slots'.map fun slot => slot.elems.length

/-- Two runs that start with different contents of output slots only end with
the same needed elements. -/
def OutputsNeverMatter (F : Type) [Floats F] (b : Builtin) (m : List UInt32) (wg : Workgroups) :
    Prop :=
  ∀ slots slots' : List (Slot F), Bound b m wg slots → Bound b m wg slots' →
    SameButOutputs b slots slots' →
      SameFirst (b.minLens m wg) (b.run m slots).1 (b.run m slots').1

namespace Builtin

/-- `sum` and `dot`. -/
def isReduction : Builtin → Bool
  | sum | dot => true
  | _ => false

/-- The slot written is an output. -/
def hasOutput (b : Builtin) : Bool := b.signature.layout[b.out - 1]? = some (.Output .F32)

end Builtin

/-! ## Builtins that write all of it -/

/-- No slot but the one written is an output. -/
theorem output_slot {i : Nat} {kind : DataKind}
    (h : b.signature.layout[i]? = some (.Output kind)) : i = b.out - 1 ∧ b.hasOutput = true := by
  cases b <;> rcases i with _ | _ | _ | i <;> first
    | exact ⟨rfl, rfl⟩
    | cases h

theorem minLens_out (hout : b.hasOutput = true) (h : b.isReduction = true → partials wg = 1) :
    (b.minLens m wg)[b.out - 1]? = some (b.owns m) := by
  cases b with
  | dot | sum => exact congrArg some (h rfl)
  | matmul | matmulTrp | gemv | transpose | zeroTensor | fillConstant | fillRandom => rfl
  | matmulAdd | gemvAdd | add | mul | scale | max | min | clamp => cases hout

/-- The values written to an output come from the other slots. -/
theorem value_output [Floats F] (hout : b.hasOutput = true) {x y : Nat → Nat → F}
    (h : ∀ s, 0 < s → s ≠ b.out → x s = y s) (i : Nat) (old old' : F) :
    b.value m x i old = b.value m y i old' := by
  cases b with
  | matmul | matmulTrp | gemv | dot =>
    simp only [Builtin.value, h 1 (by decide) (by decide), h 2 (by decide) (by decide)]
  | transpose | sum => simp only [Builtin.value, h 1 (by decide) (by decide)]
  | zeroTensor | fillConstant | fillRandom => rfl
  | matmulAdd | gemvAdd | add | mul | scale | max | min | clamp => cases hout

theorem Bound.count (h : Bound b m wg slots) : slots.length = (b.minLens m wg).length := by
  have hlens : (b.minLens m wg).length = b.signature.layout.length :=
    (b.signature.minLens_length m wg _).trans (List.length_replicate ..)
  rw [← h.length_eq, List.length_zip, hlens, Nat.min_self]

/-- A builtin without an output slot gets the same slots in both runs. -/
theorem SameButOutputs.eq (h : SameButOutputs b slots slots') (hout : b.hasOutput = false) :
    slots = slots' := by
  refine List.ext_getElem? fun i => h.kept i fun kind hi => ?_
  rw [(output_slot hi).2] at hout
  cases hout

theorem take_fillTo_eq {n : Nat} {f g : Nat → F → F} {x y : List F} (hlen : x.length = y.length)
    (hfg : ∀ i v v', f i v = g i v') : (fillTo n f x).take n = (fillTo n g y).take n := by
  refine List.ext_getElem? fun i => ?_
  rcases Nat.lt_or_ge i n with hi | hi
  · rw [List.getElem?_take_of_lt hi, List.getElem?_take_of_lt hi, getElem?_fillTo_of_lt hi,
      getElem?_fillTo_of_lt hi]
    rcases Nat.lt_or_ge i x.length with hx | hx
    · rw [List.getElem?_eq_getElem hx, List.getElem?_eq_getElem (hlen ▸ hx)]
      exact congrArg some (hfg i _ _)
    · rw [List.getElem?_eq_none hx, List.getElem?_eq_none (hlen ▸ hx)]
      rfl
  · simp [Nat.not_lt.mpr hi]

theorem elem_kept [Arith F] (h : SameButOutputs b slots slots') {s : Nat} (hs : 0 < s)
    (hne : s ≠ b.out) : elem slots s = elem slots' s := by
  funext i
  have hslot : slots[s - 1]? = slots'[s - 1]? := by
    refine h.kept _ fun kind hi => ?_
    have hpos : 0 < b.out := by cases b <;> decide
    have := (output_slot hi).1
    omega
  rw [elem, elem, hslot]

/-- What was needed of the output is written, all of it. -/
theorem written_sameOutputs [Floats F] (hred : b.isReduction = true → partials wg = 1)
    (hout : b.hasOutput = true) (h : SameButOutputs b slots slots') :
    SameFirst (b.minLens m wg) (b.written m slots) (b.written m slots') := by
  intro i n hn
  have hlen : slots.length = slots'.length := by simpa using congrArg List.length h.lens
  rw [firsts, firsts, Builtin.written, Builtin.written, List.getElem?_set, List.getElem?_set, hlen]
  split
  · subst i
    obtain rfl : b.owns m = n := Option.some.inj ((minLens_out hout hred).symm.trans hn)
    split
    · refine congrArg some (take_fillTo_eq ?_ fun i v v' =>
        value_output hout (fun s hs hne => elem_kept h hs hne) i v v')
      have hlens := congrArg (·[b.out - 1]?) h.lens
      simp only [List.getElem?_map] at hlens
      cases hs : slots[b.out - 1]? <;> cases hs' : slots'[b.out - 1]? <;>
        simp_all
    · rfl
  · rename_i hi
    rw [h.kept i fun kind hk => hi (output_slot hk).1.symm]

/-! ## Reductions -/

/-- Slots as long as needed: inputs of zeros, the others of `v`s. -/
def filled [Arith F] (b : Builtin) (m : List UInt32) (wg : Workgroups) (v : F) : List (Slot F) :=
  (b.signature.layout.zip (b.minLens m wg)).map fun need =>
    if need.1.isInput then .Read (List.replicate need.2 Arith.zero)
    else .Write (List.replicate need.2 v)

theorem bound_filled [Arith F] (b : Builtin) (m : List UInt32) (wg : Workgroups) (v : F) :
    Bound b m wg (filled b m wg v) := by
  rw [Bound, filled, List.forall₂_map_right_iff, List.forall₂_same]
  intro need _
  cases hi : need.1.isInput <;> simp [Fits, Slot.isWrite, Slot.elems, hi]

theorem lens_filled [Arith F] (b : Builtin) (m : List UInt32) (wg : Workgroups) (v : F) :
    (filled b m wg v).map (fun slot => slot.elems.length) =
      (b.signature.layout.zip (b.minLens m wg)).map Prod.snd := by
  rw [filled, List.map_map]
  refine List.map_congr_left fun need _ => ?_
  cases hi : need.1.isInput <;> simp [Slot.elems, hi]

theorem filled_sameButOutputs [Arith F] (h : b.isReduction = true) (u v : F) :
    SameButOutputs b (filled b m wg u) (filled b m wg v) := by
  refine ⟨fun i hi => ?_, (lens_filled b m wg u).trans (lens_filled b m wg v).symm⟩
  cases b with
  | dot | sum =>
    rcases i with _ | _ | _ | i <;> first
      | rfl
      | exact absurd rfl (hi _)
  | _ => cases h

/-- The second partial stays as it was. -/
theorem second_partial [Floats F] (h : b.isReduction = true) (hwg : 1 < partials wg) (v : F) :
    ∃ part, firsts (b.written m (filled b m wg v)) (b.out - 1) (partials wg) = some part ∧
      part[1]? = some v := by
  have hpart : ∀ f : Nat → F → F,
      ((fillTo 1 f (List.replicate (partials wg) v)).take (partials wg))[1]? = some v := by
    intro f
    rw [List.getElem?_take_of_lt hwg, getElem?_fillTo_of_le (Nat.le_refl 1),
      List.getElem?_replicate, if_pos hwg]
  cases b with
  | dot | sum => exact ⟨_, rfl, hpart _⟩
  | _ => cases h

/-- **Old contents of output slots never matter** to native code, but for
reductions with more than one partial. -/
theorem outputs_never_matter_iff [Floats F] [Nontrivial F]
    (h : b.Accepts (Dispatch.validateWorkgroups CpuBackend) m wg) :
    OutputsNeverMatter F b m wg ↔ (b.isReduction = true → partials wg = 1) := by
  have hrun : ∀ {slots : List (Slot F)}, b ≠ .clamp → Bound b m wg slots →
      b.run m slots = (b.written m slots, false) := by
    intro slots hb hs
    rw [Builtin.run, native_eq hb h.words hs]
  constructor
  · intro h hred
    have hb : b ≠ .clamp := by
      rintro rfl
      cases hred
    refine Classical.byContradiction fun hwg => ?_
    have hlt : 1 < partials wg := Nat.lt_of_le_of_ne (partials_pos wg) (Ne.symm hwg)
    obtain ⟨u, v, huv⟩ := exists_pair_ne F
    obtain ⟨part, hpart, hu⟩ := second_partial (m := m) hred hlt u
    obtain ⟨part', hpart', hv⟩ := second_partial (m := m) hred hlt v
    have hsame := h _ _ (bound_filled b m wg u) (bound_filled b m wg v)
      (filled_sameButOutputs hred u v) (b.out - 1) (partials wg) ?_
    · rw [hrun hb (bound_filled b m wg u), hrun hb (bound_filled b m wg v), hpart, hpart'] at hsame
      rw [Option.some.inj hsame, hv] at hu
      exact huv (Option.some.inj hu).symm
    · cases b with
      | dot | sum => rfl
      | _ => cases hred
  · intro hred slots slots' hs hs' h
    cases hout : b.hasOutput with
    | false =>
      rw [h.eq hout]
      exact fun _ _ _ => rfl
    | true =>
      have hb : b ≠ .clamp := by
        rintro rfl
        cases hout
      rw [hrun hb hs, hrun hb hs']
      exact written_sameOutputs hred hout h

namespace Sample

theorem accepts_sum : Builtin.sum.Accepts (Dispatch.validateWorkgroups CpuBackend) [1] ⟨2, 1, 1⟩ :=
  ⟨rfl, by decide, rfl⟩

/-- One element, and two partials, the second one with a leftover in it. -/
def leftover (v : ℚ) : List (Slot ℚ) := [.Read [5], .Write [0, v]]

theorem bound_leftover (v : ℚ) : Bound .sum [1] ⟨2, 1, 1⟩ (leftover v) :=
  .cons ⟨rfl, Nat.le_refl 1⟩ (.cons ⟨rfl, Nat.le_refl 2⟩ .nil)

theorem leftover_sameButOutputs (u v : ℚ) : SameButOutputs .sum (leftover u) (leftover v) := by
  refine ⟨fun i hi => ?_, rfl⟩
  rcases i with _ | _ | i
  · rfl
  · exact absurd rfl (hi _)
  · rfl

/-- **Two leftovers, two results.** -/
theorem sum_keeps_leftover :
    Builtin.sum.Accepts (Dispatch.validateWorkgroups CpuBackend) [1] ⟨2, 1, 1⟩ ∧
      Bound .sum [1] ⟨2, 1, 1⟩ (leftover 1) ∧ Bound .sum [1] ⟨2, 1, 1⟩ (leftover 2) ∧
      SameButOutputs .sum (leftover 1) (leftover 2) ∧
      ¬ SameFirst (Builtin.sum.minLens [1] ⟨2, 1, 1⟩) (Builtin.sum.run [1] (leftover 1)).1
        (Builtin.sum.run [1] (leftover 2)).1 := by
  refine ⟨accepts_sum, bound_leftover 1, bound_leftover 2, leftover_sameButOutputs 1 2, ?_⟩
  intro h
  have h1 := h 1 2 rfl
  revert h1
  decide +kernel

/-- With one workgroup there is one partial, and it is written. -/
theorem sum_of_one_workgroup : OutputsNeverMatter ℚ .sum [1] ⟨1, 1, 1⟩ ↔
    (Builtin.sum.isReduction = true → partials ⟨1, 1, 1⟩ = 1) :=
  outputs_never_matter_iff ⟨rfl, by decide, rfl⟩

end Sample
end Wilupgu.Builtins
