import Mathlib.Algebra.Ring.Nat
import Wilupgu.Lib.ByteMemory
import Wilupgu.Lib.Rounding

/-! # Cutting a block front to back

A block of some units and a counter of those cut out, on `u64`s. A cut moves
the counter in one atomic step, or fails. What any sequence of cuts hands out
are consecutive ranges, so they are disjoint and add up. -/

namespace Cutting

open ByteMemory Rounding

/-- Where the counter of a block of `total` units gets to by a cut of `units`. -/
def cut (total units next : Nat) : Option Nat :=
  if units ≤ wrapSub total next then some (wrap (next + units)) else none

/-- What was cut from `lo` to `hi`, in order: each range starts where the one
before ends. -/
inductive Cuts : Nat → Nat → List Range → Prop
  | nil (lo : Nat) : Cuts lo lo []
  | cons {lo units hi : Nat} {cs : List Range} :
      Cuts (lo + units) hi cs → Cuts lo hi (⟨lo, units⟩ :: cs)

variable {total units next lo hi : Nat} {cs : List Range}

/-- With no more cut out than there is, nothing wraps. -/
theorem wrapSub_eq (hn : next ≤ total) (ht : total < limit) : wrapSub total next = total - next := by
  have he : total + (limit - next) = total - next + limit := by omega
  rw [wrapSub, he, wrap, Nat.add_mod_right, Nat.mod_eq_of_lt (by omega)]

theorem cut_eq (hn : next ≤ total) (ht : total < limit) :
    cut total units next = if units ≤ total - next then some (next + units) else none := by
  rw [cut, wrapSub_eq hn ht]
  split
  · rw [wrap_of_lt (by omega)]
  · rfl

theorem Cuts.le (h : Cuts lo hi cs) : lo ≤ hi := by
  induction h with
  | nil => exact Nat.le_refl _
  | cons _ ih => omega

/-- Every range is between the two ends. -/
theorem Cuts.inside (h : Cuts lo hi cs) : ∀ r ∈ cs, lo ≤ r.start ∧ r.start + r.len ≤ hi := by
  induction h with
  | nil => simp
  | cons h ih =>
    intro r hr
    rcases List.mem_cons.mp hr with rfl | hr
    · exact ⟨Nat.le_refl _, h.le⟩
    · have := ih r hr
      omega

theorem Cuts.apart (h : Cuts lo hi cs) : cs.Pairwise fun r s => r.start + r.len ≤ s.start := by
  induction h with
  | nil => exact .nil
  | cons h ih => exact .cons (fun s hs => (h.inside s hs).1) ih

theorem Cuts.sum (h : Cuts lo hi cs) : lo + (cs.map Range.len).sum = hi := by
  induction h with
  | nil => simp
  | cons _ ih =>
    rw [List.map_cons, List.sum_cons, ← ih]
    exact (Nat.add_assoc _ _ _).symm

/-- Starts at a multiple all lengths are multiples of are multiples. -/
theorem Cuts.aligned {m : Nat} (h : Cuts lo hi cs) (hlo : lo % m = 0)
    (hlen : ∀ r ∈ cs, r.len % m = 0) : hi % m = 0 ∧ ∀ r ∈ cs, r.start % m = 0 := by
  induction h with
  | nil => exact ⟨hlo, by simp⟩
  | cons _ ih =>
    obtain ⟨hhi, hrest⟩ := ih (by rw [Nat.add_mod, hlo, hlen _ List.mem_cons_self]; simp)
      fun r hr => hlen r (List.mem_cons_of_mem _ hr)
    exact ⟨hhi, List.forall_mem_cons.mpr ⟨hlo, hrest⟩⟩

end Cutting
