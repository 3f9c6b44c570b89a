import Wilupgu.Lib.Extended
import Wilupgu.Lib.Lists
import Wilupgu.Backend.Shader
import Wilupgu.Builtins.Native

/-! # Comparing what two backends computed

src/tools/parity/mod.rs, from the outputs of the two runs on. An `f32` is its
bits; what is computed from them is exact, with IEEE 754's infinities and NaN. -/

namespace Wilupgu.Parity

open Backend Extended

/-- The number that an `f32` is. -/
def value (bits : UInt32) : Extended :=
  if bits.toNat / 2 ^ 23 % 2 ^ 8 = 255 then
    if bits.toNat % 2 ^ 23 = 0 then .inf (decide (bits.toNat / 2 ^ 31 = 1)) else .nan
  else
    .fin (Builtins.valueOfBits bits)

/-- Written past `min_lens` in every slot before the run. -/
def PAD : UInt32 := 0xDEADBEEF

inductive Check where
  | Close (atol rtol : UInt32)
  | Total (atol rtol : UInt32)
  | Ignore
  deriving DecidableEq

/-- The worst element of a `Close`, or the two sums of a `Total` (no index). -/
structure Diff where
  index : Option Nat
  values : Extended × Extended
  err : Extended
  tol : Extended
  deriving DecidableEq

/-- A NaN error never passes. -/
def Diff.passed (d : Diff) : Bool := d.err.le d.tol

structure SlotReport where
  role : BindingRole
  check : Check
  len : Nat
  diff : Option Diff
  unwritten : Option Nat × Option Nat
  overrun : Option Nat × Option Nat
  deriving DecidableEq

def SlotReport.passed (s : SlotReport) : Bool :=
  s.diff.all Diff.passed && s.unwritten = (none, none) && s.overrun = (none, none)

def tolerance (a b atol rtol : Extended) : Extended := atol.add (rtol.mul (a.abs.max b.abs))

/-- The element of `worst`, at an index. -/
def diffAt (atol rtol : UInt32) (p : (UInt32 × UInt32) × Nat) : Diff where
  index := some p.2
  values := (value p.1.1, value p.1.2)
  err := ((value p.1.1).sub (value p.1.2)).abs
  tol := tolerance (value p.1.1) (value p.1.2) (value atol) (value rtol)

def Diff.over (d : Diff) : Extended :=
  if (d.err.sub d.tol).isNan then .inf false else d.err.sub d.tol

/-- `reduce` of an iterator. -/
def reduce {α : Type} (f : α → α → α) : List α → Option α
  | [] => none
  | x :: xs => some (xs.foldl f x)

/-- The element furthest over its tolerance; a NaN error counts as the furthest. -/
def worst (a b : List UInt32) (atol rtol : UInt32) : Option Diff :=
  reduce (fun w d => if (Diff.over w).lt (Diff.over d) then d else w)
    ((a.zip b).zipIdx.map (diffAt atol rtol))

def totals (a b : List UInt32) (atol rtol : UInt32) : Diff :=
  let sum (v : List UInt32) : Extended := v.foldl (fun s x => s.add (value x)) (.fin 0)
  { index := none
    values := (sum a, sum b)
    err := ((sum a).sub (sum b)).abs
    tol := tolerance (sum a) (sum b) (value atol) (value rtol) }

/-- A slot's report, from what the two runs left in it. -/
def slotReport (role : BindingRole) (check : Check) (len : Nat) (ra rb : List UInt32) :
    SlotReport where
  role := role
  check := check
  len := len
  diff := match check with
    | .Close atol rtol => worst (ra.take len) (rb.take len) atol rtol
    | .Total atol rtol => some (totals (ra.take len) (rb.take len) atol rtol)
    | .Ignore => none
  unwritten := (unwrittenIn ra, unwrittenIn rb)
  overrun := (overrunIn ra, overrunIn rb)
where
  canary : Bool := (match role with | .Output _ => true | _ => false) &&
    !(match check with | .Total _ _ => true | _ => false)
  unwrittenIn (r : List UInt32) : Option Nat :=
    if canary then (r.take len).findIdx? fun v => (value v).isNan else none
  overrunIn (r : List UInt32) : Option Nat :=
    ((r.drop len).findIdx? (· ≠ PAD)).map (len + ·)

/-- What the report is made of: a slot's role, check and length, and its two outputs. -/
structure Outputs where
  role : BindingRole
  check : Check
  len : Nat
  ra : List UInt32
  rb : List UInt32

/-- The end of `compare`: `out` is what the two runs left in every slot. -/
def slots (layout : List BindingRole) (checks : List Check) (lens : List Nat)
    (out : List (List UInt32) × List (List UInt32)) : List Outputs :=
  ((layout.zip checks).zip lens).zipIdx.map fun x =>
    ⟨x.1.1.1, x.1.1.2, x.1.2, out.1.getD x.2 [], out.2.getD x.2 []⟩

def Outputs.report (s : Outputs) : SlotReport := slotReport s.role s.check s.len s.ra s.rb

/-- `Report::passed`. -/
def passed (reports : List SlotReport) : Bool := reports.all SlotReport.passed

/-! ## Elements -/

/-- An element within its tolerance. -/
def Within (atol rtol : UInt32) (p : UInt32 × UInt32) : Prop :=
  (((value p.1).sub (value p.2)).abs.le
    (tolerance (value p.1) (value p.2) (value atol) (value rtol))) = true

/-- Infinitely far apart, with a tolerance that is infinite too. -/
def Apart (atol rtol : UInt32) (p : UInt32 × UInt32) : Prop :=
  ((value p.1).sub (value p.2)).abs = .inf false ∧
    tolerance (value p.1) (value p.2) (value atol) (value rtol) = .inf false

/-- A difference or a tolerance that is no number. -/
def Undefined (atol rtol : UInt32) (p : UInt32 × UInt32) : Prop :=
  ((value p.1).sub (value p.2)).abs = .nan ∨
    tolerance (value p.1) (value p.2) (value atol) (value rtol) = .nan

/-- No element is hidden: all are within their tolerance, or none is infinitely far apart,
or one before any such element has a NaN. -/
def Unhidden (atol rtol : UInt32) (ps : List (UInt32 × UInt32)) : Prop :=
  (∀ p ∈ ps, Within atol rtol p) ∨ ∀ (i : Nat) p, ps[i]? = some p → Apart atol rtol p →
    ∃ j < i, ∃ q, ps[j]? = some q ∧ Undefined atol rtol q

variable {atol rtol : UInt32} {p : UInt32 × UInt32} {i : Nat}

instance : Decidable (Within atol rtol p) := inferInstanceAs (Decidable (_ = true))

instance : Decidable (Apart atol rtol p) := inferInstanceAs (Decidable (_ ∧ _))

theorem passed_diffAt : (diffAt atol rtol (p, i)).passed = true ↔ Within atol rtol p := Iff.rfl

theorem over_ne_nan (d : Diff) : Diff.over d ≠ .nan := by
  rw [Diff.over]
  split
  · exact fun hf => by cases hf
  · rename_i h
    exact fun hf => h (decide_eq_true hf)

theorem over_of_ne_top {d : Diff} (h : Diff.over d ≠ .inf false) :
    d.err.sub d.tol ≠ .nan ∧ Diff.over d = d.err.sub d.tol := by
  rw [Diff.over] at h ⊢
  split at h
  · exact absurd rfl h
  · rename_i hnan
    exact ⟨fun hf => hnan (decide_eq_true hf), if_neg hnan⟩

/-- Where the margin is finite, or minus infinity, it decides. -/
theorem within_iff_of_ne_top (h : Diff.over (diffAt atol rtol (p, i)) ≠ .inf false) :
    Within atol rtol p ↔ (Diff.over (diffAt atol rtol (p, i))).key ≤ (fin 0).key := by
  obtain ⟨hnan, hover⟩ := over_of_ne_top h
  rw [← le_iff_key (over_ne_nan _) (fun hf => by cases hf), hover, sub_le_zero_iff hnan]
  exact Iff.rfl

theorem Apart.within (h : Apart atol rtol p) : Within atol rtol p := by
  rw [Within, h.1, h.2]
  rfl

theorem Undefined.not_within (h : Undefined atol rtol p) : ¬Within atol rtol p := by
  rw [Within]
  rcases h with h | h
  · rw [h]
    exact Bool.false_ne_true
  · rw [h]
    cases ((value p.1).sub (value p.2)).abs <;> exact Bool.false_ne_true

/-- **The margin is infinite** where an element is infinitely far apart, and where it is a NaN. -/
theorem over_eq_top_iff (hatol : (fin 0).le (value atol) = true)
    (hrtol : (fin 0).le (value rtol) = true) :
    Diff.over (diffAt atol rtol (p, i)) = .inf false ↔
      Apart atol rtol p ∨ Undefined atol rtol p := by
  obtain ⟨ha, hanan⟩ := notNeg_of_le hatol
  obtain ⟨hr, hrnan⟩ := notNeg_of_le hrtol
  have htol : (tolerance (value p.1) (value p.2) (value atol) (value rtol)).NotNeg :=
    ha.add (hr.mul ((notNeg_abs _).max (notNeg_abs _)))
  have herr : (((value p.1).sub (value p.2)).abs).NotNeg := notNeg_abs _
  have hinf : ((value p.1).sub (value p.2)).abs = .inf false →
      tolerance (value p.1) (value p.2) (value atol) (value rtol) = .inf false ∨
      tolerance (value p.1) (value p.2) (value atol) (value rtol) = .nan := by
    intro h
    rw [tolerance, max_abs_of_sub h]
    rcases hr.mul_inf with hmul | hmul
    · rw [hmul]
      exact ha.add_inf
    · rw [hmul]
      exact .inr (add_nan _)
  rw [Diff.over, Apart, Undefined, diffAt]
  generalize ((value p.1).sub (value p.2)).abs = e at *
  generalize tolerance (value p.1) (value p.2) (value atol) (value rtol) = t at *
  cases e with
  | nan => simp [sub, add, isNan]
  | inf s =>
    obtain rfl : s = false := herr
    rcases hinf rfl with rfl | rfl <;> simp [sub, neg, add, isNan]
  | fin q => cases t with
    | nan => simp [sub, neg, add, isNan]
    | inf s =>
      obtain rfl : s = false := htol
      simp [sub, neg, add, isNan]
    | fin r => simp [sub, neg, add, isNan]

/-! ## The kept element -/

/-- **Exactly where the kept element tells**: it passes if and only if all elements do. -/
theorem worst_passed_iff (hatol : (fin 0).le (value atol) = true)
    (hrtol : (fin 0).le (value rtol) = true) (a b : List UInt32) :
    ((∀ d ∈ worst a b atol rtol, d.passed = true) ↔ ∀ p ∈ a.zip b, Within atol rtol p) ↔
      Unhidden atol rtol (a.zip b) := by
  rw [worst]
  generalize a.zip b = ps
  have hat : ∀ (i : Nat), (ps.zipIdx.map (diffAt atol rtol))[i]? =
      ps[i]?.map fun p => diffAt atol rtol (p, i) := by
    intro i
    rw [List.getElem?_map, List.getElem?_zipIdx, Option.map_map, Nat.zero_add]
    rfl
  have htop := fun (p : UInt32 × UInt32) (i : Nat) => over_eq_top_iff (p := p) (i := i) hatol hrtol
  cases hds : ps.zipIdx.map (diffAt atol rtol) with
  | nil =>
    have hnil : ps = [] := by simpa using hds
    simp [reduce, hnil, Unhidden]
  | cons d ds =>
    obtain ⟨i, hi, hmax, hfirst⟩ := List.foldl_larger (fun d => (Diff.over d).key)
      (f := fun w d => if (Diff.over w).lt (Diff.over d) then d else w)
      (fun w d => if_congr (lt_iff_key (over_ne_nan w) (over_ne_nan d)) rfl rfl) d ds
    rw [reduce]
    generalize ds.foldl (fun w d => if (Diff.over w).lt (Diff.over d) then d else w) d = k
      at hi hmax hfirst ⊢
    rw [← hds, hat, Option.map_eq_some_iff] at hi
    rw [← hds] at hmax hfirst
    obtain ⟨p, hp, rfl⟩ := hi
    have hmem : p ∈ ps := List.mem_of_getElem? hp
    have hkept : (∀ d ∈ some (diffAt atol rtol (p, i)), d.passed = true) ↔
        Within atol rtol p := by
      simp [passed_diffAt]
    have hmax' : ∀ (j : Nat) q, ps[j]? = some q →
        (Diff.over (diffAt atol rtol (q, j))).key ≤
          (Diff.over (diffAt atol rtol (p, i))).key := by
      intro j q hq
      refine hmax _ (List.mem_of_getElem? (i := j) ?_)
      rw [hat, hq, Option.map_some]
    have hfirst' : ∀ (j : Nat) q, j < i → ps[j]? = some q →
        (Diff.over (diffAt atol rtol (q, j))).key <
          (Diff.over (diffAt atol rtol (p, i))).key := by
      intro j q hj hq
      refine hfirst j hj _ ?_
      rw [hat, hq, Option.map_some]
    rw [hkept]
    constructor
    · intro hiff
      by_cases hall : ∀ q ∈ ps, Within atol rtol q
      · exact .inl hall
      refine .inr ?_
      intro j q hq hapart
      have hjtop : Diff.over (diffAt atol rtol (q, j)) = .inf false :=
        (htop q j).mpr (.inl hapart)
      have hitop : Diff.over (diffAt atol rtol (p, i)) = .inf false :=
        key_eq_top (le_antisymm (key_le_top _) (hjtop ▸ hmax' j q hq))
      have hout : ¬Within atol rtol p := fun hp => hall (hiff.mp hp)
      rcases (htop p i).mp hitop with hwithin | hundef
      · exact absurd hwithin.within hout
      · refine ⟨i, ?_, p, hp, hundef⟩
        by_contra hle
        rcases Nat.lt_or_eq_of_le (Nat.not_lt.mp hle) with hlt | rfl
        · exact absurd (hfirst' j q hlt hq) (by rw [hjtop, hitop]; exact lt_irrefl _)
        · rw [hp] at hq
          cases hq
          exact hout hapart.within
    · intro hcond
      rcases hcond with hall | hnone
      · exact iff_of_true (hall p hmem) hall
      · refine ⟨fun hwithin => ?_, fun hall => hall p hmem⟩
        have hitop : Diff.over (diffAt atol rtol (p, i)) ≠ .inf false := by
          intro hitop
          rcases (htop p i).mp hitop with hapart | hundef
          · obtain ⟨j, hj, q, hq, hundef⟩ := hnone i p hp hapart
            have hlt := hfirst' j q hj hq
            rw [(htop q j).mpr (.inr hundef), hitop] at hlt
            exact absurd hlt (lt_irrefl _)
          · exact hundef.not_within hwithin
        intro q hq
        obtain ⟨j, hj⟩ := List.mem_iff_getElem?.mp hq
        have hle := hmax' j q hj
        have hjtop : Diff.over (diffAt atol rtol (q, j)) ≠ .inf false := by
          intro hjtop
          rw [hjtop] at hle
          exact hitop (key_eq_top (le_antisymm (key_le_top _) hle))
        exact (within_iff_of_ne_top hjtop).mpr
          (hle.trans ((within_iff_of_ne_top hitop).mp hwithin))

/-! ## Reports -/

/-- The elements that a `Close` compares. -/
def Outputs.elems (s : Outputs) : List (UInt32 × UInt32) := (s.ra.take s.len).zip (s.rb.take s.len)

/-- A slot checked by `Close` passes exactly if every element does. -/
def Outputs.Judged (s : Outputs) : Prop :=
  ∀ atol rtol, s.check = .Close atol rtol →
    ((∀ d ∈ s.report.diff, d.passed = true) ↔ ∀ p ∈ s.elems, Within atol rtol p)

/-- An element out of its tolerance, in a slot checked by `Close`. -/
def Outputs.HasOut (s : Outputs) : Prop :=
  ∃ atol rtol, s.check = .Close atol rtol ∧ ∃ p ∈ s.elems, ¬Within atol rtol p

/-- Tolerances of at least 0. -/
def Check.NonNeg : Check → Prop
  | .Close atol rtol | .Total atol rtol =>
    (fin 0).le (value atol) = true ∧ (fin 0).le (value rtol) = true
  | .Ignore => True

instance (c : Check) : Decidable c.NonNeg :=
  match c with
  | .Close _ _ | .Total _ _ => inferInstanceAs (Decidable (_ ∧ _))
  | .Ignore => .isTrue trivial

theorem Outputs.judged_iff (s : Outputs) (h : s.check.NonNeg) :
    s.Judged ↔ ∀ atol rtol, s.check = .Close atol rtol → Unhidden atol rtol s.elems := by
  refine forall₂_congr fun atol rtol => forall_congr' fun hcheck => ?_
  rw [hcheck] at h
  have hdiff : s.report.diff = worst (s.ra.take s.len) (s.rb.take s.len) atol rtol := by
    rw [report, hcheck, slotReport.eq_def]
  rw [hdiff]
  exact worst_passed_iff h.1 h.2 _ _

/-- A slot that is judged rightly fails if an element does. -/
theorem Outputs.Judged.fails {s : Outputs} (h : s.Judged) (hout : s.HasOut) :
    s.report.passed = false := by
  obtain ⟨atol, rtol, hcheck, p, hp, hwithin⟩ := hout
  cases hpassed : s.report.passed with
  | false => rfl
  | true =>
    rw [SlotReport.passed, Bool.and_eq_true, Bool.and_eq_true] at hpassed
    have hall : ∀ d ∈ s.report.diff, d.passed = true := by
      intro d hd
      have hdiff := hpassed.1.1
      rw [Option.mem_def.mp hd] at hdiff
      exact hdiff
    exact absurd ((h atol rtol hcheck).mp hall p hp) hwithin

/-- **When `Close` hides no element**: every slot that it checks passes exactly if all its
elements do, and an element that is out fails the report. -/
theorem close_slots_are_judged_rightly_iff (layout : List BindingRole) (checks : List Check)
    (lens : List Nat) (out : List (List UInt32) × List (List UInt32))
    (h : ∀ c ∈ checks, c.NonNeg) :
    ((∀ s ∈ slots layout checks lens out, s.Judged) ∧
      ((∃ s ∈ slots layout checks lens out, s.HasOut) →
        passed ((slots layout checks lens out).map Outputs.report) = false)) ↔
      ∀ s ∈ slots layout checks lens out, ∀ atol rtol, s.check = .Close atol rtol →
        Unhidden atol rtol s.elems := by
  have hcheck : ∀ s ∈ slots layout checks lens out, s.check.NonNeg := by
    intro s hs
    obtain ⟨x, hx, rfl⟩ := List.mem_map.mp hs
    have hzip := (List.of_mem_zip (List.fst_mem_of_mem_zipIdx hx)).1
    exact h _ (List.of_mem_zip hzip).2
  constructor
  · intro hall s hs
    exact (s.judged_iff (hcheck s hs)).mp (hall.1 s hs)
  · intro hun
    have hjudged : ∀ s ∈ slots layout checks lens out, s.Judged := fun s hs =>
      (s.judged_iff (hcheck s hs)).mpr (hun s hs)
    refine ⟨hjudged, ?_⟩
    intro hout
    obtain ⟨s, hs, hsout⟩ := hout
    rw [passed, List.all_eq_false]
    refine ⟨s.report, List.mem_map_of_mem hs, ?_⟩
    rw [(hjudged s hs).fails hsout]
    exact Bool.false_ne_true

namespace Sample

/-- Two slots, of one and of two elements, and a word of `PAD` behind each. The tolerance
is 0.01 of the larger. -/
def layout : List BindingRole := [.Output .F32, .InOut .F32]

def checks : List Check := [.Close 0 0x3C23D70A, .Close 0 0x3C23D70A]

/-- In the second slot, an infinity and 1, then 0 and 100. -/
def masked : List (List UInt32) × List (List UInt32) :=
  ([[0x3F800000, PAD], [0x7F800000, 0, PAD]], [[0x3F800000, PAD], [0x3F800000, 0x42C80000, PAD]])

/-- In the second slot, a NaN and 1, then 0 and 100. -/
def plain : List (List UInt32) × List (List UInt32) :=
  ([[0x3F800000, PAD], [0x7FC00000, 0, PAD]], [[0x3F800000, PAD], [0x3F800000, 0x42C80000, PAD]])

set_option maxRecDepth 4000 in
/-- **0 and 100 pass**, behind an infinity and 1. -/
theorem a_difference_is_hidden :
    passed ((slots layout checks [1, 2] masked).map Outputs.report) = true ∧
      ∃ s ∈ slots layout checks [1, 2] masked, s.HasOut ∧ ¬s.Judged := by
  have hpassed : passed ((slots layout checks [1, 2] masked).map Outputs.report) = true := by
    decide +kernel
  refine ⟨hpassed, ⟨.InOut .F32, .Close 0 0x3C23D70A, 2, [0x7F800000, 0, PAD],
    [0x3F800000, 0x42C80000, PAD]⟩, .tail _ (.head _), ?_, ?_⟩
  · exact ⟨_, _, rfl, (0, 0x42C80000), .tail _ (.head _), by decide +kernel⟩
  · intro hjudged
    have hall := (hjudged _ _ rfl).mp (by decide +kernel) (0, 0x42C80000) (.tail _ (.head _))
    exact absurd hall (by decide +kernel)

theorem the_difference_is_told :
    (∀ s ∈ slots layout checks [1, 2] plain, s.Judged) ∧
      passed ((slots layout checks [1, 2] plain).map Outputs.report) = false := by
  have hcheck : ∀ s ∈ slots layout checks [1, 2] plain, s.check = .Close 0 0x3C23D70A := by
    decide +kernel
  -- not `∀ p ∈ s.elems`, whose decision could try all pairs of `UInt32`s
  have hapart : ∀ s ∈ slots layout checks [1, 2] plain,
      s.elems.all (fun p => ¬Apart 0 0x3C23D70A p) = true := by decide +kernel
  obtain ⟨hjudged, hfails⟩ := (close_slots_are_judged_rightly_iff layout checks [1, 2] plain
    (by decide +kernel)).mpr fun s hs atol rtol hclose => by
      obtain ⟨rfl, rfl⟩ := Check.Close.inj ((hcheck s hs).symm.trans hclose)
      have hnone := List.all_eq_true.mp (hapart s hs)
      exact .inr fun i p hp hp' =>
        absurd hp' (of_decide_eq_true (hnone p (List.mem_of_getElem? hp)))
  refine ⟨hjudged, hfails ⟨⟨.InOut .F32, .Close 0 0x3C23D70A, 2, [0x7FC00000, 0, PAD],
    [0x3F800000, 0x42C80000, PAD]⟩, .tail _ (.head _), ?_⟩⟩
  exact ⟨_, _, rfl, (0, 0x42C80000), .tail _ (.head _), by decide +kernel⟩

end Sample
end Wilupgu.Parity
