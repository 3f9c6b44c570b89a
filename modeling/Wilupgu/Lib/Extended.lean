import Mathlib.Algebra.Order.Ring.Rat
import Mathlib.Order.WithBot
import Mathlib.Tactic.Linarith

/-! # Exact numbers, infinities and NaN

IEEE 754's rules for infinities and NaN over finite numbers that are exact.
Zeros have no sign here. -/

inductive Extended where
  | nan
  | inf (negative : Bool)
  | fin (q : ℚ)
  deriving DecidableEq

namespace Extended

def abs : Extended → Extended
  | nan => nan
  | inf _ => inf false
  | fin q => fin |q|

def neg : Extended → Extended
  | nan => nan
  | inf s => inf !s
  | fin q => fin (-q)

def add : Extended → Extended → Extended
  | fin p, fin q => fin (p + q)
  | inf s, inf t => if s = t then inf s else nan
  | inf s, fin _ => inf s
  | fin _, inf t => inf t
  | _, _ => nan

def sub (x y : Extended) : Extended := x.add y.neg

def mul : Extended → Extended → Extended
  | fin p, fin q => fin (p * q)
  | inf s, inf t => inf (s ^^ t)
  | inf s, fin q => if q = 0 then nan else inf (s ^^ decide (q < 0))
  | fin p, inf t => if p = 0 then nan else inf (decide (p < 0) ^^ t)
  | _, _ => nan

/-- No comparison with a NaN holds. -/
def le : Extended → Extended → Bool
  | fin p, fin q => p ≤ q
  | inf s, inf t => s || !t
  | inf s, fin _ => s
  | fin _, inf t => !t
  | _, _ => false

def lt (x y : Extended) : Bool := x.le y && !y.le x

/-- A NaN counts as missing. -/
def max : Extended → Extended → Extended
  | nan, y => y
  | x, nan => x
  | x, y => if x.le y then y else x

def isNan (x : Extended) : Bool := x = nan

/-! ## Their order -/

/-- Where a number that is no NaN is. -/
def key : Extended → WithBot (WithTop ℚ)
  | nan => ⊥
  | inf true => ⊥
  | inf false => ((⊤ : WithTop ℚ) : WithBot (WithTop ℚ))
  | fin q => ((q : WithTop ℚ) : WithBot (WithTop ℚ))

variable {x y : Extended}

theorem le_iff_key (hx : x ≠ nan) (hy : y ≠ nan) : x.le y = true ↔ x.key ≤ y.key := by
  cases x with
  | nan => exact absurd rfl hx
  | inf s => cases y with
    | nan => exact absurd rfl hy
    | inf t => cases s <;> cases t <;> simp [le, key]
    | fin q => cases s <;> simp [le, key]
  | fin p => cases y with
    | nan => exact absurd rfl hy
    | inf t => cases t <;> simp [le, key]
    | fin q => simp [le, key]

theorem lt_iff_key (hx : x ≠ nan) (hy : y ≠ nan) : x.lt y = true ↔ x.key < y.key := by
  rw [lt, Bool.and_eq_true, Bool.not_eq_true', ← Bool.not_eq_true, le_iff_key hx hy,
    le_iff_key hy hx, lt_iff_le_not_ge]

theorem key_le_top (x : Extended) : x.key ≤ (inf false).key := by
  cases x with
  | nan => exact bot_le
  | inf s => cases s <;> simp [key]
  | fin q => simp [key]

theorem key_eq_top (h : x.key = (inf false).key) : x = inf false := by
  cases x with
  | nan => cases h
  | inf s => cases s with
    | false => rfl
    | true => cases h
  | fin q => simp [key] at h

/-! ## Sums and differences -/

/-- A difference is at most 0 exactly where the first is at most the second. -/
theorem sub_le_zero_iff (h : x.sub y ≠ nan) : (x.sub y).le (fin 0) = true ↔ x.le y = true := by
  cases x with
  | nan => cases h rfl
  | inf s => cases y with
    | nan => cases h rfl
    | inf t => cases s <;> cases t <;> first | rfl | exact absurd rfl h
    | fin q => rfl
  | fin p => cases y with
    | nan => cases h rfl
    | inf t => cases t <;> simp [sub, neg, add, le]
    | fin q => simp [sub, neg, add, le, ← sub_eq_add_neg]

/-! ## Numbers that are not negative -/

/-- Not below 0; a NaN isn't. -/
def NotNeg : Extended → Prop
  | nan => True
  | inf s => s = false
  | fin q => 0 ≤ q

theorem notNeg_of_le (h : (fin 0).le x = true) : x.NotNeg ∧ x ≠ nan := by
  cases x with
  | nan => cases h
  | inf s => exact ⟨by simpa [le, NotNeg] using h, fun hf => by cases hf⟩
  | fin q => exact ⟨by simpa [le, NotNeg] using h, fun hf => by cases hf⟩

theorem notNeg_abs (x : Extended) : x.abs.NotNeg := by
  cases x with
  | nan => trivial
  | inf s => rfl
  | fin q => exact abs_nonneg q

theorem NotNeg.max (hx : x.NotNeg) (hy : y.NotNeg) : (x.max y).NotNeg := by
  cases x <;> cases y <;> simp only [Extended.max] <;> (try split) <;> assumption

theorem NotNeg.mul (hx : x.NotNeg) (hy : y.NotNeg) : (x.mul y).NotNeg := by
  cases x with
  | nan => trivial
  | inf s => cases y with
    | nan => trivial
    | inf t => simp_all [NotNeg, Extended.mul]
    | fin q =>
      have hq : 0 ≤ q := hy
      simp only [Extended.mul]
      split
      · trivial
      · simp_all [NotNeg]
  | fin p => cases y with
    | nan => trivial
    | inf t =>
      have hp : 0 ≤ p := hx
      simp only [Extended.mul]
      split
      · trivial
      · simp_all [NotNeg]
    | fin q => exact mul_nonneg hx hy

theorem NotNeg.add (hx : x.NotNeg) (hy : y.NotNeg) : (x.add y).NotNeg := by
  cases x with
  | nan => trivial
  | inf s => cases y with
    | nan => trivial
    | inf t => simp_all [NotNeg, Extended.add]
    | fin q => exact hx
  | fin p => cases y with
    | nan => trivial
    | inf t => exact hy
    | fin q => exact add_nonneg hx hy

/-- A number that is not negative, times infinity. -/
theorem NotNeg.mul_inf (hx : x.NotNeg) : x.mul (inf false) = inf false ∨ x.mul (inf false) = nan := by
  cases x with
  | nan => exact .inr rfl
  | inf s =>
    obtain rfl : s = false := hx
    exact .inl rfl
  | fin p =>
    have hp : 0 ≤ p := hx
    simp only [Extended.mul]
    split
    · exact .inr rfl
    · simp [hp]

theorem NotNeg.add_inf (hx : x.NotNeg) : x.add (inf false) = inf false ∨ x.add (inf false) = nan := by
  cases x with
  | nan => exact .inr rfl
  | inf s =>
    obtain rfl : s = false := hx
    exact .inl rfl
  | fin p => exact .inl rfl

theorem add_nan (x : Extended) : x.add nan = nan := by cases x <;> rfl

/-- Numbers infinitely far apart have an infinite one among them. -/
theorem max_abs_of_sub (h : (x.sub y).abs = inf false) : x.abs.max y.abs = inf false := by
  cases x with
  | nan => cases h
  | inf s => cases y with
    | nan => cases h
    | inf t => rfl
    | fin q => rfl
  | fin p => cases y with
    | nan => cases h
    | inf t => rfl
    | fin q => cases h

end Extended
