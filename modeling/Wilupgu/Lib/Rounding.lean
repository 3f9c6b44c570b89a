import Mathlib.Algebra.Order.Group.Nat

/-! # Unsigned 64-bit arithmetic that wraps

The operations of a release build on `u64` and on a 64-bit `usize`, on
natural numbers: a product or a sum is taken modulo `2 ^ 64`. Divisions need
no such step. -/

namespace Rounding

/-- One past the largest `u64`. -/
def limit : Nat := 2 ^ 64

/-- What is kept of an arithmetic result. -/
def wrap (n : Nat) : Nat := n % limit

/-- A difference, borrowed from past the largest `u64`. -/
def wrapSub (n m : Nat) : Nat := wrap (n + (limit - m))

/-- `checked_add`. -/
def checkedAdd (n m : Nat) : Option Nat := if n + m < limit then some (n + m) else none

/-- `div_ceil`. -/
def divCeil (n m : Nat) : Nat := n / m + if n % m = 0 then 0 else 1

/-- `next_multiple_of`, with the addition it makes wrapping. -/
def nextMultipleOf (n m : Nat) : Nat := if n % m = 0 then n else wrap (n + (m - n % m))

/-- The least multiple of `m` from `n` on, as an exact number. -/
def roundUp (n m : Nat) : Nat := divCeil n m * m

theorem wrap_of_lt {n : Nat} (h : n < limit) : wrap n = n := Nat.mod_eq_of_lt h

theorem wrap_lt (n : Nat) : wrap n < limit := Nat.mod_lt _ (by decide)

theorem wrapSub_of_le {n m : Nat} (h : m ≤ n) (hn : n < limit) : wrapSub n m = n - m := by
  have he : n + (limit - m) = n - m + limit := by omega
  rw [wrapSub, wrap, he, Nat.add_mod_right, Nat.mod_eq_of_lt (by omega)]

theorem le_roundUp {n m : Nat} (hm : 0 < m) : n ≤ roundUp n m := by
  unfold roundUp divCeil
  have hdiv := Nat.div_add_mod' n m
  have hlt := Nat.mod_lt n hm
  split
  · rw [Nat.add_zero]; omega
  · rw [Nat.add_mul]; omega

theorem roundUp_lt {n m : Nat} (hm : 0 < m) : roundUp n m < n + m := by
  unfold roundUp divCeil
  have hdiv := Nat.div_add_mod' n m
  split
  · rw [Nat.add_zero]; omega
  · rw [Nat.add_mul]; omega

theorem roundUp_mod (n m : Nat) : roundUp n m % m = 0 := Nat.mul_mod_left _ _

theorem divCeil_mono {a b m : Nat} (hm : 0 < m) (h : a ≤ b) : divCeil a m ≤ divCeil b m := by
  have hb : b ≤ divCeil b m * m := le_roundUp hm
  have ha : divCeil a m * m < a + m := roundUp_lt hm
  by_contra hc
  have : (divCeil b m + 1) * m ≤ divCeil a m * m := Nat.mul_le_mul_right m (by omega)
  rw [Nat.add_mul] at this
  omega

theorem roundUp_mono {a b m : Nat} (hm : 0 < m) (h : a ≤ b) : roundUp a m ≤ roundUp b m :=
  Nat.mul_le_mul_right m (divCeil_mono hm h)

/-- Dividing a sum that starts with a multiple only rounds what comes after it. -/
theorem divCeil_mul_add {m : Nat} (hm : 0 < m) (a b : Nat) :
    divCeil (m * a + b) m = a + divCeil b m := by
  unfold divCeil
  rw [Nat.mul_add_div hm, Nat.mul_add_mod, Nat.add_assoc]

theorem roundUp_of_mod {n m : Nat} (h : n % m = 0) : roundUp n m = n := by
  unfold roundUp divCeil
  rw [if_pos h, Nat.add_zero]
  exact Nat.div_mul_cancel (Nat.dvd_of_mod_eq_zero h)

/-- Rounding up from a multiple on only rounds what comes after it. -/
theorem roundUp_add {a b m : Nat} (hm : 0 < m) (ha : a % m = 0) :
    roundUp (a + b) m = a + roundUp b m := by
  obtain ⟨k, rfl⟩ := Nat.dvd_of_mod_eq_zero ha
  unfold roundUp
  rw [divCeil_mul_add hm, Nat.add_mul, Nat.mul_comm k m]

/-- What wraps loses at least the limit. -/
theorem wrap_add_limit_le {n : Nat} (h : limit ≤ n) : wrap n + limit ≤ n := by
  have hdiv := Nat.div_add_mod n limit
  have hq : limit * 1 ≤ limit * (n / limit) := Nat.mul_le_mul_left limit (Nat.div_pos h (by decide))
  unfold wrap
  omega

/-- The next multiple is the exact one, up to what wraps. -/
theorem nextMultipleOf_of_mod_ne {n m : Nat} (hm : 0 < m) (h0 : n % m ≠ 0) :
    nextMultipleOf n m = wrap (roundUp n m) := by
  have hdiv := Nat.div_add_mod' n m
  have hlt := Nat.mod_lt n hm
  have he : n + (m - n % m) = roundUp n m := by
    unfold roundUp divCeil
    rw [if_neg h0, Nat.add_mul]
    omega
  rw [nextMultipleOf, if_neg h0, he]

/-- As long as the next multiple is below the limit, it is the exact one. -/
theorem nextMultipleOf_eq {n m : Nat} (hm : 0 < m) (h : roundUp n m < limit) :
    nextMultipleOf n m = roundUp n m := by
  by_cases h0 : n % m = 0
  · rw [nextMultipleOf, if_pos h0, roundUp_of_mod h0]
  · rw [nextMultipleOf_of_mod_ne hm h0, wrap_of_lt h]

/-- The next multiple is the exact one, or below the number it is taken of. -/
theorem nextMultipleOf_cases {n m : Nat} (hm : 0 < m) (hle : m ≤ limit) :
    nextMultipleOf n m = roundUp n m ∨ nextMultipleOf n m < n := by
  by_cases h0 : n % m = 0
  · exact .inl (by rw [nextMultipleOf, if_pos h0, roundUp_of_mod h0])
  · by_cases hbig : roundUp n m < limit
    · exact .inl (nextMultipleOf_eq hm hbig)
    · have hwrap := wrap_add_limit_le (Nat.le_of_not_lt hbig)
      have hup := roundUp_lt (n := n) hm
      rw [nextMultipleOf_of_mod_ne hm h0]
      exact .inr (by omega)

/-- A multiple of a divisor of the limit, also where it wraps. -/
theorem nextMultipleOf_mod {n m : Nat} (hm : 0 < m) (h : m ∣ limit) : nextMultipleOf n m % m = 0 := by
  by_cases h0 : n % m = 0
  · rw [nextMultipleOf, if_pos h0, h0]
  · rw [nextMultipleOf_of_mod_ne hm h0, wrap, Nat.mod_mod_of_dvd _ h, roundUp_mod]

end Rounding
