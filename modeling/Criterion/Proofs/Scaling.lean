import Criterion.Json.Lexeme
import Criterion.Proofs.Rounding
import Mathlib.Tactic.Ring

/-! Doubles that the reader computes without loss. A decimal with few digits and a small power of ten is the product or
the quotient of two numbers that have ranks, so there is one rounding only, and it is read as the nearest double. Other
decimals need not be. -/
namespace Criterion

namespace Binary64

variable {n num den k : Nat} {exponent : Int}

/-- Rounding depends on the quotient only. -/
theorem nearestRank_mul_right (hk : 0 < k) : nearestRank (num * k) (den * k) = nearestRank num den := by
  have hlow (m : Nat) : 2 * (num * k) < m * (den * k) ↔ 2 * num < m * den := by
    rw [← Nat.mul_assoc, ← Nat.mul_assoc, Nat.mul_lt_mul_right hk]
  have hhigh (m : Nat) : m * (den * k) < 2 * (num * k) ↔ m * den < 2 * num := by
    rw [← Nat.mul_assoc, ← Nat.mul_assoc, Nat.mul_lt_mul_right hk]
  simp only [nearestRank, Nat.mul_div_mul_right _ _ hk, hlow, hhigh]

theorem units_powerOfTen (h : k ≤ 22) : units (powerOfTen k) = 10 ^ k * stepsInOne := by
  have hfive : 5 ^ k ≤ 2 ^ 53 := (Nat.pow_le_pow_right (by decide) h).trans (by decide)
  have hten : 10 ^ k = 5 ^ k * 2 ^ k := Nat.mul_pow 5 2 k
  rw [powerOfTen, Nat.pow_eq, hten, units_wholeRank_mul hfive]

theorem product_powerOfTen (hn : n ≤ 2 ^ 53) (hk : k ≤ 22) :
    product (wholeRank n) (powerOfTen k) = min infinity (nearestRank (n * 10 ^ k * stepsInOne) 1) := by
  have hnum (steps : Nat) : n * steps * (10 ^ k * steps) = n * 10 ^ k * steps * steps := by ring
  have hone : nearestRank _ (1 * stepsInOne) = nearestRank (n * 10 ^ k * stepsInOne) 1 :=
    nearestRank_mul_right stepsInOne_pos
  rw [Nat.one_mul] at hone
  rw [product, units_wholeRank hn, units_powerOfTen hk, hnum, hone]

theorem quotient_powerOfTen (hn : n ≤ 2 ^ 53) (hk : k ≤ 22) :
    quotient (wholeRank n) (powerOfTen k) = min infinity (nearestRank (n * stepsInOne) (10 ^ k)) := by
  rw [quotient, units_wholeRank hn, units_powerOfTen hk, nearestRank_mul_right stepsInOne_pos]

/-- The reader multiplies by the power of ten or divides by it once. -/
theorem scaledRank_cases (hn : n ≤ 2 ^ 53) (hexponent : exponent.natAbs ≤ 22) (hpos : 0 < n) :
    scaledRank n exponent = min infinity
      (nearestRank (n * Nat.pow 10 exponent.toNat * stepsInOne) (Nat.pow 10 (-exponent).toNat)) := by
  have hgreatest : greatestPower = 308 := rfl
  rw [scaledRank, if_neg hpos.ne', Nat.pow_eq, Nat.pow_eq]
  split
  · rw [show exponent.toNat = 0 by omega, show (-exponent).toNat = exponent.natAbs by omega, divided, if_pos (by omega),
      quotient_powerOfTen hn hexponent, Nat.pow_zero, Nat.mul_one]
  · rw [show exponent.toNat = exponent.natAbs by omega, show (-exponent).toNat = 0 by omega, if_pos (by omega),
      product_powerOfTen hn hexponent, Nat.pow_zero]

/-- Up to `2 ^ 53` and `10 ^ 22` nothing is lost before the one rounding. -/
theorem scaledRank_nearest (negative : Bool) (hn : n ≤ 2 ^ 53) (hexponent : exponent.natAbs ≤ 22) :
    .signed negative (scaledRank n exponent) = Scientific.round ⟨negative, n, exponent⟩ := by
  rcases Nat.eq_zero_or_pos n with rfl | hpos
  · simp [Scientific.round, scaledRank]
  · have hlength : (Nat.toDigits 10 n).length ≤ 16 :=
      (Nat.length_toDigits_le_iff (by decide) (by decide)).mpr (by omega)
    rw [scaledRank_cases hn hexponent hpos, Scientific.round, Scientific.top]
    dsimp only
    rw [if_neg (not_or.mpr ⟨hpos.ne', by omega⟩), if_neg (by omega)]

end Binary64

namespace Json

variable {cs whole part : List Char} {n : Nat} {exponent : Int}

/-- A number does not get smaller with more digits. -/
theorem le_ofDigitChars (cs : List Char) (n : Nat) : n ≤ Nat.ofDigitChars 10 cs n := by
  rw [Nat.ofDigitChars_eq_ofDigitChars_zero]
  have := Nat.le_mul_of_pos_left n (Nat.pow_pos (n := cs.length) (by decide : 0 < 10))
  omega

/-- Nothing is left over of digits that fit. -/
theorem gather_of_lt (h : Nat.ofDigitChars 10 cs n < UInt64.size) : gather n cs = (Nat.ofDigitChars 10 cs n, []) := by
  induction cs generalizing n with
  | nil => rfl
  | cons c cs ih =>
    have hcons : Nat.ofDigitChars 10 (c :: cs) n = Nat.ofDigitChars 10 cs (Nat.ofDigitChars 10 [c] n) := by
      rw [← Nat.ofDigitChars_append]
      rfl
    rw [hcons] at h ⊢
    rw [gather, if_pos ((le_ofDigitChars cs _).trans_lt h), ih h]

/-- A decimal with few digits and a small power of ten is read as the nearest double. -/
theorem doubleNumber_nearest (negative : Bool) (hdigits : Decimal.ofDigits (whole ++ part) ≤ 2 ^ 53)
    (hexponent : (exponent - part.length).natAbs ≤ 22) :
    doubleNumber negative whole part exponent = .double (Numeral.scientific negative whole part exponent).round := by
  have hsize : 2 ^ 53 < UInt64.size := by decide
  rw [Decimal.ofDigits, Nat.ofDigitChars_append] at hdigits
  have hpart := gather_of_lt (hdigits.trans_lt hsize)
  have hwhole := gather_of_lt ((le_ofDigitChars part _).trans_lt (hdigits.trans_lt hsize))
  rw [doubleNumber, hwhole]
  dsimp only
  rw [hpart]
  simp only [List.length_nil, Int.natCast_zero, Int.add_zero]
  rw [Binary64.scaledRank_nearest negative hdigits hexponent, Numeral.scientific, Decimal.ofDigits, Nat.ofDigitChars_append]

/-- One digit more, and what is read is the double after the nearest one. -/
example : doubleNumber false "9007199254740993".toList ['0'] 0 ≠
    .double (Numeral.scientific false "9007199254740993".toList ['0'] 0).round := by
  decide +kernel

end Json

end Criterion
