import AtomScript.Number.Basic
import Mathlib.Tactic.NormNum
import Mathlib.Tactic.FieldSimp
import Mathlib.Data.Rat.Cast.Order

/-!
# Which numbers are positions

A finite number has an exact value, a rational number, and `Number.position?` looks at nothing else:
a number is a position if its value is a natural number.  So `-0` is the first position, and a
fraction, a number below zero, an infinity and a NaN are none.
-/

namespace AtomScript

namespace Number

/-- The exact value of a finite number. -/
def value? (x : Number) : Option ℚ :=
  if x.isFinite then some ((if x.isNegative then -1 else 1) * x.mantissa * 2 ^ x.scale) else none

variable {x : Number} {p : Nat}

/-- A number is a zero if there is nothing in front of the power of two. -/
theorem mantissa_eq_zero : x.mantissa = 0 ↔ x.isZero = true := by
  have hfraction : x.fractionField = x.bits.toNat % 2 ^ 52 := Nat.and_two_pow_sub_one_eq_mod _ 52
  have hmagnitude : x.magnitude.toNat = x.bits.toNat % 2 ^ 63 := Nat.and_two_pow_sub_one_eq_mod _ 63
  have hexponent : x.exponentField = x.bits.toNat % 2 ^ 63 / 2 ^ 52 := by
    rw [← hmagnitude]
    exact Nat.shiftRight_eq_div_pow _ 52
  have hzero : x.isZero = true ↔ x.magnitude.toNat = 0 := by
    rw [isZero, beq_iff_eq, ← UInt64.toNat_inj]
    rfl
  rw [hzero, hmagnitude, mantissa, hexponent, hfraction, Nat.pow_eq]
  split <;> omega

/-- The magnitude is a natural number if the fraction bits that the scale cuts off are zero. -/
theorem wholePart?_eq_some :
    x.wholePart? = some p ↔ x.isFinite = true ∧ (x.mantissa * 2 ^ x.scale : ℚ) = p := by
  unfold wholePart?
  cases x.isFinite with
  | false => simp
  | true =>
    rw [if_neg (by simp), and_iff_right rfl]
    split
    -- the word is shifted to the left: a whole number in any case
    · next hscale =>
      obtain ⟨n, hn⟩ := Int.eq_ofNat_of_zero_le hscale
      rw [hn, Option.some_inj, Int.toNat_natCast, Nat.shiftLeft_eq, zpow_natCast]
      exact_mod_cast Iff.rfl
    -- the word is shifted to the right: a whole number if nothing is lost
    · next hscale =>
      obtain ⟨n, hn⟩ := Int.eq_ofNat_of_zero_le (Int.neg_nonneg_of_nonpos (Int.le_of_not_le hscale))
      have hpow : (0 : ℚ) < 2 ^ n := by positivity
      have hvalue : (x.mantissa * 2 ^ x.scale : ℚ) = p ↔ x.mantissa = p * 2 ^ n := by
        rw [← Int.neg_neg x.scale, hn, zpow_neg, zpow_natCast, ← div_eq_mul_inv,
          div_eq_iff hpow.ne']
        exact_mod_cast Iff.rfl
      rw [hvalue, hn, Int.toNat_natCast]
      change (if x.mantissa % 2 ^ n = 0 then some (x.mantissa / 2 ^ n) else none) = some p ↔ _
      have hpos : 0 < 2 ^ n := Nat.two_pow_pos n
      split
      · next hdvd =>
        rw [Option.some_inj, Nat.div_eq_iff_eq_mul_left hpos (Nat.dvd_of_mod_eq_zero hdvd)]
      · next hdvd =>
        refine iff_of_false nofun fun h => hdvd ?_
        rw [h, Nat.mul_mod_left]

/-- A number is a position if its value is a natural number. -/
theorem position?_eq_some : x.position? = some p ↔ x.value? = some (p : ℚ) := by
  have hpow : (0 : ℚ) < 2 ^ x.scale := zpow_pos two_pos _
  have hvalue : x.value? = some (p : ℚ) ↔ x.isFinite = true ∧
      ((if x.isNegative then -1 else 1) * x.mantissa * 2 ^ x.scale : ℚ) = p := by
    unfold value?
    split
    · next hfinite => rw [Option.some_inj, and_iff_right hfinite]
    · next hfinite => exact iff_of_false nofun fun h => hfinite h.1
  rw [hvalue]
  unfold position?
  cases x.isNegative with
  -- with a sign, only zero is a position
  | false => simpa using wholePart?_eq_some
  | true =>
    cases hzero : x.isZero with
    | true => simpa [mantissa_eq_zero.2 hzero] using @wholePart?_eq_some x p
    | false =>
      have hmantissa : (0 : ℚ) < x.mantissa := by
        exact_mod_cast Nat.pos_of_ne_zero fun h => by simp [mantissa_eq_zero.1 h] at hzero
      refine iff_of_false (by simp) fun h => ?_
      have hneg : ((-1) * x.mantissa * 2 ^ x.scale : ℚ) < 0 := by
        rw [neg_one_mul, neg_mul]
        exact neg_neg_of_pos (mul_pos hmantissa hpow)
      exact absurd (h.2 ▸ hneg) (not_lt.2 (Nat.cast_nonneg p))

end Number

end AtomScript
