import Mathlib.Data.Nat.Bitwise
import Mathlib.Tactic.NormNum

/-!
# Fields packed into one machine word

A word that packs fields side by side is assembled with shifts, masks and bitwise or, and taken
apart with shifts and masks. Read as a number it is a sum of the fields in mixed radix, and each
field is a quotient and a remainder.

* `mul_two_pow_or`: bitwise or of a shifted field and everything below it is addition;
* `shiftRight_and_mask`: shift and mask is quotient and remainder.
-/

namespace BitField

/-- A field shifted past the `k` low bits, joined with a value of those bits, is their sum. -/
theorem mul_two_pow_or {k low : ℕ} (h : low < 2 ^ k) (high : ℕ) :
    high * 2 ^ k ||| low = high * 2 ^ k + low := by
  rw [Nat.mul_comm]
  exact (Nat.two_pow_add_eq_or_of_lt h high).symm

/-- Masking with `width` ones keeps the low `width` bits. -/
theorem and_mask (x width : ℕ) : x &&& (2 ^ width - 1) = x % 2 ^ width :=
  Nat.and_two_pow_sub_one_eq_mod x width

/-- Shifting a word right and masking reads the field that starts at bit `shift`. -/
theorem shiftRight_and_mask (x shift width : ℕ) :
    (x >>> shift) &&& (2 ^ width - 1) = x / 2 ^ shift % 2 ^ width := by
  rw [and_mask, Nat.shiftRight_eq_div_pow]

end BitField
