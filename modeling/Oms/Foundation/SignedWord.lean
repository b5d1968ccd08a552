import Mathlib.Algebra.Order.Ring.Int
import Mathlib.Tactic.Linarith
import Mathlib.Tactic.Positivity

/-!
# Signed words

An operation on signed words with `k` bits beside the sign yields the exact integer where the word
holds it.

* `Fits`: the integers a word holds;
* `checked`: the exact result, or nothing where it overflows;
* `toInt_ofInt_eq_iff`: the two's complement result is the exact one where it fits.
-/

namespace SignedWord

/-- The integers that a signed word with `k` bits beside the sign holds. -/
def Fits (k : ℕ) (x : ℤ) : Prop := -2 ^ k ≤ x ∧ x < 2 ^ k

instance (k : ℕ) (x : ℤ) : Decidable (Fits k x) := by
  unfold Fits
  infer_instance

/-- The result of an operation on words, or nothing where it overflows. -/
def checked (k : ℕ) (x : ℤ) : Option ℤ := if Fits k x then some x else none

variable {k : ℕ} {x y : ℤ}

theorem fits_of_abs_lt (h : |x| < 2 ^ k) : Fits k x := ⟨(abs_lt.1 h).1.le, (abs_lt.1 h).2⟩

theorem fits_iff_lt (h : 0 ≤ x) : Fits k x ↔ x < 2 ^ k := by
  have hpow : (0 : ℤ) < 2 ^ k := by positivity
  exact ⟨And.right, fun hlt => ⟨by linarith, hlt⟩⟩

theorem checked_of_fits (h : Fits k x) : checked k x = some x := if_pos h

theorem checked_eq_some_iff : checked k x = some y ↔ Fits k x ∧ x = y := by
  unfold checked
  split_ifs with h
  · simp [h]
  · simp [h]

/-- A word read back is the integer it was made of exactly if it holds it. -/
theorem toInt_ofInt_eq_iff : (BitVec.ofInt (k + 1) x).toInt = x ↔ Fits k x := by
  constructor
  · intro h
    have hle := BitVec.le_toInt (BitVec.ofInt (k + 1) x)
    have hlt := BitVec.toInt_lt (x := BitVec.ofInt (k + 1) x)
    rw [h, Nat.add_sub_cancel] at hle hlt
    exact ⟨hle, hlt⟩
  · intro h
    exact BitVec.toInt_ofInt_eq_self k.succ_pos h.1 h.2

end SignedWord
