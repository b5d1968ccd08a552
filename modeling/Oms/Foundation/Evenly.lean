import Mathlib.Data.List.Basic
import Mathlib.Algebra.Ring.Int.Defs
import Mathlib.Tactic.Linarith
import Mathlib.Tactic.Ring

/-!
# Dividing evenly

A quantity in `n` parts that differ by one at most, the larger ones first.

* `evenly`, `evenly_of_lt`;
* `evenly_succ`: the first part is what is left, divided by the parts that are left and rounded up;
* `nonzeroParts`: the parts that are not zero.
-/

/-- `q` in `n` parts: `q % n` of them are `q / n + 1`, and the others are `q / n`. -/
def evenly (q : ℤ) (n : ℕ) : List ℤ :=
  List.replicate (q % n).toNat (q / n + 1) ++ List.replicate (n - (q % n).toNat) (q / n)

/-- The parts that are not zero. -/
def nonzeroParts (q : ℤ) (n : ℕ) : List ℤ := (evenly q n).filter (0 < ·)

/-- The parts of `d * n + r`. -/
theorem evenly_of_lt (d : ℤ) {r n : ℕ} (h : r < n) :
    evenly (d * n + r) n = List.replicate r (d + 1) ++ List.replicate (n - r) d := by
  have hpos : (0 : ℤ) < n := by omega
  have hmod : (d * n + r) % (n : ℤ) = r := by
    rw [Int.add_emod, Int.mul_emod_left, zero_add, Int.emod_emod]
    exact Int.emod_eq_of_lt (by omega) (by omega)
  have hdiv : (d * n + r) / (n : ℤ) = d := by
    rw [add_comm, Int.add_mul_ediv_right _ _ hpos.ne', Int.ediv_eq_zero_of_lt (by omega) (by omega)]
    omega
  rw [evenly, hmod, hdiv, Int.toNat_natCast]

/-- Any quantity is `d * n + r`. -/
theorem exists_eq_mul_add (q : ℤ) {n : ℕ} (h : 0 < n) :
    ∃ (d : ℤ) (r : ℕ), r < n ∧ q = d * n + r := by
  have hpos : (0 : ℤ) < n := by omega
  have hnonneg := Int.emod_nonneg q hpos.ne'
  have hlt := Int.emod_lt_of_pos q hpos
  have hsplit := Int.ediv_mul_add_emod q n
  exact ⟨q / n, (q % n).toNat, by omega, by omega⟩

/-- Nothing, in any number of parts. -/
theorem evenly_zero (n : ℕ) : evenly 0 n = List.replicate n 0 := by simp [evenly]

/-- What is left, divided by the parts that are left and rounded up. -/
theorem evenly_succ (q : ℤ) (hq : 0 ≤ q) (n : ℕ) :
    evenly q (n + 1) = (q + n) / (n + 1) :: evenly (q - (q + n) / (n + 1)) n := by
  obtain ⟨d, r, hr, rfl⟩ := exists_eq_mul_add q n.succ_pos
  rw [evenly_of_lt d hr]
  cases r with
  | zero =>
    have hceil : (d * ((n + 1 : ℕ) : ℤ) + ((0 : ℕ) : ℤ) + n) / (n + 1) = d := by
      have hlt : (n : ℤ) / (n + 1) = 0 := Int.ediv_eq_zero_of_lt (by omega) (by omega)
      push_cast
      rw [add_zero, add_comm, Int.add_mul_ediv_right _ _ (by omega), hlt, zero_add]
    rw [hceil]
    have hrest : d * ((n + 1 : ℕ) : ℤ) + ((0 : ℕ) : ℤ) - d = d * n + ((0 : ℕ) : ℤ) := by
      push_cast
      ring
    rw [hrest]
    cases n with
    | zero => simp [evenly_zero]
    | succ n =>
      rw [evenly_of_lt d n.succ_pos]
      rfl
  | succ r =>
    have hceil : (d * ((n + 1 : ℕ) : ℤ) + ((r + 1 : ℕ) : ℤ) + n) / (n + 1) = d + 1 := by
      have hlt : (r : ℤ) / (n + 1) = 0 := Int.ediv_eq_zero_of_lt (by omega) (by omega)
      have hsum : d * ((n + 1 : ℕ) : ℤ) + ((r + 1 : ℕ) : ℤ) + n = r + (d + 1) * (n + 1) := by
        push_cast
        ring
      rw [hsum, Int.add_mul_ediv_right _ _ (by omega), hlt, zero_add]
    rw [hceil]
    have hrest : d * ((n + 1 : ℕ) : ℤ) + ((r + 1 : ℕ) : ℤ) - (d + 1) = d * n + r := by
      push_cast
      ring
    rw [hrest, evenly_of_lt d (by omega : r < n), List.replicate_succ, Nat.succ_sub_succ,
      List.cons_append]

theorem first_part_nonneg (q : ℤ) (hq : 0 ≤ q) (n : ℕ) : 0 ≤ (q + n) / (n + 1) :=
  Int.ediv_nonneg (by omega) (by omega)

/-- The first part is no larger than the whole. -/
theorem first_part_le (q : ℤ) (hq : 0 ≤ q) (n : ℕ) : (q + n) / (n + 1) ≤ q := by
  have hmul : 0 ≤ q * n := mul_nonneg hq (by omega)
  have hlt : (q + n) / (n + 1) < q + 1 := by
    apply Int.ediv_lt_of_lt_mul (by omega)
    linarith
  omega

/-! ### Nonzero parts -/

theorem nonzeroParts_zero (n : ℕ) : nonzeroParts 0 n = [] := by simp [nonzeroParts, evenly_zero]

/-- The first part, where it is not zero. -/
theorem nonzeroParts_succ (q : ℤ) (hq : 0 ≤ q) (n : ℕ) :
    nonzeroParts q (n + 1) =
      (if (q + n) / (n + 1) ≤ 0 then [] else [(q + n) / (n + 1)]) ++
        nonzeroParts (q - (q + n) / (n + 1)) n := by
  rw [nonzeroParts, evenly_succ q hq, List.filter_cons]
  by_cases hpos : (q + n) / (n + 1) ≤ 0
  · simp [hpos, not_lt.2 hpos, nonzeroParts]
  · simp [hpos, not_le.1 hpos, nonzeroParts]
