import Mathlib.Algebra.Order.Floor.Semiring
import Mathlib.Algebra.Order.Field.Basic
import Mathlib.Data.Int.ConditionallyCompleteOrder
import Mathlib.Tactic.Linarith

/-!
# Interpolation in rounded arithmetic

A table of integers is read between its entries, in an arithmetic that rounds every result.

* `Rounding`: a rounding that is monotone, and exact on the integers up to a power of two;
* `between`: the value at a point behind an entry, on the line to the next one;
* `le_between`, `between_le`, `between_mono`: with a sorted table of small entries it lies between
  the two, and grows with the point;
* `interpolate`: the value at a point of the whole table; `interpolate_mono`.
-/

/-- The rounding of an arithmetic with a precision of `prec` bits. -/
structure Rounding {K : Type*} [Field K] [LinearOrder K] (prec : ℕ) (rnd : K → K) : Prop where
  mono : Monotone rnd
  exact : ∀ n : ℤ, |n| ≤ 2 ^ prec → rnd n = n

namespace Rounding

variable {K : Type*} [Field K] [LinearOrder K] {prec : ℕ} {rnd : K → K} {n : ℤ} {x : K}

theorem le_rnd (h : Rounding prec rnd) (hn : |n| ≤ 2 ^ prec) (hx : n ≤ x) : n ≤ rnd x :=
  (h.exact n hn).ge.trans (h.mono hx)

theorem rnd_le (h : Rounding prec rnd) (hn : |n| ≤ 2 ^ prec) (hx : x ≤ n) : rnd x ≤ n :=
  (h.mono hx).trans (h.exact n hn).le

theorem rnd_nonneg (h : Rounding prec rnd) (hx : 0 ≤ x) : 0 ≤ rnd x := by
  have hzero : ((0 : ℤ) : K) ≤ rnd x := h.le_rnd (by simp) (by simpa using hx)
  simpa using hzero

theorem rnd_le_one (h : Rounding prec rnd) (hx : x ≤ 1) : rnd x ≤ 1 := by
  have hone : rnd x ≤ ((1 : ℤ) : K) :=
    h.rnd_le (by simpa using one_le_pow₀ one_le_two) (by simpa using hx)
  simpa using hone

theorem natCast (h : Rounding prec rnd) {m : ℕ} (hm : m ≤ 2 ^ prec) : rnd m = m := by
  have hexact := h.exact m (by rw [Nat.abs_cast]; exact_mod_cast hm)
  simpa using hexact

end Rounding

namespace Interpolate

variable {K : Type*} [Field K] [LinearOrder K] (rnd : K → K) (cast : K → ℤ) (f : ℕ → ℤ)

/-- The value at `x` on the line from entry `lo` to the next one. The result is cast to an
integer. -/
def between (lo : ℕ) (x : K) : ℤ :=
  cast (rnd (rnd (f lo) + rnd (rnd (f (lo + 1) - f lo : ℤ) * rnd (x - rnd lo))))

/-- The value at `x`. -/
def interpolate [IsStrictOrderedRing K] [FloorSemiring K] (x : K) : ℤ :=
  between rnd cast f ⌊x⌋₊ x

/-- The table is sorted, its entries are small, and casts of integers are exact. -/
structure Reads (prec : ℕ) (rnd : K → K) (cast : K → ℤ) (f : ℕ → ℤ) : Prop where
  rounding : Rounding (prec + 1) rnd
  cast_mono : Monotone cast
  cast_int : ∀ n : ℤ, cast n = n
  sorted : Monotone f
  small : ∀ i, |f i| ≤ 2 ^ prec

namespace Reads

variable {rnd cast f} {prec lo : ℕ} {x y : K}

theorem entry (h : Reads prec rnd cast f) (i : ℕ) : |f i| ≤ 2 ^ (prec + 1) :=
  (h.small i).trans (pow_le_pow_right₀ one_le_two (Nat.le_succ prec))

theorem gap (h : Reads prec rnd cast f) (i j : ℕ) : |f i - f j| ≤ 2 ^ (prec + 1) := by
  have hi := h.small i
  have hj := h.small j
  have htri := abs_sub (f i) (f j)
  rw [pow_succ]
  linarith

theorem slope_eq (h : Reads prec rnd cast f) (lo : ℕ) :
    rnd (f (lo + 1) - f lo : ℤ) = ((f (lo + 1) - f lo : ℤ) : K) :=
  h.rounding.exact _ (h.gap _ _)

variable [IsStrictOrderedRing K]

theorem slope_nonneg (h : Reads prec rnd cast f) (lo : ℕ) :
    (0 : K) ≤ (f (lo + 1) - f lo : ℤ) := by
  exact_mod_cast sub_nonneg.2 (h.sorted (Nat.le_succ lo))

/-- Behind an entry nothing is smaller than it. -/
theorem le_between (h : Reads prec rnd cast f) (hlo : lo ≤ 2 ^ (prec + 1)) (hx : lo ≤ x) :
    f lo ≤ between rnd cast f lo x := by
  have hpart : (0 : K) ≤ rnd (x - rnd lo) := by
    refine h.rounding.rnd_nonneg ?_
    rw [h.rounding.natCast hlo]
    exact sub_nonneg.2 hx
  have hstep : (0 : K) ≤ rnd ((f (lo + 1) - f lo : ℤ) * rnd (x - rnd lo)) :=
    h.rounding.rnd_nonneg (mul_nonneg (h.slope_nonneg lo) hpart)
  have hsum : (f lo : K) ≤ rnd (f lo + rnd ((f (lo + 1) - f lo : ℤ) * rnd (x - rnd lo))) :=
    h.rounding.le_rnd (h.entry lo) (le_add_of_nonneg_right hstep)
  unfold between
  rw [h.slope_eq, h.rounding.exact _ (h.entry lo)]
  calc f lo = cast (f lo) := (h.cast_int _).symm
    _ ≤ _ := h.cast_mono hsum

/-- Before the next entry nothing is greater than that one. -/
theorem between_le (h : Reads prec rnd cast f) (hlo : lo ≤ 2 ^ (prec + 1)) (hx : x ≤ lo + 1) :
    between rnd cast f lo x ≤ f (lo + 1) := by
  have hpart : rnd (x - rnd lo) ≤ 1 := by
    refine h.rounding.rnd_le_one ?_
    rw [h.rounding.natCast hlo]
    linarith
  have hstep : rnd ((f (lo + 1) - f lo : ℤ) * rnd (x - rnd lo)) ≤ (f (lo + 1) - f lo : ℤ) :=
    h.rounding.rnd_le (h.gap _ _) (mul_le_of_le_one_right (h.slope_nonneg lo) hpart)
  have hsum : rnd (f lo + rnd ((f (lo + 1) - f lo : ℤ) * rnd (x - rnd lo))) ≤ f (lo + 1) := by
    refine h.rounding.rnd_le (h.entry _) ?_
    have hnext : (f lo : K) + (f (lo + 1) - f lo : ℤ) = f (lo + 1) := by
      rw [← Int.cast_add, add_sub_cancel]
    rw [← hnext]
    exact add_le_add_right hstep _
  unfold between
  rw [h.slope_eq, h.rounding.exact _ (h.entry lo)]
  calc _ ≤ cast (f (lo + 1)) := h.cast_mono hsum
    _ = f (lo + 1) := h.cast_int _

theorem between_mono (h : Reads prec rnd cast f) (lo : ℕ) : Monotone (between rnd cast f lo) := by
  intro x y hxy
  refine h.cast_mono (h.rounding.mono (add_le_add_right (h.rounding.mono ?_) _))
  rw [h.slope_eq]
  exact mul_le_mul_of_nonneg_left (h.rounding.mono (sub_le_sub_right hxy _)) (h.slope_nonneg lo)

/-- **The further the point, the greater the value.** -/
theorem interpolate_mono [FloorSemiring K] (h : Reads prec rnd cast f) {last : ℕ}
    (hlast : last ≤ 2 ^ (prec + 1)) (hx : 0 ≤ x) (hxy : x ≤ y) (hy : y ≤ last) :
    interpolate rnd cast f x ≤ interpolate rnd cast f y := by
  have hfloor : ⌊x⌋₊ ≤ ⌊y⌋₊ := Nat.floor_mono hxy
  have hsmall : ⌊y⌋₊ ≤ 2 ^ (prec + 1) := (Nat.floor_le_of_le hy).trans hlast
  unfold interpolate
  rcases hfloor.eq_or_lt with heq | hlt
  · rw [heq]
    exact h.between_mono _ hxy
  · calc between rnd cast f ⌊x⌋₊ x ≤ f (⌊x⌋₊ + 1) :=
          h.between_le (hfloor.trans hsmall) (Nat.lt_floor_add_one x).le
      _ ≤ f ⌊y⌋₊ := h.sorted hlt
      _ ≤ between rnd cast f ⌊y⌋₊ y := h.le_between hsmall (Nat.floor_le (hx.trans hxy))

end Reads

end Interpolate
