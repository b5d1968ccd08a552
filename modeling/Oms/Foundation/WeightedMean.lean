import Mathlib.Algebra.BigOperators.Ring.List
import Mathlib.Algebra.Order.BigOperators.Group.List
import Mathlib.Algebra.Order.Floor.Ring
import Mathlib.Algebra.Order.Ring.Rat
import Mathlib.Data.Rat.Floor
import Mathlib.Tactic.Linarith

/-!
# Weighted means in integers

* `floorMean`: the mean of integer values under positive integer weights, rounded down;
* `exists_le_floorMean`, `exists_floorMean_le`: it lies between two of the values;
* `truncMean`: the mean under weights of either sign, rounded towards zero;
* `le_truncMean_iff`, `truncMean_le_iff`: it keeps to a bound exactly if the values of the weights
  alongside the total outweigh those of the weights against it, measured from the bound.
-/

namespace WeightedMean

variable {ι : Type*} {w v : ι → ℤ} {l : List ι}

/-- The mean of the values `v` under the weights `w`, rounded down. -/
def floorMean (w v : ι → ℤ) (l : List ι) : ℤ :=
  (l.map fun i => w i * v i).sum / (l.map w).sum

theorem sum_weights_pos (hw : ∀ i ∈ l, 0 < w i) (hl : l ≠ []) : 0 < (l.map w).sum := by
  refine List.sum_pos _ ?_ (by simpa using hl)
  intro x hx
  obtain ⟨i, hi, rfl⟩ := List.mem_map.1 hx
  exact hw i hi

/-- Some value is at most the mean. -/
theorem exists_le_floorMean (hw : ∀ i ∈ l, 0 < w i) (hl : l ≠ []) :
    ∃ i ∈ l, v i ≤ floorMean w v l := by
  have hlt : (l.map fun i => w i * v i).sum <
      (l.map fun i => w i * (floorMean w v l + 1)).sum := by
    rw [List.sum_map_mul_right, mul_comm]
    exact Int.lt_mul_of_ediv_lt (sum_weights_pos hw hl) (Int.lt_succ _)
  obtain ⟨i, hi, hvalue⟩ := List.exists_lt_of_sum_lt _ _ hlt
  exact ⟨i, hi, Int.lt_add_one_iff.1 (lt_of_mul_lt_mul_left hvalue (hw i hi).le)⟩

/-- The mean is at most some value. -/
theorem exists_floorMean_le (hw : ∀ i ∈ l, 0 < w i) (hl : l ≠ []) :
    ∃ i ∈ l, floorMean w v l ≤ v i := by
  have hle : (l.map fun i => w i * floorMean w v l).sum ≤ (l.map fun i => w i * v i).sum := by
    rw [List.sum_map_mul_right]
    exact Int.mul_ediv_self_le (sum_weights_pos hw hl).ne'
  obtain ⟨i, hi, hvalue⟩ := List.exists_le_of_sum_le hl _ _ hle
  exact ⟨i, hi, le_of_mul_le_mul_left hvalue (hw i hi)⟩

/-- It is the floor of the exact mean. -/
theorem floorMean_eq_floor (hw : ∀ i ∈ l, 0 < w i) (hl : l ≠ []) :
    floorMean w v l = ⌊(((l.map fun i => w i * v i).sum : ℤ) : ℚ) / (l.map w).sum⌋ := by
  rw [Int.floor_div_cast_of_nonneg (sum_weights_pos hw hl).le, Int.floor_intCast, floorMean]

/-! ### Weights of either sign -/

section Signed

variable {a lo hi : ℤ}

/-- The mean of the values `v` under the weights `w`, rounded towards zero. -/
def truncMean (w v : ι → ℤ) (l : List ι) : ℤ :=
  (l.map fun i => w i * v i).sum.tdiv (l.map w).sum

/-- The elements whose weight has the sign of the total. -/
def alongside (w : ι → ℤ) (l : List ι) : List ι := l.filter fun i => 0 < w i * (l.map w).sum

/-- The elements whose weight has the other sign. -/
def against (w : ι → ℤ) (l : List ι) : List ι := l.filter fun i => w i * (l.map w).sum < 0

/-- The values under the magnitudes of the weights. -/
def load (w v : ι → ℤ) (l : List ι) : ℤ := (l.map fun i => |w i| * v i).sum

theorem sign_mul_eq_abs {n : ℤ} (h : 0 < a * n) : a * n.sign = |a| := by
  rcases lt_or_gt_of_ne (right_ne_zero_of_mul h.ne') with hn | hn
  · rw [Int.sign_eq_neg_one_of_neg hn, abs_of_neg (neg_of_mul_pos_left h hn.le)]
    ring
  · rw [Int.sign_eq_one_of_pos hn, abs_of_pos (pos_of_mul_pos_left h hn.le)]
    ring

/-- The total, signed by a number that is not zero, is what is with that number less what is
against it. -/
theorem load_filter_sub {n : ℤ} (hn : n ≠ 0) (w v : ι → ℤ) (l : List ι) :
    load w v (l.filter fun i => 0 < w i * n) - load w v (l.filter fun i => w i * n < 0) =
      (l.map fun i => w i * v i).sum * n.sign := by
  induction l with
  | nil => exact (zero_mul n.sign).symm
  | cons i l ih =>
    rw [List.map_cons, List.sum_cons, add_mul, ← ih, mul_right_comm]
    rcases lt_trichotomy (w i * n) 0 with h | h | h
    · have habs : w i * n.sign = -|w i| := by
        have hneg := sign_mul_eq_abs (a := -w i) (n := n) (by linarith)
        rw [abs_neg] at hneg
        linarith
      rw [List.filter_cons_of_neg (by simpa using h.le), List.filter_cons_of_pos (by simpa using h),
        habs]
      simp only [load, List.map_cons, List.sum_cons]
      ring
    · have hzero : w i = 0 := (mul_eq_zero.1 h).resolve_right hn
      rw [List.filter_cons_of_neg (by simp [h]), List.filter_cons_of_neg (by simp [h]), hzero]
      ring
    · rw [List.filter_cons_of_pos (by simpa using h), List.filter_cons_of_neg (by simpa using h.le),
        sign_mul_eq_abs h]
      simp only [load, List.map_cons, List.sum_cons]
      ring

/-- A quotient rounded towards zero, by the magnitude of the divisor. -/
theorem tdiv_eq_tdiv_abs (a n : ℤ) : a.tdiv n = (a * n.sign).tdiv |n| := by
  rcases lt_trichotomy n 0 with hn | rfl | hn
  · rw [Int.sign_eq_neg_one_of_neg hn, abs_of_neg hn, mul_neg_one, Int.neg_tdiv_neg]
  · simp
  · rw [Int.sign_eq_one_of_pos hn, abs_of_pos hn, mul_one]

theorem tdiv_nonpos {n : ℤ} (ha : a ≤ 0) (hn : 0 ≤ n) : a.tdiv n ≤ 0 := by
  rw [← neg_nonneg, ← Int.neg_tdiv]
  exact Int.tdiv_nonneg (neg_nonneg.2 ha) hn

theorem le_tdiv_iff {n : ℤ} (hlo : 0 < lo) (hn : 0 < n) : lo ≤ a.tdiv n ↔ lo * n ≤ a := by
  rcases le_or_gt 0 a with ha | ha
  · rw [Int.tdiv_eq_ediv_of_nonneg ha, Int.le_ediv_iff_mul_le hn]
  · have hle : a.tdiv n ≤ 0 := tdiv_nonpos ha.le hn.le
    have hpos := mul_pos hlo hn
    constructor
    · intro h
      linarith
    · intro h
      linarith

theorem tdiv_le_iff {n : ℤ} (hhi : 0 ≤ hi) (hn : 0 < n) : a.tdiv n ≤ hi ↔ a < (hi + 1) * n := by
  rcases le_or_gt 0 a with ha | ha
  · rw [Int.tdiv_eq_ediv_of_nonneg ha, ← Int.lt_add_one_iff, Int.ediv_lt_iff_lt_mul hn]
  · have hle : a.tdiv n ≤ 0 := tdiv_nonpos ha.le hn.le
    have hpos := mul_pos (Int.lt_add_one_iff.2 hhi) hn
    exact ⟨fun _ => by linarith, fun _ => hle.trans hhi⟩

theorem sum_mul_sub (w v : ι → ℤ) (c : ℤ) (l : List ι) :
    (l.map fun i => w i * (v i - c)).sum = (l.map fun i => w i * v i).sum - c * (l.map w).sum := by
  induction l with
  | nil => simp
  | cons i l ih =>
    simp only [List.map_cons, List.sum_cons]
    rw [ih]
    ring

/-- The loads on both sides, measured from a common point. -/
theorem load_sub_const {n : ℤ} (hn : n = (l.map w).sum) (hne : n ≠ 0) (c : ℤ) :
    load w (fun i => v i - c) (alongside w l) - load w (fun i => v i - c) (against w l) =
      (l.map fun i => w i * v i).sum * n.sign - c * |n| := by
  rw [alongside, against, ← hn, load_filter_sub hne, sum_mul_sub, ← hn, sub_mul, mul_assoc,
    Int.mul_sign_self, ← Int.abs_eq_natAbs]

/-- **The mean is at least `lo`** exactly if, measured above `lo`, the values alongside the total
weigh at least as much as those against it. -/
theorem le_truncMean_iff (hne : (l.map w).sum ≠ 0) (hlo : 0 < lo) :
    lo ≤ truncMean w v l ↔
      load w (fun i => v i - lo) (against w l) ≤ load w (fun i => v i - lo) (alongside w l) := by
  have hload := load_sub_const (v := v) rfl hne lo
  rw [truncMean, tdiv_eq_tdiv_abs, le_tdiv_iff hlo (abs_pos.2 hne)]
  constructor
  · intro h
    linarith
  · intro h
    linarith

/-- **The mean is at most `hi`** exactly if, measured below `hi + 1`, the values alongside the total
weigh more than those against it. -/
theorem truncMean_le_iff (hne : (l.map w).sum ≠ 0) (hhi : 0 ≤ hi) :
    truncMean w v l ≤ hi ↔
      load w (fun i => hi + 1 - v i) (against w l) <
        load w (fun i => hi + 1 - v i) (alongside w l) := by
  have hload := load_sub_const (v := v) rfl hne (hi + 1)
  have hneg (l' : List ι) :
      load w (fun i => hi + 1 - v i) l' = -load w (fun i => v i - (hi + 1)) l' := by
    rw [load, load, List.sum_neg, List.map_map]
    refine congrArg List.sum (List.map_congr_left fun i _ => ?_)
    show |w i| * (hi + 1 - v i) = -(|w i| * (v i - (hi + 1)))
    ring
  rw [truncMean, tdiv_eq_tdiv_abs, tdiv_le_iff hhi (abs_pos.2 hne), hneg, hneg]
  constructor
  · intro h
    linarith
  · intro h
    linarith

theorem load_nonneg (h : ∀ i ∈ l, 0 ≤ v i) : 0 ≤ load w v l := by
  refine List.sum_nonneg fun x hx => ?_
  obtain ⟨i, hi, rfl⟩ := List.mem_map.1 hx
  exact mul_nonneg (abs_nonneg _) (h i hi)

/-- Positive values alongside a total that is not zero weigh something: some weight has its sign. -/
theorem load_pos (hne : (l.map w).sum ≠ 0) (h : ∀ i ∈ alongside w l, 0 < v i) :
    0 < load w v (alongside w l) := by
  have hsome : alongside w l ≠ [] := by
    intro hnil
    have hsub := load_filter_sub hne w (fun _ => 1) l
    change load w _ (alongside w l) - load w _ (against w l) = _ at hsub
    simp only [mul_one] at hsub
    rw [Int.mul_sign_self, ← Int.abs_eq_natAbs, hnil] at hsub
    have hagainst : 0 ≤ load w (fun _ => 1) (against w l) := load_nonneg fun _ _ => zero_le_one
    have hpos := abs_pos.2 hne
    have hzero : load w (fun _ => 1) [] = 0 := rfl
    linarith
  refine List.sum_pos _ (fun x hx => ?_) (by simpa using hsome)
  obtain ⟨i, hi, rfl⟩ := List.mem_map.1 hx
  have hwi : 0 < w i * (l.map w).sum := by simpa using (List.mem_filter.1 hi).2
  exact mul_pos (abs_pos.2 (left_ne_zero_of_mul hwi.ne')) (h i hi)

end Signed

end WeightedMean
