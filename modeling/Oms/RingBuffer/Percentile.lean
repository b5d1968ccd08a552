import Mathlib.Data.List.GetD
import Mathlib.Data.Rat.Floor
import Oms.Foundation.Interpolate
import Oms.RingBuffer.Window

/-!
# Percentiles of a ring

`RingBuffer::percentile` interpolates between the sorted samples, in doubles. A double is exact on
integers of up to 53 bits.

* `truncate_mono`: the cast to an integer;
* `RingBuffer.ranked`: the samples in order; `percentile_eq`: the percentile interpolates it;
* `Small.percentile_mono`, `Small.ranked_zero_le_percentile`, `Small.percentile_le_ranked_last`;
* `Small.exists_lt_of_lt_percentile`: a percentile above a bound has a sample above it.
-/

namespace Oms

/-! ### The cast -/

theorem truncate_of_nonneg {q : ℚ} (h : 0 ≤ q) : truncate q = ⌊q⌋ := by
  rw [truncate, Int.tdiv_eq_ediv_of_nonneg (Rat.num_nonneg.2 h), Rat.floor_def']

theorem truncate_neg (q : ℚ) : truncate (-q) = -truncate q := by
  rw [truncate, Rat.neg_num, Rat.neg_den, Int.neg_tdiv]
  rfl

theorem truncate_intCast (n : ℤ) : truncate n = n := by
  rw [truncate, Rat.num_intCast, Rat.den_intCast, Nat.cast_one, Int.tdiv_one]

theorem truncate_nonneg {q : ℚ} (h : 0 ≤ q) : 0 ≤ truncate q := by
  rw [truncate_of_nonneg h]
  exact Int.floor_nonneg.2 h

theorem truncate_mono : Monotone truncate := by
  have hpos : ∀ {x y : ℚ}, 0 ≤ x → x ≤ y → truncate x ≤ truncate y := by
    intro x y hx hxy
    rw [truncate_of_nonneg hx, truncate_of_nonneg (hx.trans hxy)]
    exact Int.floor_mono hxy
  intro x y hxy
  rcases le_total 0 x with hx | hx
  · exact hpos hx hxy
  rcases le_total 0 y with hy | hy
  · have hneg := truncate_nonneg (neg_nonneg.2 hx)
    rw [truncate_neg] at hneg
    exact (neg_nonneg.1 hneg).trans (truncate_nonneg hy)
  · have hneg := hpos (neg_nonneg.2 hy) (neg_le_neg hxy)
    rw [truncate_neg, truncate_neg] at hneg
    exact neg_le_neg_iff.1 hneg

namespace RingBuffer

/-! ### The samples of the window -/

section Window

variable {T : Type} {s : RingBuffer T} {past : List T}

/-- The ring holds the window in some order. -/
theorem Holds.perm (h : s.Holds past) : s.buf.Perm (past.rtake s.capacity) := by
  rw [← h.window, RingBuffer.window]
  split_ifs
  · exact List.Perm.refl _
  · exact (List.rotate_perm _ _).symm

theorem Holds.size_eq (h : s.Holds past) : s.size = (past.rtake s.capacity).length :=
  h.perm.length_eq

theorem Holds.empty_iff (h : s.Holds past) : s.empty = true ↔ past.rtake s.capacity = [] := by
  rw [RingBuffer.empty, List.isEmpty_iff, ← List.length_eq_zero_iff, h.perm.length_eq,
    List.length_eq_zero_iff]

end Window

/-! ### The sorted samples -/

/-- The samples in order. Behind the last one comes the last one again. -/
def ranked (r : RingBuffer ℤ) (i : ℕ) : ℤ :=
  (r.buf.insertionSort (· ≤ ·)).getD (min i (r.size - 1)) 0

variable {r : RingBuffer ℤ} {i j : ℕ} {v c : ℤ} {rnd : ℚ → ℚ} {p q : ℚ}

theorem length_sorted (r : RingBuffer ℤ) : (r.buf.insertionSort (· ≤ ·)).length = r.size :=
  List.length_insertionSort _ _

theorem ranked_eq_getElem (h : r.buf ≠ []) (i : ℕ) :
    ∃ hi : min i (r.size - 1) < (r.buf.insertionSort (· ≤ ·)).length,
      r.ranked i = (r.buf.insertionSort (· ≤ ·))[min i (r.size - 1)] := by
  have hpos : 0 < r.size := List.length_pos_iff.2 h
  have hi : min i (r.size - 1) < (r.buf.insertionSort (· ≤ ·)).length := by
    rw [length_sorted]
    omega
  exact ⟨hi, List.getD_eq_getElem _ _ hi⟩

theorem ranked_mem (h : r.buf ≠ []) (i : ℕ) : r.ranked i ∈ r.buf := by
  obtain ⟨hi, heq⟩ := ranked_eq_getElem h i
  rw [heq]
  exact (List.mem_insertionSort _).1 (List.getElem_mem hi)

theorem ranked_mono (h : r.buf ≠ []) : Monotone r.ranked := by
  intro i j hij
  obtain ⟨hi, heqi⟩ := ranked_eq_getElem h i
  obtain ⟨hj, heqj⟩ := ranked_eq_getElem h j
  rw [heqi, heqj]
  have hsorted : (r.buf.insertionSort (· ≤ ·)).SortedLE := List.sortedLE_insertionSort
  exact hsorted.getElem_le_getElem_of_le (min_le_min_right _ hij)

/-- Every sample has a rank. -/
theorem exists_ranked (hv : v ∈ r.buf) : ∃ i, i ≤ r.size - 1 ∧ r.ranked i = v := by
  obtain ⟨i, hi, heq⟩ := List.getElem_of_mem ((List.mem_insertionSort (· ≤ ·)).2 hv)
  have hle : i ≤ r.size - 1 := by
    rw [length_sorted] at hi
    omega
  refine ⟨i, hle, ?_⟩
  rw [ranked, min_eq_left hle, List.getD_eq_getElem _ _ hi, heq]

theorem ranked_zero_le (hv : v ∈ r.buf) : r.ranked 0 ≤ v := by
  obtain ⟨i, -, rfl⟩ := exists_ranked hv
  exact ranked_mono (List.ne_nil_of_mem hv) (Nat.zero_le i)

theorem le_ranked_last (hv : v ∈ r.buf) : v ≤ r.ranked (r.size - 1) := by
  obtain ⟨i, hi, rfl⟩ := exists_ranked hv
  exact ranked_mono (List.ne_nil_of_mem hv) hi

/-! ### Percentiles -/

/-- The samples are few enough and small enough for doubles. -/
structure Small (r : RingBuffer ℤ) : Prop where
  size : r.size ≤ 2 ^ 53
  samples : ∀ v ∈ r.buf, |v| ≤ 2 ^ 52

theorem isEmpty_sorted (h : r.buf ≠ []) : (r.buf.insertionSort (· ≤ ·)).isEmpty = false := by
  rw [List.isEmpty_eq_false_iff, ← List.length_pos_iff, length_sorted]
  exact List.length_pos_iff.2 h

theorem percentile_nil (h : r.buf = []) : r.percentile rnd p = 0 := by
  unfold percentile
  rw [h]
  rfl

theorem percentile_low (h : r.buf ≠ []) (hp : p ≤ 0) : r.percentile rnd p = r.ranked 0 := by
  unfold percentile ranked
  dsimp only
  rw [isEmpty_sorted h, if_neg Bool.false_ne_true, if_pos hp, Nat.zero_min]

theorem percentile_high (h : r.buf ≠ []) (hp : 1 ≤ p) :
    r.percentile rnd p = r.ranked (r.size - 1) := by
  have hpos : ¬ p ≤ 0 := not_le.2 (zero_lt_one.trans_le hp)
  unfold percentile ranked
  dsimp only
  rw [isEmpty_sorted h, if_neg Bool.false_ne_true, if_neg hpos, if_pos hp, length_sorted, min_self]

/-- The order of the samples does not matter. -/
theorem percentile_congr {r' : RingBuffer ℤ} (h : r.buf.Perm r'.buf) :
    r.percentile rnd p = r'.percentile rnd p := by
  have hperm : (r.buf.insertionSort (· ≤ ·)).Perm (r'.buf.insertionSort (· ≤ ·)) :=
    (List.perm_insertionSort _ _).trans (h.trans (List.perm_insertionSort _ _).symm)
  have hsorted := hperm.eq_of_sortedLE List.sortedLE_insertionSort List.sortedLE_insertionSort
  unfold percentile
  rw [hsorted]

/-- The samples are a table for interpolation. -/
theorem Small.reads (hs : r.Small) (hrnd : Rounding 53 rnd) (h : r.buf ≠ []) :
    Interpolate.Reads 52 rnd truncate r.ranked where
  rounding := hrnd
  cast_mono := truncate_mono
  cast_int := truncate_intCast
  sorted := ranked_mono h
  small := fun i => hs.samples _ (ranked_mem h i)

/-- The place of a percentile among the samples. -/
def place (r : RingBuffer ℤ) (rnd : ℚ → ℚ) (p : ℚ) : ℚ := rnd (p * rnd (r.size - 1 : ℕ))

theorem Small.last (hs : r.Small) (hrnd : Rounding 53 rnd) :
    rnd (r.size - 1 : ℕ) = (r.size - 1 : ℕ) :=
  hrnd.natCast ((Nat.sub_le _ _).trans hs.size)

theorem Small.place_nonneg (hs : r.Small) (hrnd : Rounding 53 rnd) (hp : 0 ≤ p) :
    0 ≤ r.place rnd p := by
  refine hrnd.rnd_nonneg ?_
  rw [hs.last hrnd]
  exact mul_nonneg hp (Nat.cast_nonneg _)

theorem Small.place_mono (hs : r.Small) (hrnd : Rounding 53 rnd) (hpq : p ≤ q) :
    r.place rnd p ≤ r.place rnd q := by
  refine hrnd.mono ?_
  rw [hs.last hrnd]
  exact mul_le_mul_of_nonneg_right hpq (Nat.cast_nonneg _)

theorem Small.place_le (hs : r.Small) (hrnd : Rounding 53 rnd) (hp : p ≤ 1) :
    r.place rnd p ≤ (r.size - 1 : ℕ) := by
  have hone : r.place rnd 1 = (r.size - 1 : ℕ) := by
    rw [place, one_mul, hs.last hrnd, hs.last hrnd]
  exact hone ▸ hs.place_mono hrnd hp

/-- Within, the percentile interpolates the sorted samples. -/
theorem Small.percentile_eq (hs : r.Small) (hrnd : Rounding 53 rnd) (h : r.buf ≠ [])
    (hp : 0 < p) (hp' : p < 1) :
    r.percentile rnd p = Interpolate.interpolate rnd truncate r.ranked (r.place rnd p) := by
  have hfloor : (truncate (r.place rnd p)).toNat = ⌊r.place rnd p⌋₊ := by
    rw [truncate_of_nonneg (hs.place_nonneg hrnd hp.le)]
    rfl
  have hlo : ⌊r.place rnd p⌋₊ ≤ r.size - 1 := Nat.floor_le_of_le (hs.place_le hrnd hp'.le)
  unfold percentile
  dsimp only
  rw [isEmpty_sorted h, if_neg Bool.false_ne_true, if_neg hp.not_ge, if_neg hp'.not_ge,
    length_sorted]
  show truncate (rnd (rnd ((r.buf.insertionSort (· ≤ ·)).getD (truncate (r.place rnd p)).toNat 0) +
    rnd (rnd ((r.buf.insertionSort (· ≤ ·)).getD (min ((truncate (r.place rnd p)).toNat + 1)
      (r.size - 1)) 0 - (r.buf.insertionSort (· ≤ ·)).getD (truncate (r.place rnd p)).toNat 0 : ℤ) *
        rnd (r.place rnd p - rnd (truncate (r.place rnd p)).toNat)))) = _
  rw [hfloor]
  unfold Interpolate.interpolate Interpolate.between ranked
  rw [min_eq_left hlo]

/-- What is found at one place lies between the smallest and the greatest sample. -/
theorem Small.ranked_zero_le_percentile (hs : r.Small) (hrnd : Rounding 53 rnd) (h : r.buf ≠ [])
    (p : ℚ) : r.ranked 0 ≤ r.percentile rnd p := by
  rcases le_or_gt p 0 with hp | hp
  · exact (percentile_low h hp).ge
  rcases le_or_gt 1 p with hp' | hp'
  · rw [percentile_high h hp']
    exact ranked_mono h (Nat.zero_le _)
  rw [hs.percentile_eq hrnd h hp hp']
  have hplace := hs.place_nonneg hrnd hp.le
  have hlo : ⌊r.place rnd p⌋₊ ≤ 2 ^ 53 :=
    (Nat.floor_le_of_le (hs.place_le hrnd hp'.le)).trans ((Nat.sub_le _ _).trans hs.size)
  exact (ranked_mono h (Nat.zero_le _)).trans
    ((hs.reads hrnd h).le_between hlo (Nat.floor_le hplace))

theorem Small.percentile_le_ranked_last (hs : r.Small) (hrnd : Rounding 53 rnd) (h : r.buf ≠ [])
    (p : ℚ) : r.percentile rnd p ≤ r.ranked (r.size - 1) := by
  rcases le_or_gt p 0 with hp | hp
  · rw [percentile_low h hp]
    exact ranked_mono h (Nat.zero_le _)
  rcases le_or_gt 1 p with hp' | hp'
  · exact (percentile_high h hp').le
  rw [hs.percentile_eq hrnd h hp hp']
  have hlo : ⌊r.place rnd p⌋₊ ≤ 2 ^ 53 :=
    (Nat.floor_le_of_le (hs.place_le hrnd hp'.le)).trans ((Nat.sub_le _ _).trans hs.size)
  exact ((hs.reads hrnd h).between_le hlo (Nat.lt_floor_add_one _).le).trans
    (le_ranked_last (ranked_mem h _))

/-- **Percentiles are in order.** -/
theorem Small.percentile_mono (hs : r.Small) (hrnd : Rounding 53 rnd) :
    Monotone (r.percentile rnd) := by
  intro p q hpq
  rcases eq_or_ne r.buf [] with hnil | h
  · rw [percentile_nil hnil, percentile_nil hnil]
  rcases le_or_gt p 0 with hp | hp
  · rw [percentile_low h hp]
    exact hs.ranked_zero_le_percentile hrnd h q
  rcases le_or_gt 1 q with hq | hq
  · rw [percentile_high h hq]
    exact hs.percentile_le_ranked_last hrnd h p
  rw [hs.percentile_eq hrnd h hp (hpq.trans_lt hq),
    hs.percentile_eq hrnd h (hp.trans_le hpq) hq]
  exact (hs.reads hrnd h).interpolate_mono ((Nat.sub_le _ _).trans hs.size)
    (hs.place_nonneg hrnd hp.le) (hs.place_mono hrnd hpq) (hs.place_le hrnd hq.le)

/-- A percentile above a bound has a sample above it. -/
theorem Small.exists_lt_of_lt_percentile (hs : r.Small) (hrnd : Rounding 53 rnd) (h : r.buf ≠ [])
    (hlt : c < r.percentile rnd p) : ∃ v ∈ r.buf, c < v :=
  ⟨_, ranked_mem h _, hlt.trans_le (hs.percentile_le_ranked_last hrnd h p)⟩

end RingBuffer

end Oms
