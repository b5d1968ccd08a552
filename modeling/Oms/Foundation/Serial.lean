import Mathlib.Data.List.Pairwise
import Mathlib.Data.Nat.Basic
import Mathlib.Order.Basic
import Mathlib.Tactic.SplitIfs

/-!
# Serial numbers compared modulo `m`

A receiver keeps the number it expects next modulo `m` and judges a number `x` by the difference
to it modulo `m`: the top `k` differences count as behind and are dropped, all others are accepted.

* `gap_of_lt`, `gap_of_le`: the difference for a number ahead, and for one behind;
* `accepted`: the numbers a receiver accepts;
* `accepted_increasing_iff`: as long as all numbers lie in a window of less than half the modulus,
  the accepted numbers increase exactly if no number comes `k` or more behind an earlier one.
-/

namespace Serial

/-- The difference of `x` to the number after `last`, modulo `m`. -/
def gap (m last x : ℕ) : ℕ := (x + m - (last + 1) % m) % m

/-- The receiver accepts `x`: it is expected, or its gap is not one of the top `k`. -/
def Accepts (m k last x : ℕ) : Prop := gap m last x = 0 ∨ gap m last x < m - k

instance (m k last x : ℕ) : Decidable (Accepts m k last x) :=
  inferInstanceAs (Decidable (_ ∨ _))

/-- The numbers accepted by a receiver whose last accepted number is `last`, if any. -/
def accepted (m k : ℕ) : Option ℕ → List ℕ → List ℕ
  | _, [] => []
  | none, x :: xs => x :: accepted m k (some x) xs
  | some last, x :: xs =>
    if Accepts m k last x then x :: accepted m k (some x) xs else accepted m k (some last) xs

section Gap

variable {m k last x : ℕ}

theorem gap_eq (hm : 0 < m) : gap m last x = (x + m + m * ((last + 1) / m) - (last + 1)) % m := by
  have hdiv := Nat.div_add_mod (last + 1) m
  have hlt := Nat.mod_lt (last + 1) hm
  rw [gap, show x + m + m * ((last + 1) / m) - (last + 1) = x + m - (last + 1) % m by omega]

/-- A number ahead of the last accepted one. -/
theorem gap_of_lt (hm : 0 < m) (h : last < x) (hx : x ≤ last + m) :
    gap m last x = x - (last + 1) := by
  have hsplit : x + m + m * ((last + 1) / m) - (last + 1) =
      x - (last + 1) + m * ((last + 1) / m + 1) := by
    rw [Nat.mul_add, Nat.mul_one]
    omega
  rw [gap_eq hm, hsplit, Nat.add_mul_mod_self_left, Nat.mod_eq_of_lt (by omega)]

/-- A number less than `m` behind the expected one. -/
theorem gap_of_le (hm : 0 < m) (hx : last + 1 ≤ x + m) :
    gap m last x = (x + m - (last + 1)) % m := by
  have hsplit : x + m + m * ((last + 1) / m) - (last + 1) =
      x + m - (last + 1) + m * ((last + 1) / m) := by
    omega
  rw [gap_eq hm, hsplit, Nat.add_mul_mod_self_left]

/-- Numbers ahead are accepted unless they are as far ahead as the numbers behind look. -/
theorem accepts_of_lt (h : last < x) (hx : x ≤ last + m) (hfar : x < last + 1 + (m - k)) :
    Accepts m k last x := by
  have hm : 0 < m := by omega
  unfold Accepts
  rw [gap_of_lt hm h hx]
  omega

/-- A number at or behind the last accepted one is dropped exactly if it is less than `k` behind. -/
theorem accepts_iff_of_le (h : x ≤ last) (hx : last + 1 < x + m) (hk : k ≤ m) :
    Accepts m k last x ↔ x + k ≤ last := by
  have hm : 0 < m := by omega
  unfold Accepts
  rw [gap_of_le hm hx.le, Nat.mod_eq_of_lt (by omega)]
  omega

end Gap

section Window

variable {m k lo n : ℕ}

/-- With a threshold above the window, everything behind is dropped. -/
theorem accepted_increasing (hk : k ≤ m) (hn : 2 * n < m) (hlarge : n ≤ k) {last : ℕ}
    {xs : List ℕ} (hlast : lo ≤ last ∧ last < lo + n) (hxs : ∀ x ∈ xs, lo ≤ x ∧ x < lo + n) :
    (last :: accepted m k (some last) xs).Pairwise (· < ·) := by
  induction xs generalizing last with
  | nil => exact List.pairwise_singleton _ _
  | cons x xs ih =>
    have hx := hxs x List.mem_cons_self
    have hrest : ∀ y ∈ xs, lo ≤ y ∧ y < lo + n := fun y hy => hxs y (List.mem_cons_of_mem _ hy)
    unfold accepted
    split_ifs with hacc
    · have hlt : last < x := by
        by_contra hle
        have := (accepts_iff_of_le (not_lt.1 hle) (by omega) hk).1 hacc
        omega
      have htail := ih hx hrest
      refine List.pairwise_cons.2 ⟨fun y hy => ?_, htail⟩
      rcases List.mem_cons.1 hy with rfl | hy
      · exact hlt
      · exact hlt.trans ((List.pairwise_cons.1 htail).1 y hy)
    · exact ih hlast hrest

/-- With a threshold within the window, numbers ahead are always accepted, and the accepted
numbers increase exactly if nothing comes `k` or more behind. -/
theorem accepted_increasing_iff_of_lt (hn : 2 * n < m) (hsmall : k < n) {last : ℕ}
    {xs : List ℕ} (hlast : lo ≤ last ∧ last < lo + n) (hxs : ∀ x ∈ xs, lo ≤ x ∧ x < lo + n) :
    (last :: accepted m k (some last) xs).Pairwise (· < ·) ↔
      (last :: xs).Pairwise fun a b => a < b + k := by
  induction xs generalizing last with
  | nil => simp [accepted]
  | cons x xs ih =>
    have hx := hxs x List.mem_cons_self
    have hrest : ∀ y ∈ xs, lo ≤ y ∧ y < lo + n := fun y hy => hxs y (List.mem_cons_of_mem _ hy)
    have ihx := ih hx hrest
    have ihlast := ih hlast hrest
    simp only [List.pairwise_cons] at ihx ihlast ⊢
    unfold accepted
    by_cases hlt : last < x
    · -- ahead: it becomes the last accepted number
      rw [if_pos (accepts_of_lt hlt (by omega) (by omega)), List.pairwise_cons, ihx]
      constructor
      · rintro ⟨-, hbehind, hpair⟩
        refine ⟨fun y hy => ?_, hbehind, hpair⟩
        rcases List.mem_cons.1 hy with rfl | hy
        · omega
        · have := hbehind y hy
          omega
      · rintro ⟨-, hbehind, hpair⟩
        have hpairs := ihx.2 ⟨hbehind, hpair⟩
        refine ⟨fun y hy => ?_, hbehind, hpair⟩
        rcases List.mem_cons.1 hy with rfl | hy
        · exact hlt
        · exact hlt.trans (hpairs.1 y hy)
    · have hle : x ≤ last := not_lt.1 hlt
      by_cases hnear : last < x + k
      · -- behind, and recognised as such
        have hdrop : ¬ Accepts m k last x := by
          rw [accepts_iff_of_le hle (by omega) (by omega)]
          omega
        rw [if_neg hdrop, ihlast]
        constructor
        · rintro ⟨hbehind, hpair⟩
          refine ⟨fun y hy => ?_, fun y hy => ?_, hpair⟩
          · rcases List.mem_cons.1 hy with rfl | hy
            · exact hnear
            · exact hbehind y hy
          · have := hbehind y hy
            omega
        · rintro ⟨hbehind, -, hpair⟩
          exact ⟨fun y hy => hbehind y (List.mem_cons_of_mem _ hy), hpair⟩
      · -- behind, and taken for a number ahead
        have hacc : Accepts m k last x := by
          rw [accepts_iff_of_le hle (by omega) (by omega)]
          omega
        rw [if_pos hacc]
        constructor
        · rintro ⟨hlast', -⟩
          exact absurd (hlast' x List.mem_cons_self) hlt
        · rintro ⟨hbehind, -⟩
          exact absurd (hbehind x List.mem_cons_self) hnear

/-- **The accepted numbers increase exactly if no number comes `k` or more behind an earlier
one**, as long as all numbers lie in a window of less than half the modulus. -/
theorem accepted_increasing_iff (hk : k ≤ m) (hn : 2 * n < m) {xs : List ℕ}
    (hxs : ∀ x ∈ xs, lo ≤ x ∧ x < lo + n) :
    (accepted m k none xs).Pairwise (· < ·) ↔ xs.Pairwise fun a b => a < b + k := by
  cases xs with
  | nil => simp [accepted]
  | cons x xs =>
    have hx := hxs x List.mem_cons_self
    have hrest : ∀ y ∈ xs, lo ≤ y ∧ y < lo + n := fun y hy => hxs y (List.mem_cons_of_mem _ hy)
    by_cases hlarge : n ≤ k
    · refine iff_of_true (accepted_increasing hk hn hlarge hx hrest) ?_
      refine List.pairwise_of_forall_mem_list fun a ha b hb => ?_
      have := hxs a ha
      have := hxs b hb
      omega
    · exact accepted_increasing_iff_of_lt hn (not_le.1 hlarge) hx hrest

end Window

end Serial
