import Mathlib.Data.List.Basic

/-!
# Streaks

A history is a list with its newest entry first. A streak of length `k` is a history whose last `k`
entries exist and satisfy a predicate.

* `List.Streak`, with `streak_zero`, `streak_succ_cons`, `Streak.mono`;
* `Streak.count`: a counter that grows by at most one with an entry that satisfies the predicate,
  and is reset by any other, never exceeds the streak.
-/

namespace List

variable {α : Type*} {p : α → Prop} {k c c' : ℕ} {x : α} {l : List α}

/-- The last `k` entries of a history exist and satisfy `p`. -/
def Streak (p : α → Prop) (k : ℕ) (l : List α) : Prop := k ≤ l.length ∧ ∀ x ∈ l.take k, p x

@[simp] theorem streak_zero : Streak p 0 l := by simp [Streak]

@[simp] theorem streak_succ_cons : Streak p (k + 1) (x :: l) ↔ p x ∧ Streak p k l := by
  simp [Streak]
  tauto

theorem Streak.mono (h : Streak p k l) (hle : c ≤ k) : Streak p c l :=
  ⟨Nat.le_trans hle h.1, fun x hx => h.2 x (take_subset_take_left l hle hx)⟩

/-- One more entry, and what the counter makes of it. -/
theorem Streak.count (h : Streak p c l) (hup : p x → c' ≤ c + 1) (hreset : ¬ p x → c' = 0) :
    Streak p c' (x :: l) := by
  by_cases hx : p x
  · exact (streak_succ_cons.2 ⟨hx, h⟩).mono (hup hx)
  · rw [hreset hx]
    exact streak_zero

end List
