import Mathlib.Data.List.DropRight
import Mathlib.Data.List.Rotate

/-!
# The last entries of a list, in a cyclic array

An array that is full is read cyclically from its oldest entry on. Writing the next value over that
entry, and starting one further, drops the oldest value and appends the new one.

* `List.rotate_set_succ`: the cyclic array;
* `List.rtake_concat`: the last entries of a list that grows.
-/

namespace List

variable {α : Type*} {l : List α} {i n : ℕ}

/-- Overwrite the entry the reader starts at, and start behind it. -/
theorem rotate_set_succ (h : i < l.length) (v : α) :
    (l.set i v).rotate ((i + 1) % l.length) = (l.rotate i).tail ++ [v] := by
  have hlen : (l.set i v).length = l.length := length_set
  rw [← hlen, rotate_mod]
  obtain ⟨before, x, after, rfl, rfl⟩ : ∃ before x after, l = before ++ x :: after ∧
      i = before.length :=
    ⟨l.take i, l[i], l.drop (i + 1), by rw [← drop_eq_getElem_cons h, take_append_drop],
      (length_take_of_le h.le).symm⟩
  rw [set_append_right _ _ le_rfl, Nat.sub_self, set_cons_zero, rotate_append_length_eq]
  have hsplit : before ++ v :: after = (before ++ [v]) ++ after := by simp
  have hstart : before.length + 1 = (before ++ [v]).length := by simp
  rw [hsplit, hstart, rotate_append_length_eq]
  simp

theorem rtake_of_length_le (h : l.length ≤ n) : l.rtake n = l := by
  rw [rtake, Nat.sub_eq_zero_of_le h, drop_zero]

/-- The last `n` entries, after one more. -/
theorem rtake_concat (hn : 0 < n) (h : n ≤ l.length) (v : α) :
    (l ++ [v]).rtake n = (l.rtake n).tail ++ [v] := by
  obtain ⟨m, rfl⟩ := Nat.exists_eq_succ_of_ne_zero hn.ne'
  have hdrop : l.length - (m + 1) + 1 = l.length - m := by omega
  rw [Nat.succ_eq_add_one, rtake_concat_succ, rtake, rtake, tail_drop, hdrop]

end List
