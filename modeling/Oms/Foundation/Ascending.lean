import Mathlib.Algebra.BigOperators.Group.Finset.Basic
import Mathlib.Data.List.Sort

/-!
# The elements of a finite set in ascending order

`Finset.ascending` lists a finite set in ascending order by insertion, so that it evaluates.
-/

namespace Finset

variable {α : Type*} [LE α] [DecidableLE α] [Std.Total (α := α) (· ≤ ·)] [IsTrans α (· ≤ ·)]
  [Std.Antisymm (α := α) (· ≤ ·)]

/-- The elements of a finite set in ascending order. -/
def ascending (s : Finset α) : List α :=
  Quot.liftOn s.val (List.insertionSort (· ≤ ·)) fun l l' h => by
    have hperm : (l.insertionSort (· ≤ ·)).Perm (l'.insertionSort (· ≤ ·)) :=
      ((List.perm_insertionSort _ l).trans h).trans (List.perm_insertionSort _ l').symm
    exact hperm.eq_of_pairwise' (List.pairwise_insertionSort _ l) (List.pairwise_insertionSort _ l')

theorem coe_ascending (s : Finset α) : (s.ascending : Multiset α) = s.val := by
  obtain ⟨⟨l⟩, hl⟩ := s
  exact Multiset.coe_eq_coe.2 (List.perm_insertionSort _ l)

@[simp] theorem mem_ascending {s : Finset α} {a : α} : a ∈ s.ascending ↔ a ∈ s := by
  rw [← Multiset.mem_coe, coe_ascending, mem_val]

/-- Adding up in ascending order adds up. -/
theorem sum_map_ascending {M : Type*} [AddCommMonoid M] (s : Finset α) (f : α → M) :
    (s.ascending.map f).sum = ∑ a ∈ s, f a := by
  rw [Finset.sum, ← coe_ascending, Multiset.map_coe, Multiset.sum_coe]

theorem nodup_ascending (s : Finset α) : s.ascending.Nodup := by
  rw [← Multiset.coe_nodup, coe_ascending]
  exact s.nodup

theorem pairwise_ascending (s : Finset α) : s.ascending.Pairwise (· ≤ ·) := by
  obtain ⟨⟨l⟩, hl⟩ := s
  exact List.pairwise_insertionSort _ l

/-- No element comes twice, so the order is strict. -/
theorem pairwise_lt_ascending [LT α] [Std.LawfulOrderLT α] (s : Finset α) :
    s.ascending.Pairwise (· < ·) := by
  refine (s.pairwise_ascending.and s.nodup_ascending).imp ?_
  rintro a b ⟨hle, hne⟩
  exact (Std.LawfulOrderLT.lt_iff a b).2 ⟨hle, fun hge => hne (antisymm hle hge)⟩

end Finset
