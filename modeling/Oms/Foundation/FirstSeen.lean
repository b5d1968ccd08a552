import Mathlib.Data.Finset.Insert
import Mathlib.Data.List.Sort

/-!
# First sightings in a sorted queue

A consumer reads a queue from the front, looks only at the entries that are its own, and acts on an
entry the first time it sees the tag of the entry.

* `firstSeen`: the entries it acts on;
* `firstSeen_insert_other`, `firstSeen_insert_again`, `firstSeen_insert_last`: what a sorted
  insertion of a foreign entry, of a late duplicate and of a new last entry does to them.
-/

section FirstSeen

variable {α τ : Type*} [DecidableEq τ] (mine : α → Prop) [DecidablePred mine] (tag : α → τ)

/-- The entries that are `mine` and carry a tag not seen before, neither in `seen` nor further
ahead. -/
def firstSeen : Finset τ → List α → List α
  | _, [] => []
  | seen, a :: l =>
    if mine a then
      if tag a ∈ seen then firstSeen seen l else a :: firstSeen (insert (tag a) seen) l
    else firstSeen seen l

variable {mine tag} {seen seen' : Finset τ} {a e : α} {l : List α}

theorem firstSeen_cons_other (h : ¬ mine a) :
    firstSeen mine tag seen (a :: l) = firstSeen mine tag seen l := if_neg h

theorem firstSeen_cons_again (h : tag a ∈ seen) :
    firstSeen mine tag seen (a :: l) = firstSeen mine tag seen l := by
  rw [firstSeen, if_pos h, ite_self]

theorem firstSeen_cons_first (h : mine a) (hnew : tag a ∉ seen) :
    firstSeen mine tag seen (a :: l) = a :: firstSeen mine tag (insert (tag a) seen) l := by
  rw [firstSeen, if_pos h, if_neg hnew]

theorem firstSeen_subset : firstSeen mine tag seen l ⊆ l := by
  induction l generalizing seen with
  | nil => exact List.Subset.refl _
  | cons a l ih =>
    by_cases h : mine a
    · by_cases hseen : tag a ∈ seen
      · rw [firstSeen_cons_again hseen]
        exact List.subset_cons_of_subset a ih
      · rw [firstSeen_cons_first h hseen]
        exact List.cons_subset_cons a ih
    · rw [firstSeen_cons_other h]
      exact List.subset_cons_of_subset a ih

/-- With nothing left to act on, seeing more leaves nothing. -/
theorem firstSeen_eq_nil_mono (hsub : seen ⊆ seen') (h : firstSeen mine tag seen l = []) :
    firstSeen mine tag seen' l = [] := by
  induction l with
  | nil => rfl
  | cons a l ih =>
    by_cases hm : mine a
    · by_cases hseen : tag a ∈ seen
      · rw [firstSeen_cons_again hseen] at h
        rw [firstSeen_cons_again (hsub hseen)]
        exact ih h
      · rw [firstSeen_cons_first hm hseen] at h
        cases h
    · rw [firstSeen_cons_other hm] at h ⊢
      exact ih h

/-- Nothing is acted on where nothing is one's own. -/
theorem firstSeen_eq_nil (h : ∀ a ∈ l, ¬ mine a) : firstSeen mine tag seen l = [] := by
  induction l with
  | nil => rfl
  | cons a l ih =>
    rw [firstSeen_cons_other (h a List.mem_cons_self)]
    exact ih fun b hb => h b (List.mem_cons_of_mem a hb)

/-- What comes before the head of a sorted list comes before all of it. -/
theorem rel_of_rel_head {r : α → α → Prop} [IsTrans α r] {b : α} (hsorted : (a :: l).Pairwise r)
    (he : r e a) (hb : b ∈ a :: l) : r e b := by
  rcases List.mem_cons.1 hb with rfl | hb
  · exact he
  · exact IsTrans.trans _ _ _ he ((List.pairwise_cons.1 hsorted).1 b hb)

section Insert

variable {r : α → α → Prop} [DecidableRel r]

/-- A foreign entry changes nothing. -/
theorem firstSeen_insert_other (h : ¬ mine e) :
    firstSeen mine tag seen (l.orderedInsert r e) = firstSeen mine tag seen l := by
  induction l generalizing seen with
  | nil => exact firstSeen_cons_other h
  | cons a l ih =>
    rw [List.orderedInsert_cons]
    split_ifs
    · exact firstSeen_cons_other h
    · rw [firstSeen, firstSeen, ih, ih]

variable [IsTrans α r] (hsorted : l.Pairwise r)
include hsorted

/-- A late duplicate, of a tag already seen or of an entry further ahead, changes nothing. -/
theorem firstSeen_insert_again
    (hdup : tag e ∈ seen ∨ ∃ o ∈ firstSeen mine tag seen l, tag o = tag e ∧ ¬ r e o) :
    firstSeen mine tag seen (l.orderedInsert r e) = firstSeen mine tag seen l := by
  induction l generalizing seen with
  | nil =>
    rcases hdup with hseen | ⟨o, ho, -⟩
    · exact firstSeen_cons_again hseen
    · cases ho
  | cons a l ih =>
    rw [List.orderedInsert_cons]
    split_ifs with he
    · -- nothing ahead of the duplicate, so its tag was seen
      rcases hdup with hseen | ⟨o, ho, -, hlate⟩
      · exact firstSeen_cons_again hseen
      · exact absurd (rel_of_rel_head hsorted he (firstSeen_subset ho)) hlate
    · have htail := (List.pairwise_cons.1 hsorted).2
      by_cases hm : mine a
      · by_cases hseen : tag a ∈ seen
        · rw [firstSeen_cons_again hseen] at hdup ⊢
          rw [firstSeen_cons_again hseen]
          exact ih htail hdup
        · rw [firstSeen_cons_first hm hseen] at hdup ⊢
          rw [firstSeen_cons_first hm hseen]
          congr 1
          refine ih htail ?_
          rcases hdup with hold | ⟨o, ho, htag, hlate⟩
          · exact Or.inl (Finset.mem_insert_of_mem hold)
          · rcases List.mem_cons.1 ho with rfl | ho
            · exact Or.inl (htag ▸ Finset.mem_insert_self _ _)
            · exact Or.inr ⟨o, ho, htag, hlate⟩
      · rw [firstSeen_cons_other hm] at hdup ⊢
        rw [firstSeen_cons_other hm]
        exact ih htail hdup

/-- A new entry behind all that is still to be acted on is acted on last. -/
theorem firstSeen_insert_last (hm : mine e) (hnew : tag e ∉ seen)
    (hlast : ∀ o ∈ firstSeen mine tag seen l, tag o ≠ tag e ∧ ¬ r e o) :
    firstSeen mine tag seen (l.orderedInsert r e) = firstSeen mine tag seen l ++ [e] := by
  induction l generalizing seen with
  | nil => exact firstSeen_cons_first hm hnew
  | cons a l ih =>
    rw [List.orderedInsert_cons]
    split_ifs with he
    · -- what follows the new entry is nothing to act on
      have hnil : firstSeen mine tag seen (a :: l) = [] :=
        List.eq_nil_iff_forall_not_mem.2 fun o ho =>
          (hlast o ho).2 (rel_of_rel_head hsorted he (firstSeen_subset ho))
      rw [firstSeen_cons_first hm hnew, hnil,
        firstSeen_eq_nil_mono (Finset.subset_insert _ _) hnil]
      rfl
    · have htail := (List.pairwise_cons.1 hsorted).2
      by_cases hma : mine a
      · by_cases hseen : tag a ∈ seen
        · rw [firstSeen_cons_again hseen] at hlast ⊢
          rw [firstSeen_cons_again hseen]
          exact ih htail hnew hlast
        · rw [firstSeen_cons_first hma hseen] at hlast ⊢
          rw [firstSeen_cons_first hma hseen, List.cons_append]
          congr 1
          refine ih htail ?_ fun o ho => hlast o (List.mem_cons_of_mem a ho)
          rw [Finset.mem_insert, not_or]
          exact ⟨fun heq => (hlast a List.mem_cons_self).1 heq.symm, hnew⟩
      · rw [firstSeen_cons_other hma] at hlast ⊢
        rw [firstSeen_cons_other hma]
        exact ih htail hnew hlast

end Insert

end FirstSeen
