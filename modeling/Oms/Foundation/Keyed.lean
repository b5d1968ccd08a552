import Mathlib.Data.List.Basic

/-!
# Machines whose state is a family of entries

Every input is addressed to a key. It is answered from the entry of that key, and changes no other
entry.

* `trace_filter_key`: the answers to the inputs of one key are those of the run of these inputs
  alone;
* `trace_delete`: inputs that change nothing can be deleted from a run, and the other answers stay.
-/

/-- A machine over states `S` that answers inputs `I` with outputs `O`; `entry s k` is what the
state `s` keeps for the key `k`. -/
structure Keyed (S I O K E : Type*) where
  step : S → I → O × S
  key : I → K
  entry : S → K → E
  /-- An input leaves the entries of other keys alone. -/
  frame : ∀ s i k, key i ≠ k → entry (step s i).2 k = entry s k
  /-- The answer and the new entry of an input come from the entry it is addressed to. -/
  own : ∀ s s' i, entry s (key i) = entry s' (key i) →
    (step s i).1 = (step s' i).1 ∧ entry (step s i).2 (key i) = entry (step s' i).2 (key i)

namespace Keyed

variable {S I O K E : Type*} (M : Keyed S I O K E)

/-- The inputs of a run with their answers. -/
def trace (s : S) : List I → List (I × O)
  | [] => []
  | i :: is => (i, (M.step s i).1) :: trace (M.step s i).2 is

theorem trace_cons (s : S) (i : I) (is : List I) :
    M.trace s (i :: is) = (i, (M.step s i).1) :: M.trace (M.step s i).2 is := rfl

/-- **The answers for one key do not depend on the inputs for the others.** -/
theorem trace_filter_key [DecidableEq K] {k : K} {s s' : S} (h : M.entry s k = M.entry s' k)
    (is : List I) :
    (M.trace s is).filter (fun p => M.key p.1 = k) =
      M.trace s' (is.filter fun i => M.key i = k) := by
  induction is generalizing s s' with
  | nil => rfl
  | cons i is ih =>
    rw [trace_cons]
    by_cases hk : M.key i = k
    · subst hk
      obtain ⟨hout, hentry⟩ := M.own s s' i h
      rw [List.filter_cons_of_pos (by simp), List.filter_cons_of_pos (by simp), trace_cons, hout,
        ih hentry]
    · rw [List.filter_cons_of_neg (by simpa using hk), List.filter_cons_of_neg (by simpa using hk)]
      exact ih ((M.frame s i k hk).trans h)

/-- States with the same entries answer alike and stay so. -/
theorem step_congr {s s' : S} (h : ∀ k, M.entry s k = M.entry s' k) (i : I) :
    (M.step s i).1 = (M.step s' i).1 ∧
      ∀ k, M.entry (M.step s i).2 k = M.entry (M.step s' i).2 k := by
  obtain ⟨hout, hentry⟩ := M.own s s' i (h _)
  refine ⟨hout, fun k => ?_⟩
  by_cases hk : M.key i = k
  · rw [← hk, hentry]
  · rw [M.frame s i k hk, M.frame s' i k hk, h k]

/-- **Inputs that change no entry leave no trace.** -/
theorem trace_delete {silent : I × O → Bool}
    (hsilent : ∀ s i, silent (i, (M.step s i).1) = true →
      ∀ k, M.entry (M.step s i).2 k = M.entry s k)
    {s s' : S} (h : ∀ k, M.entry s k = M.entry s' k) (is : List I) :
    M.trace s' (((M.trace s is).filter fun p => !silent p).map Prod.fst) =
      (M.trace s is).filter fun p => !silent p := by
  induction is generalizing s s' with
  | nil => rfl
  | cons i is ih =>
    rw [trace_cons]
    obtain ⟨hout, hentries⟩ := M.step_congr h i
    by_cases hi : silent (i, (M.step s i).1) = true
    · rw [List.filter_cons_of_neg (by simpa using hi)]
      exact ih fun k => (hsilent s i hi k).trans (h k)
    · rw [List.filter_cons_of_pos (by simpa using hi), List.map_cons, trace_cons, ← hout,
        ih hentries]

end Keyed
