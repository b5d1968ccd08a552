import Mathlib.Logic.Function.Basic
import Oms.Foundation.Machine

/-!
# Acceptors

An acceptor reads letters one after the other, and refuses a letter that may not follow.

* `reads`: reading a word; `reads_append`, `reads_concat`;
* `reads_invariant`: a relation between the state and what was read so far, kept by every letter, is
  kept by every word;
* `family`: an acceptor for each key, reading the letters with that key; `family_reads`: it reads of
  a word what each of them reads;
* `Machine.trace_read`: if an acceptor follows each step of a machine by reading what the step
  emits, then it follows every run.
-/

/-- A partial automaton over states `S` and letters `L`. -/
structure Acceptor (S L : Type*) where
  next : S → L → Option S

namespace Acceptor

variable {S L K : Type*} (A : Acceptor S L)

/-- The state after a word, unless a letter is refused. -/
def reads : S → List L → Option S
  | s, [] => some s
  | s, l :: ls => (A.next s l).bind fun s => reads s ls

@[simp] theorem reads_nil (s : S) : A.reads s [] = some s := rfl

@[simp] theorem reads_singleton (s : S) (l : L) : A.reads s [l] = A.next s l := by
  simp [reads]

theorem reads_append (s : S) (ls ls' : List L) :
    A.reads s (ls ++ ls') = (A.reads s ls).bind fun s => A.reads s ls' := by
  induction ls generalizing s with
  | nil => rfl
  | cons l ls ih => simp [reads, ih, Option.bind_assoc]

variable {A}

/-- A relation between the state and what was read so far, kept by every letter, is kept by every
word. -/
theorem reads_invariant {I : S → List L → Prop}
    (hnext : ∀ s w l s', I s w → A.next s l = some s' → I s' (w ++ [l])) {s s' : S} {w ls : List L}
    (hs : I s w) (h : A.reads s ls = some s') : I s' (w ++ ls) := by
  induction ls generalizing s w with
  | nil =>
    cases h
    simpa using hs
  | cons l ls ih =>
    obtain ⟨s₁, hfirst, hrest⟩ := Option.bind_eq_some_iff.1 h
    simpa using ih (hnext s w l s₁ hs hfirst) hrest

section Family

variable [DecidableEq K] (A) (key : L → K)

/-- One acceptor for each key. A letter is read by that of its key. -/
def family : Acceptor (K → S) L where
  next σ l := (A.next (σ (key l)) l).map (Function.update σ (key l))

variable {A key}

theorem family_next {σ σ' : K → S} {l : L} (h : (A.family key).next σ l = some σ') (k : K) :
    A.reads (σ k) ([l].filter fun l => key l = k) = some (σ' k) := by
  obtain ⟨s, hnext, rfl⟩ := Option.map_eq_some_iff.1 h
  by_cases hk : key l = k
  · subst hk
    simpa using hnext
  · simp [hk, Function.update_of_ne (Ne.symm hk)]

/-- The acceptor of a key reads the letters with that key. -/
theorem family_reads {σ σ' : K → S} {ls : List L} (h : (A.family key).reads σ ls = some σ')
    (k : K) : A.reads (σ k) (ls.filter fun l => key l = k) = some (σ' k) := by
  induction ls generalizing σ with
  | nil =>
    cases h
    rfl
  | cons l ls ih =>
    obtain ⟨σ₁, hfirst, hrest⟩ := Option.bind_eq_some_iff.1 h
    rw [← List.singleton_append, List.filter_append, reads_append, family_next hfirst k]
    exact ih hrest

end Family

end Acceptor

/-- **Forward simulation**: if an acceptor follows each step of a machine by reading what the step
emits, then it follows every run. -/
theorem Machine.trace_read {S L T N : Type*} {M : Machine S L} {A : Acceptor T N}
    {emit : S → L → List N} {G : S → L → Prop} {R : S → T → Prop}
    (hstep : ∀ s l t, R s t → G s l → ∃ t', A.reads t (emit s l) = some t' ∧ R (M.step s l) t')
    {s : S} {t : T} {ls : List L} (hs : R s t) (h : M.Admits G s ls) :
    ∃ t', A.reads t (M.trace emit s ls) = some t' ∧ R (M.run s ls) t' := by
  induction ls generalizing s t with
  | nil => exact ⟨t, rfl, hs⟩
  | cons l ls ih =>
    obtain ⟨t₁, hread, hrel⟩ := hstep s l t hs h.1
    obtain ⟨t', hrest, hrel'⟩ := ih hrel h.2
    refine ⟨t', ?_, hrel'⟩
    rw [trace, Acceptor.reads_append, hread]
    exact hrest
