import Mathlib.Data.List.Basic
import Mathlib.Data.List.Infix

/-!
# Deterministic machines and their runs

A machine takes one step for each label of a finite list of labels. A guard says which labels may
be taken in which state; a run admitted by a guard takes only such labels.

* `run`, `trace`, `Admits`, `Reachable`;
* `run_map`: a map of the states that respects the steps respects the runs;
* `Reachable.invariant`: what holds initially and survives every admitted step holds of every
  reachable state; `run_trace_invariant`: the same, beside what the run emits;
* `admits_and_forall_prefix_iff`, `forall_prefix_iff_admits`: when a step keeps a property exactly
  if its guard holds, the property holds all along a run exactly if the guard admits the run;
* `forall_log_iff`: a run writes only good entries to its log exactly if every step does.
-/

/-- A deterministic machine over states `S` and labels `L`. -/
structure Machine (S L : Type*) where
  step : S → L → S

namespace Machine

variable {S T L : Type*} (M : Machine S L) {G : S → L → Prop}

/-- The state after the labels `ls`. -/
def run (s : S) (ls : List L) : S := ls.foldl M.step s

/-- What a run emits, label by label. -/
def trace {A : Type*} (emit : S → L → List A) : S → List L → List A
  | _, [] => []
  | s, l :: ls => emit s l ++ trace emit (M.step s l) ls

/-- Every label of `ls` satisfies the guard in the state it is taken from. -/
def Admits (G : S → L → Prop) : S → List L → Prop
  | _, [] => True
  | s, l :: ls => G s l ∧ Admits G (M.step s l) ls

/-- `s` is the end of a run from `s₀` that the guard admits. -/
def Reachable (G : S → L → Prop) (s₀ s : S) : Prop :=
  ∃ ls, M.Admits G s₀ ls ∧ M.run s₀ ls = s

@[simp] theorem run_nil (s : S) : M.run s [] = s := rfl

@[simp] theorem run_cons (s : S) (l : L) (ls : List L) :
    M.run s (l :: ls) = M.run (M.step s l) ls := rfl

theorem run_append (s : S) (ls ls' : List L) :
    M.run s (ls ++ ls') = M.run (M.run s ls) ls' := List.foldl_append

@[simp] theorem admits_nil (s : S) : M.Admits G s [] := trivial

@[simp] theorem admits_cons (s : S) (l : L) (ls : List L) :
    M.Admits G s (l :: ls) ↔ G s l ∧ M.Admits G (M.step s l) ls := Iff.rfl

theorem admits_append (s : S) (ls ls' : List L) :
    M.Admits G s (ls ++ ls') ↔ M.Admits G s ls ∧ M.Admits G (M.run s ls) ls' := by
  induction ls generalizing s with
  | nil => simp
  | cons l ls ih => simp only [List.cons_append, admits_cons, run_cons, ih, and_assoc]

variable {M} in
/-- What maps the steps of a machine to those of another maps its runs. -/
theorem run_map {M' : Machine T L} {f : S → T} (hstep : ∀ s l, f (M.step s l) = M'.step (f s) l)
    (s : S) (ls : List L) : f (M.run s ls) = M'.run (f s) ls := by
  induction ls generalizing s with
  | nil => rfl
  | cons l ls ih => rw [run_cons, ih, hstep, run_cons]

/-- The guard that allows everything admits every run. -/
theorem admits_true (s : S) (ls : List L) : M.Admits (fun _ _ => True) s ls := by
  induction ls generalizing s with
  | nil => trivial
  | cons l ls ih => exact ⟨trivial, ih _⟩

variable {M}

/-- A guard that every label satisfies in every state admits the run. -/
theorem admits_of_forall {P : L → Prop} {s : S} {ls : List L} (h : ∀ l ∈ ls, P l) :
    M.Admits (fun _ l => P l) s ls := by
  induction ls generalizing s with
  | nil => trivial
  | cons l ls ih =>
    exact ⟨h l List.mem_cons_self, ih fun l' hl' => h l' (List.mem_cons_of_mem _ hl')⟩

theorem Admits.mono {G' : S → L → Prop} (hG : ∀ s l, G s l → G' s l) {s : S} {ls : List L}
    (h : M.Admits G s ls) : M.Admits G' s ls := by
  induction ls generalizing s with
  | nil => trivial
  | cons l ls ih => exact ⟨hG s l h.1, ih h.2⟩

theorem Admits.and {H : S → L → Prop} {s : S} {ls : List L} (h : M.Admits G s ls)
    (h' : M.Admits H s ls) : M.Admits (fun s l => G s l ∧ H s l) s ls := by
  induction ls generalizing s with
  | nil => trivial
  | cons l ls ih => exact ⟨⟨h.1, h'.1⟩, ih h.2 h'.2⟩

/-- Guards that agree in the states a run can reach admit the same runs. -/
theorem admits_congr {G' : S → L → Prop} {I : S → Prop} (hstep : ∀ s l, I s → I (M.step s l))
    (hG : ∀ s l, I s → (G s l ↔ G' s l)) {s : S} (hs : I s) (ls : List L) :
    M.Admits G s ls ↔ M.Admits G' s ls := by
  induction ls generalizing s with
  | nil => exact Iff.rfl
  | cons l ls ih => exact and_congr (hG s l hs) (ih (hstep s l hs))

/-- A property kept by every admitted step is kept by every admitted run. -/
theorem run_invariant {I : S → Prop} (hstep : ∀ s l, I s → G s l → I (M.step s l)) {s : S}
    {ls : List L} (hs : I s) (h : M.Admits G s ls) : I (M.run s ls) := by
  induction ls generalizing s with
  | nil => exact hs
  | cons l ls ih => exact ih (hstep s l hs h.1) h.2

/-- A relation between the state and what was emitted so far, kept by every admitted step, is kept
by every admitted run. -/
theorem run_trace_invariant {A : Type*} {emit : S → L → List A} {I : S → List A → Prop}
    (hstep : ∀ s l t, I s t → G s l → I (M.step s l) (t ++ emit s l)) {s : S} {t : List A}
    {ls : List L} (hs : I s t) (h : M.Admits G s ls) :
    I (M.run s ls) (t ++ M.trace emit s ls) := by
  induction ls generalizing s t with
  | nil => simpa [trace] using hs
  | cons l ls ih =>
    rw [trace, ← List.append_assoc]
    exact ih (hstep s l t hs h.1) h.2

theorem Reachable.refl (s : S) : M.Reachable G s s := ⟨[], trivial, rfl⟩

theorem Reachable.tail {s₀ s : S} {l : L} (h : M.Reachable G s₀ s) (hl : G s l) :
    M.Reachable G s₀ (M.step s l) := by
  obtain ⟨ls, hadm, rfl⟩ := h
  exact ⟨ls ++ [l], (M.admits_append _ _ _).2 ⟨hadm, hl, trivial⟩, M.run_append _ _ _⟩

theorem Reachable.run {s₀ s : S} {ls : List L} (h : M.Reachable G s₀ s) (hls : M.Admits G s ls) :
    M.Reachable G s₀ (M.run s ls) := by
  obtain ⟨ls₀, hadm, rfl⟩ := h
  exact ⟨ls₀ ++ ls, (M.admits_append _ _ _).2 ⟨hadm, hls⟩, M.run_append _ _ _⟩

/-- What holds initially and survives every admitted step holds of every reachable state. -/
theorem Reachable.invariant {I : S → Prop} {s₀ s : S} (h : M.Reachable G s₀ s) (h₀ : I s₀)
    (hstep : ∀ s l, I s → G s l → I (M.step s l)) : I s := by
  obtain ⟨ls, hadm, rfl⟩ := h
  exact run_invariant hstep h₀ hadm

/-- When, from states with `I`, a step is good and leads to a good state exactly if its guard holds,
and then `I` is kept, a run takes good steps and stays in good states exactly if the guard admits
it. -/
theorem admits_and_forall_prefix_iff {C I : S → Prop} {H : S → L → Prop}
    (hgood : ∀ s, I s → C s) (hkeep : ∀ s l, I s → G s l → I (M.step s l))
    (hstep : ∀ s l, I s → (H s l ∧ C (M.step s l) ↔ G s l)) {s : S} (hs : I s) (ls : List L) :
    (M.Admits H s ls ∧ ∀ pre, pre <+: ls → C (M.run s pre)) ↔ M.Admits G s ls := by
  induction ls generalizing s with
  | nil => simpa using hgood s hs
  | cons l ls ih =>
    constructor
    · rintro ⟨⟨hH, hsteps⟩, hstates⟩
      have hl : G s l := (hstep s l hs).1 ⟨hH, hstates [l] (by simp)⟩
      refine ⟨hl, (ih (hkeep s l hs hl)).1 ⟨hsteps, fun pre hpre => ?_⟩⟩
      exact hstates (l :: pre) ((List.prefix_cons_inj l).2 hpre)
    · rintro ⟨hl, hls⟩
      obtain ⟨hsteps, hstates⟩ := (ih (hkeep s l hs hl)).2 hls
      refine ⟨⟨((hstep s l hs).2 hl).1, hsteps⟩, fun pre hpre => ?_⟩
      cases pre with
      | nil => exact hgood s hs
      | cons l' pre =>
        obtain ⟨rfl, hrest⟩ := List.cons_prefix_cons.1 hpre
        exact hstates pre hrest

/-- When a step from a good state leads to a good state exactly if its guard holds, a run from a
good state stays in good states exactly if the guard admits it. -/
theorem forall_prefix_iff_admits {I : S → Prop}
    (hstep : ∀ s l, I s → (I (M.step s l) ↔ G s l)) {s : S} (hs : I s) (ls : List L) :
    (∀ pre, pre <+: ls → I (M.run s pre)) ↔ M.Admits G s ls := by
  rw [← admits_and_forall_prefix_iff (H := fun _ _ => True) (C := I) (fun _ => id)
    (fun s l hI hG => (hstep s l hI).2 hG)
    (fun s l hI => (and_iff_right trivial).trans (hstep s l hI)) hs ls]
  exact (and_iff_right (M.admits_true s ls)).symm

/-- When every step writes to the log `f` what it emits, and that is good exactly if the guard of
the step holds, a run writes good entries exactly if the guard admits it. -/
theorem forall_log_iff {A : Type*} {f : S → List A} {emit : S → L → List A} {I : S → Prop}
    {P : L → Prop} {Q : A → Prop} (hI : ∀ s l, I s → P l → I (M.step s l))
    (hlog : ∀ s l, I s → f (M.step s l) = f s ++ emit s l)
    (hemit : ∀ s l, I s → P l → ((∀ a ∈ emit s l, Q a) ↔ G s l)) {s : S} (hs : I s) {ls : List L}
    (hls : ∀ l ∈ ls, P l) :
    (∀ a ∈ f (M.run s ls), Q a) ↔ (∀ a ∈ f s, Q a) ∧ M.Admits G s ls := by
  induction ls generalizing s with
  | nil => exact (and_iff_left trivial).symm
  | cons l ls ih =>
    have hl := hls l List.mem_cons_self
    rw [run_cons, ih (hI s l hs hl) fun l' hl' => hls l' (List.mem_cons_of_mem _ hl'), hlog s l hs,
      List.forall_mem_append, hemit s l hs hl, and_assoc, admits_cons]

end Machine
