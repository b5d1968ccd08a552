import Oms.Foundation.Machine
import Oms.Foundation.Window
import Oms.RingBuffer

/-!
# What a ring of samples holds

* `RingBuffer.window`: the samples from the oldest to the newest, as a reader finds them;
* `sinceClear`: what was pushed since the last clear;
* `ringBuffer_window`: the window holds the last of these, as many as the capacity allows.
-/

namespace Oms

inductive RingOp (T : Type)
  | push (v : T)
  | clear

variable {T : Type}

def ringMachine : Machine (RingBuffer T) (RingOp T) where
  step := fun r op =>
    match op with
    | .push v => r.push v
    | .clear => r.clear

/-- What one more operation makes of the values pushed since the last clear. -/
def RingOp.remember (past : List T) : RingOp T → List T
  | .push v => past ++ [v]
  | .clear => []

/-- The values pushed since the last clear, in the order of the pushes. -/
def sinceClear (ops : List (RingOp T)) : List T := ops.foldl RingOp.remember []

namespace RingBuffer

variable {r : RingBuffer T} {past : List T} {v : T}

/-- The contents read from the head onwards cyclically; from the start while the ring is not
full. -/
def window (r : RingBuffer T) : List T :=
  if r.buf.length < r.capacity then r.buf else r.buf.rotate r.head

/-- The ring holds the last of the values in `past`. -/
structure Holds (r : RingBuffer T) (past : List T) : Prop where
  size : r.size = min past.length r.capacity
  head : r.head = past.length % r.capacity
  window : r.window = past.rtake r.capacity

theorem holds_new (capacity : ℕ) : (new capacity : RingBuffer T).Holds [] where
  size := (Nat.zero_min _).symm
  head := (Nat.zero_mod _).symm
  window := by
    rw [List.rtake_nil, RingBuffer.window]
    split_ifs
    · rfl
    · exact List.rotate_nil _

/-- A ring that is not full holds everything. -/
theorem Holds.buf_of_lt (h : r.Holds past) (hlt : r.buf.length < r.capacity) : r.buf = past := by
  have hsize : r.buf.length = min past.length r.capacity := h.size
  have hwindow := h.window
  rwa [RingBuffer.window, if_pos hlt, List.rtake_of_length_le (by omega)] at hwindow

/-- **One push.** While the ring grows, the value goes to the end; once it is full, the value goes
where the oldest one was, and the reader starts behind it. -/
theorem Holds.push (h : r.Holds past) (hcap : 0 < r.capacity) (v : T) :
    (r.push v).Holds (past ++ [v]) := by
  have hsize : r.buf.length = min past.length r.capacity := h.size
  have hcapacity : (r.push v).capacity = r.capacity := rfl
  have hhead : (r.push v).head = (past ++ [v]).length % (r.push v).capacity := by
    show (r.head + 1) % r.capacity = (past ++ [v]).length % r.capacity
    rw [h.head, Nat.mod_add_mod, List.length_append, List.length_singleton]
  by_cases hlt : r.buf.length < r.capacity
  · have hbuf : (r.push v).buf = past ++ [v] := by
      rw [RingBuffer.push, if_pos hlt, h.buf_of_lt hlt]
    have hle : past.length + 1 ≤ r.capacity := by omega
    refine ⟨?_, hhead, ?_⟩
    · rw [RingBuffer.size, hbuf, List.length_append, List.length_singleton]
      exact (Nat.min_eq_left hle).symm
    · rw [hcapacity, List.rtake_of_length_le (by simpa using hle), RingBuffer.window, hbuf, hhead]
      split_ifs with hfull
      · rfl
      · -- the ring has just become full, and the head is back at the start
        have heq : (past ++ [v]).length = r.capacity := by
          rw [hcapacity, List.length_append, List.length_singleton] at hfull
          rw [List.length_append, List.length_singleton]
          omega
        rw [heq, hcapacity, Nat.mod_self, List.rotate_zero]
  · have hfull : r.buf.length = r.capacity := by omega
    have hbuf : (r.push v).buf = r.buf.set r.head v := by
      rw [RingBuffer.push, if_neg hlt]
    have hhead_lt : r.head < r.buf.length := by
      rw [h.head, hfull]
      exact Nat.mod_lt _ hcap
    have hwindow : r.buf.rotate r.head = past.rtake r.capacity := by
      rw [← h.window, RingBuffer.window, if_neg hlt]
    refine ⟨?_, hhead, ?_⟩
    · rw [RingBuffer.size, hbuf, List.length_set, List.length_append, List.length_singleton]
      show r.buf.length = min (past.length + 1) r.capacity
      omega
    · rw [RingBuffer.window, hbuf, List.length_set, hcapacity, if_neg hlt]
      show (r.buf.set r.head v).rotate ((r.head + 1) % r.capacity) = (past ++ [v]).rtake r.capacity
      rw [← hfull, List.rotate_set_succ hhead_lt, hwindow, hfull,
        List.rtake_concat hcap (by omega)]

theorem Holds.clear : r.clear.Holds [] := by
  refine ⟨(Nat.zero_min _).symm, (Nat.zero_mod _).symm, ?_⟩
  rw [List.rtake_nil, RingBuffer.window]
  split_ifs
  · rfl
  · exact List.rotate_nil _

/-- The share of the samples in the window, with the rounding of the division. -/
theorem Holds.fraction (h : r.Holds past) (rnd : ℚ → ℚ) (pred : T → Bool) :
    r.fraction rnd pred = if past.rtake r.capacity = [] then 0
      else rnd (rnd ((past.rtake r.capacity).countP pred) /
        rnd (min past.length r.capacity : ℕ)) := by
  have hperm : r.buf.Perm (past.rtake r.capacity) := by
    rw [← h.window, RingBuffer.window]
    split_ifs
    · exact List.Perm.refl _
    · exact (List.rotate_perm _ _).symm
  have hempty : r.empty = true ↔ past.rtake r.capacity = [] := by
    rw [RingBuffer.empty, List.isEmpty_iff]
    exact ⟨fun hnil => (hnil ▸ hperm).nil_eq.symm, fun hnil => (hnil ▸ hperm).eq_nil⟩
  rw [RingBuffer.fraction, h.size, hperm.countP_eq]
  exact if_congr hempty rfl rfl

end RingBuffer

open RingBuffer

/-- Every run keeps the capacity and the window. -/
theorem run_holds {capacity : ℕ} (hcap : 0 < capacity) (ops : List (RingOp T)) :
    (ringMachine.run (.new capacity) ops).capacity = capacity ∧
      (ringMachine.run (.new capacity) ops).Holds (sinceClear ops) := by
  induction ops using List.reverseRecOn with
  | nil => exact ⟨rfl, holds_new capacity⟩
  | append_singleton ops op ih =>
    obtain ⟨hcapacity, hholds⟩ := ih
    rw [Machine.run_append, sinceClear, List.foldl_append, ← sinceClear]
    cases op with
    | push v => exact ⟨hcapacity, hholds.push (hcap.trans_eq hcapacity.symm) v⟩
    | clear => exact ⟨hcapacity, Holds.clear⟩

/-- **The ring holds exactly the last window.** After any pushes and clears, the contents are the
values pushed last since the last clear, as many as the capacity allows, in the order of the pushes.
So their number is known, and `fraction` is the exact share of those that satisfy the predicate, but
for the rounding of the machine. -/
theorem ringBuffer_window (capacity : ℕ) (hcap : 0 < capacity) (ops : List (RingOp T)) :
    let r := ringMachine.run (.new capacity) ops
    let past := sinceClear ops
    r.window = past.rtake capacity ∧ r.size = min past.length capacity ∧
      ∀ pred : T → Bool,
        r.fraction id pred =
          (past.rtake capacity).countP pred / (min past.length capacity : ℕ) ∧
        ∀ rnd : ℚ → ℚ, r.fraction rnd pred = if past.rtake capacity = [] then 0
          else rnd (rnd ((past.rtake capacity).countP pred) /
            rnd (min past.length capacity : ℕ)) := by
  intro r past
  obtain ⟨hcapacity, hholds⟩ := run_holds hcap ops
  have hwindow := hholds.window
  have hsize := hholds.size
  have hfraction := hholds.fraction
  rw [hcapacity] at hwindow hsize
  simp only [hcapacity] at hfraction
  refine ⟨hwindow, hsize, fun pred => ⟨?_, fun rnd => hfraction rnd pred⟩⟩
  rw [hfraction id pred]
  split_ifs with hnil
  · rw [show (sinceClear ops).rtake capacity = [] from hnil, List.countP_nil, Nat.cast_zero,
      zero_div]
  · rfl

/-- Three values in a ring of two: the first has aged out, and the second is read first. -/
theorem ringBuffer_window_wrapped :
    (ringMachine.run (.new 2) [.push 4, .clear, .push 5, .push 6, .push 7]).window = [6, 7] ∧
      (ringMachine.run (.new 2) [.push 4, .clear, .push 5, .push 6, .push 7]).buf = [7, 6] :=
  ⟨(ringBuffer_window 2 (by decide) [.push 4, .clear, .push 5, .push 6, .push 7]).1, rfl⟩

end Oms
