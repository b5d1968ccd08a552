import Oms.Foundation.Machine
import Oms.OrderPool

/-!
# Stale ids

An id names a slot and the generation the slot had when the id was minted. A release moves the
generation on, so the id is stale from then until the 16-bit generation comes round.

* `PoolOp`, `poolMachine`, `Permitted`: the pool as a machine, and what its asserts ask for;
* `run_slot`: what a run does to the generation and the allocation of a slot;
* `stale_ids_die`: an id is current exactly as long as its slot was not released.
-/

namespace Oms

inductive PoolOp
  | acquire
  | release (slot : ℕ)
  deriving DecidableEq

namespace OrderPool

/-- An acquire on an exhausted pool is the hard stop; here it changes nothing. -/
def step (p : OrderPool) : PoolOp → OrderPool
  | .acquire =>
    match p.acquire with
    | none => p
    | some (_, p') => p'
  | .release slot => p.release slot

/-- What the asserts of the pool ask for: a free slot, or a slot that is allocated. -/
def Permitted (p : OrderPool) : PoolOp → Prop
  | .acquire => p.inUse < p.capacity
  | .release slot => p.allocated slot = true

instance (p : OrderPool) (op : PoolOp) : Decidable (p.Permitted op) := by
  cases op
  · exact inferInstanceAs (Decidable (_ < _))
  · exact inferInstanceAs (Decidable (_ = _))

end OrderPool

def poolMachine : Machine OrderPool PoolOp where
  step := OrderPool.step

open OrderPool

section Stale

variable {p : OrderPool} {slot : ℕ} {op : PoolOp} {ops : List PoolOp}

theorem step_acquire (p : OrderPool) : poolMachine.step p .acquire = p ∨
    ∃ slot, p.acquire = some (slot, poolMachine.step p .acquire) := by
  show p.step .acquire = p ∨ ∃ slot, p.acquire = some (slot, p.step .acquire)
  unfold OrderPool.step
  cases p.acquire with
  | none => exact Or.inl rfl
  | some acquired => exact Or.inr ⟨acquired.1, rfl⟩

theorem step_pool_wf (h : p.WF) (hop : p.Permitted op) : (poolMachine.step p op).WF := by
  cases op with
  | acquire =>
    rcases step_acquire p with heq | ⟨slot, hacq⟩
    · rw [heq]
      exact h
    · exact h.acquire hacq
  | release slot => exact h.release hop

/-- What a step does to the generation and the allocation of a slot. -/
theorem step_slot_generation (p : OrderPool) (slot : ℕ) (op : PoolOp) :
    (poolMachine.step p op).capacity = p.capacity ∧
      (poolMachine.step p op).generation slot =
        p.generation slot + UInt16.ofNat ([op].count (.release slot)) ∧
      (op ≠ .release slot → p.allocated slot = true →
        (poolMachine.step p op).allocated slot = true) := by
  cases op with
  | acquire =>
    rcases step_acquire p with heq | ⟨taken, hacq⟩
    · rw [heq]
      simp
    · obtain ⟨rest, -, heq⟩ := acquire_cases hacq
      rw [heq]
      refine ⟨rfl, by simp, fun _ halloc => ?_⟩
      simp [Function.update_apply, halloc]
  | release released =>
    show (p.release released).capacity = _ ∧ (p.release released).generation slot = _ ∧
      (_ → _ → (p.release released).allocated slot = true)
    by_cases hslot : released = slot
    · subst hslot
      exact ⟨rfl, by simp [OrderPool.release], fun hne => absurd rfl hne⟩
    · refine ⟨rfl, ?_, fun _ halloc => ?_⟩
      · rw [release_generation_of_ne (Ne.symm hslot)]
        simp [hslot]
      · rw [release_allocated_of_ne (Ne.symm hslot)]
        exact halloc

/-- **What a run does to a slot**: each release moves its generation on, and only a release frees
it. -/
theorem run_slot (p : OrderPool) (slot : ℕ) (ops : List PoolOp) :
    (poolMachine.run p ops).capacity = p.capacity ∧
      (poolMachine.run p ops).generation slot =
        p.generation slot + UInt16.ofNat (ops.count (.release slot)) ∧
      (ops.count (.release slot) = 0 → p.allocated slot = true →
        (poolMachine.run p ops).allocated slot = true) := by
  induction ops generalizing p with
  | nil => simp
  | cons op ops ih =>
    obtain ⟨hcap, hgen, halloc⟩ := step_slot_generation p slot op
    obtain ⟨hcap', hgen', halloc'⟩ := ih (poolMachine.step p op)
    have hcount : (op :: ops).count (.release slot) =
        [op].count (.release slot) + ops.count (.release slot) := by
      rw [← List.count_append, List.singleton_append]
    rw [Machine.run_cons, hcount]
    refine ⟨hcap'.trans hcap, ?_, fun hnone hheld => ?_⟩
    · rw [hgen', hgen, UInt16.ofNat_add, UInt16.add_assoc]
    · obtain ⟨hhead, htail⟩ := Nat.add_eq_zero_iff.1 hnone
      refine halloc' htail (halloc ?_ hheld)
      rintro rfl
      simp at hhead

/-- A generation is back after a multiple of `2 ^ 16` steps only. -/
theorem generation_add_eq_iff {g : UInt16} {k : ℕ} (h : k < 2 ^ 16) :
    g + UInt16.ofNat k = g ↔ k = 0 := by
  rw [← UInt16.toNat_inj, UInt16.toNat_add, UInt16.toNat_ofNat']
  have := g.toNat_lt
  omega

/-- **Stale ids die with their slot.** In every run, an acquire hands out a slot that is not
allocated, and an id minted for it is current, whatever happens then, exactly as long as the slot
has not been released; the generation comes round only after `2 ^ 16` releases. -/
theorem stale_ids_die (capacity : PoolCapacity) (before after : List PoolOp)
    (hops : poolMachine.Admits Permitted (.init capacity) (before ++ .acquire :: after)) :
    let p := poolMachine.run (.init capacity) before
    ∃ slot p', p.acquire = some (slot, p') ∧ slot < p.capacity ∧ p.allocated slot = false ∧
      ∀ (venue : UInt8) (sequence : UInt16),
        let id := encodeOrderId venue (p'.generation slot) (UInt32.ofNat slot) sequence
        after.count (.release slot) < 2 ^ 16 →
          ((poolMachine.run p' after).isCurrent id = true ↔ after.count (.release slot) = 0) := by
  intro p
  obtain ⟨hbefore, hfree, -⟩ := (poolMachine.admits_append _ _ _).1 hops
  have hwf : p.WF := Machine.run_invariant (fun _ _ => step_pool_wf) (wf_init capacity) hbefore
  obtain ⟨⟨slot, p'⟩, hacq⟩ := Option.isSome_iff_exists.1 (hwf.acquire_isSome hfree)
  obtain ⟨hlt, hunallocated⟩ := hwf.acquire_free hacq
  refine ⟨slot, p', hacq, hlt, hunallocated, fun venue sequence => ?_⟩
  intro id hfew
  have hslot : slotOf id = slot := slotOf_encodeOrderId (hlt.trans_le hwf.capacity_le)
  have hgeneration : (decodeOrderId id).generation = p'.generation slot :=
    generation_encodeOrderId _
  have hcapacity : p'.capacity = p.capacity := by
    obtain ⟨rest, -, rfl⟩ := acquire_cases hacq
    rfl
  obtain ⟨hcap, hgen, halloc⟩ := run_slot p' slot after
  rw [isCurrent_iff, hslot, hgeneration, hgen, generation_add_eq_iff hfew, hcap, hcapacity]
  exact ⟨fun h => h.2.2, fun h => ⟨hlt, halloc h (acquire_slot hacq).1, h⟩⟩

end Stale

def oneSlotPool : PoolCapacity := ⟨1, by decide⟩

/-- The only slot is taken, given back, and taken again. -/
theorem stale_ids_die_recycled :
    let p' := (OrderPool.init oneSlotPool).step .acquire
    let p'' := poolMachine.run p' [.release 0, .acquire]
    p''.isCurrent (encodeOrderId 1 0 0 7) = false ∧
      p''.isCurrent (encodeOrderId 1 1 0 8) = true := by
  intro p' p''
  obtain ⟨slot, taken, hacq, -, -, hids⟩ := stale_ids_die oneSlotPool [] [.release 0, .acquire]
    ⟨by decide, by decide, by decide, trivial⟩
  have hfirst : (OrderPool.init oneSlotPool).acquire = some (0, p') := rfl
  obtain ⟨rfl, rfl⟩ := Prod.mk.inj (Option.some.inj (hacq.symm.trans hfirst))
  refine ⟨?_, by decide⟩
  rw [Bool.eq_false_iff, Ne]
  exact fun hcur => absurd ((hids 1 7 (by decide)).1 hcur) (by decide)

end Oms
