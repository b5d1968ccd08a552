import Mathlib.Algebra.BigOperators.Group.Finset.Basic
import Oms.Foundation.MapSum
import Oms.Order

/-!
# The order pool

`OrderPool.h`, `OrderPool.cpp`: a fixed-capacity pool of order records with a free list and a
generation per slot. Releasing a slot bumps its generation, so an id minted for the previous
occupant is stale.

The vectors of the source are functions of the slot index; the slots of the pool are those below
`capacity`. `PoolHistory` is proof-only: it remembers what the pool forgets when a slot is handed
out again, and no modelled function reads it.

* `OrderPool.acquire`, `OrderPool.release`, `OrderPool.isCurrent`;
* `OrderPool.WF`: the free list is exactly the unallocated slots, without repetition.
-/

namespace Oms

/-- What happened to the slots of a pool so far (proof-only). -/
structure PoolHistory where
  /-- the slots that were acquired at least once -/
  used : Finset ℕ := ∅
  /-- the last record of every order whose slot was acquired again -/
  recycled : List Order := []
  /-- how often each slot was released -/
  releases : ℕ → ℕ := fun _ => 0

structure OrderPool where
  capacity : ℕ
  inUse : ℕ
  slots : ℕ → Order
  generation : ℕ → UInt16
  allocated : ℕ → Bool
  /-- the head of the list is the back of the source's vector -/
  freeList : List ℕ
  history : PoolHistory

/-- The capacities the constructor admits: it asserts that slots fit their 24-bit field. -/
abbrev PoolCapacity := {n : ℕ // 0 < n ∧ n ≤ kMaxSlots}

namespace OrderPool

/-- A fresh pool. Slots are pushed in descending order, so the first acquire hands out slot 0. -/
def init (capacity : PoolCapacity) : OrderPool where
  capacity := capacity.1
  inUse := 0
  slots := fun _ => {}
  generation := fun _ => 0
  allocated := fun _ => false
  freeList := List.range capacity.1
  history := {}

/-- Take the slot at the back of the free list and reset its record; `none` is the hard stop on an
exhausted pool. -/
def acquire (p : OrderPool) : Option (ℕ × OrderPool) :=
  match p.freeList with
  | [] => none
  | slot :: rest =>
    some (slot,
      { p with
        freeList := rest
        allocated := Function.update p.allocated slot true
        inUse := p.inUse + 1
        slots := Function.update p.slots slot {}
        history :=
          { p.history with
            used := insert slot p.history.used
            recycled :=
              if slot ∈ p.history.used then p.history.recycled ++ [p.slots slot]
              else p.history.recycled } })

/-- Return a slot to the free list and bump its generation. The source asserts that the slot is
allocated. -/
def release (p : OrderPool) (slot : ℕ) : OrderPool :=
  { p with
    allocated := Function.update p.allocated slot false
    generation := Function.update p.generation slot (p.generation slot + 1)
    inUse := p.inUse - 1
    freeList := slot :: p.freeList
    history :=
      { p.history with
        releases := Function.update p.history.releases slot (p.history.releases slot + 1) } }

def slotLive (p : OrderPool) (slot : ℕ) : Bool := slot < p.capacity && p.allocated slot

/-- A fresh event: the id points at a live slot whose generation still matches. -/
def isCurrent (p : OrderPool) (id : OrderIdRaw) : Bool :=
  let d := decodeOrderId id
  if p.capacity ≤ d.slot.toNat then false
  else if !p.allocated d.slot.toNat then false
  else p.generation d.slot.toNat == d.generation

/-- Write the record of a slot. -/
def modify (p : OrderPool) (slot : ℕ) (f : Order → Order) : OrderPool :=
  { p with slots := Function.update p.slots slot (f (p.slots slot)) }

variable {p : OrderPool} {slot i : ℕ} {f : Order → Order}

theorem isCurrent_iff {id : OrderIdRaw} :
    p.isCurrent id = true ↔ slotOf id < p.capacity ∧ p.allocated (slotOf id) = true ∧
      p.generation (slotOf id) = (decodeOrderId id).generation := by
  simp only [isCurrent, slotOf]
  split_ifs with h₁ h₂ <;> simp_all

section Modify

@[simp] theorem modify_capacity : (p.modify slot f).capacity = p.capacity := rfl
@[simp] theorem modify_inUse : (p.modify slot f).inUse = p.inUse := rfl
@[simp] theorem modify_generation : (p.modify slot f).generation = p.generation := rfl
@[simp] theorem modify_allocated : (p.modify slot f).allocated = p.allocated := rfl
@[simp] theorem modify_freeList : (p.modify slot f).freeList = p.freeList := rfl
@[simp] theorem modify_history : (p.modify slot f).history = p.history := rfl

@[simp] theorem modify_slots_self : (p.modify slot f).slots slot = f (p.slots slot) := by
  simp [modify]

theorem modify_slots_of_ne (h : i ≠ slot) : (p.modify slot f).slots i = p.slots i := by
  simp [modify, h]

@[simp] theorem isCurrent_modify (id : OrderIdRaw) :
    (p.modify slot f).isCurrent id = p.isCurrent id := rfl

end Modify

section Release

@[simp] theorem release_capacity : (p.release slot).capacity = p.capacity := rfl
@[simp] theorem release_slots : (p.release slot).slots = p.slots := rfl

@[simp] theorem release_allocated_self : (p.release slot).allocated slot = false := by
  simp [release]

theorem release_allocated_of_ne (h : i ≠ slot) :
    (p.release slot).allocated i = p.allocated i := by
  simp [release, h]

theorem release_generation_of_ne (h : i ≠ slot) :
    (p.release slot).generation i = p.generation i := by
  simp [release, h]

/-- Releasing a slot frees nothing else and allocates nothing. -/
theorem allocated_of_release (h : (p.release slot).allocated i = true) :
    i ≠ slot ∧ p.allocated i = true := by
  by_cases hi : i = slot
  · subst hi; simp at h
  · exact ⟨hi, by rwa [release_allocated_of_ne hi] at h⟩

theorem isCurrent_release {id : OrderIdRaw} (h : slotOf id ≠ slot) :
    (p.release slot).isCurrent id = p.isCurrent id := by
  rw [Bool.eq_iff_iff, isCurrent_iff, isCurrent_iff, release_allocated_of_ne h,
    release_generation_of_ne h]
  rfl

end Release

/-! ### Well-formed pools -/

/-- The free list is exactly the unallocated slots, without repetition; generations count releases
modulo their width. -/
structure WF (p : OrderPool) : Prop where
  capacity_le : p.capacity ≤ kMaxSlots
  allocated_lt : ∀ s, p.allocated s = true → s < p.capacity
  free_nodup : p.freeList.Nodup
  mem_free : ∀ s, s ∈ p.freeList ↔ s < p.capacity ∧ p.allocated s = false
  inUse_add : p.inUse + p.freeList.length = p.capacity
  used_of_allocated : ∀ s, p.allocated s = true → s ∈ p.history.used
  generation_eq : ∀ s, p.generation s = UInt16.ofNat (p.history.releases s)

theorem wf_init (capacity : PoolCapacity) : (init capacity).WF where
  capacity_le := capacity.2.2
  allocated_lt := fun s h => by simp [init] at h
  free_nodup := List.nodup_range
  mem_free := fun s => by simp [init]
  inUse_add := by simp [init]
  used_of_allocated := fun s h => by simp [init] at h
  generation_eq := fun s => rfl

theorem WF.modify (h : p.WF) (slot : ℕ) (f : Order → Order) : (p.modify slot f).WF :=
  ⟨h.capacity_le, h.allocated_lt, h.free_nodup, h.mem_free, h.inUse_add, h.used_of_allocated,
    h.generation_eq⟩

/-- A successful acquire takes the first free slot. -/
theorem acquire_cases {p' : OrderPool} (h : p.acquire = some (slot, p')) :
    ∃ rest, p.freeList = slot :: rest ∧
      p' = { p with
        freeList := rest
        allocated := Function.update p.allocated slot true
        inUse := p.inUse + 1
        slots := Function.update p.slots slot {}
        history :=
          { p.history with
            used := insert slot p.history.used
            recycled :=
              if slot ∈ p.history.used then p.history.recycled ++ [p.slots slot]
              else p.history.recycled } } := by
  unfold acquire at h
  split at h
  · cases h
  · rename_i s rest hfree
    cases h
    exact ⟨rest, hfree, rfl⟩

section Acquire

variable {p' : OrderPool} (hacq : p.acquire = some (slot, p'))
include hacq

/-- The acquired slot is allocated, and holds a fresh record. -/
theorem acquire_slot :
    p'.allocated slot = true ∧ p'.slots slot = {} ∧ slot ∈ p'.history.used := by
  obtain ⟨rest, -, rfl⟩ := acquire_cases hacq
  exact ⟨Function.update_self .., Function.update_self .., Finset.mem_insert_self _ _⟩

theorem WF.acquire_free (h : p.WF) : slot < p.capacity ∧ p.allocated slot = false := by
  obtain ⟨rest, hfree, -⟩ := acquire_cases hacq
  exact (h.mem_free slot).1 (by rw [hfree]; exact List.mem_cons_self)

theorem WF.acquire (h : p.WF) : p'.WF := by
  obtain ⟨hlt, -⟩ := h.acquire_free hacq
  obtain ⟨rest, hfree, rfl⟩ := acquire_cases hacq
  have hnodup := h.free_nodup
  have hinUse := h.inUse_add
  have hmem := h.mem_free
  rw [hfree] at hnodup hinUse hmem
  obtain ⟨hslot, hrest⟩ := List.nodup_cons.1 hnodup
  refine ⟨h.capacity_le, fun s hs => ?_, hrest, fun s => ?_, ?_, fun s hs => ?_, h.generation_eq⟩
  · by_cases hsl : s = slot
    · rwa [hsl]
    · exact h.allocated_lt s (by simpa [hsl] using hs)
  · by_cases hsl : s = slot
    · subst hsl; simp [hslot]
    · simpa [hsl] using hmem s
  · simp only [List.length_cons] at hinUse ⊢; omega
  · by_cases hsl : s = slot
    · simp [hsl]
    · exact Finset.mem_insert_of_mem (h.used_of_allocated s (by simpa [hsl] using hs))

end Acquire

/-- With fewer slots in use than the capacity, acquire does not hit the hard stop. -/
theorem WF.acquire_isSome (h : p.WF) (hlt : p.inUse < p.capacity) : p.acquire.isSome := by
  unfold OrderPool.acquire
  split
  · rename_i hfree
    have := h.inUse_add
    rw [hfree] at this
    simp at this
    omega
  · rfl

theorem WF.release (h : p.WF) (hs : p.allocated slot = true) : (p.release slot).WF := by
  have hfree : slot ∉ p.freeList := fun hmem => by simp [((h.mem_free slot).1 hmem).2] at hs
  -- an allocated slot is counted by `inUse`, so the counter does not wrap
  have hpos : 0 < p.inUse := by
    have hsub : slot :: p.freeList ⊆ List.range p.capacity := by
      intro s hmem
      rcases List.mem_cons.1 hmem with rfl | hmem
      · exact List.mem_range.2 (h.allocated_lt s hs)
      · exact List.mem_range.2 ((h.mem_free s).1 hmem).1
    have hlen := (List.subperm_of_subset (List.nodup_cons.2 ⟨hfree, h.free_nodup⟩) hsub).length_le
    have := h.inUse_add
    simp only [List.length_cons, List.length_range] at hlen
    omega
  refine ⟨h.capacity_le, fun s hal => ?_, List.nodup_cons.2 ⟨hfree, h.free_nodup⟩, fun s => ?_, ?_,
    fun s hal => ?_, fun s => ?_⟩
  · exact h.allocated_lt s (allocated_of_release hal).2
  · by_cases hsl : s = slot
    · subst hsl; simp [OrderPool.release, h.allocated_lt s hs]
    · simp [OrderPool.release, hsl, h.mem_free s]
  · have := h.inUse_add
    simp only [OrderPool.release, List.length_cons]
    omega
  · exact h.used_of_allocated s (allocated_of_release hal).2
  · by_cases hsl : s = slot
    · subst hsl
      simp [OrderPool.release, h.generation_eq s]
    · simp [OrderPool.release, hsl, h.generation_eq s]

end OrderPool

end Oms
