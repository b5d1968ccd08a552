import Oms.OrderPool

/-!
# Sums over the orders of a pool

Two ways to add up a quantity over orders, and what the pool operations do to each.

* `OrderPool.openSum`: over the working orders, the allocated slots without a terminal status;
* `OrderPool.created`: every order ever created, those whose slot was handed out again with their
  last value, and `OrderPool.everSum` over them.
-/

namespace Oms

namespace OrderPool

variable {M : Type*} [AddCommGroup M] {p : OrderPool} {slot i : ℕ} {f : Order → Order}

/-! ### Working orders -/

/-- A slot holds a working order: it is allocated and its order has no terminal status. -/
def Working (p : OrderPool) (slot : ℕ) : Prop := p.allocated slot = true ∧ (p.slots slot).Open

instance (p : OrderPool) (slot : ℕ) : Decidable (p.Working slot) :=
  inferInstanceAs (Decidable (_ ∧ _))

/-- What a slot contributes to a sum over the working orders. -/
def openTerm (p : OrderPool) (ψ : Order → M) (slot : ℕ) : M :=
  if p.Working slot then ψ (p.slots slot) else 0

/-- The sum of `ψ` over the working orders. -/
def openSum (p : OrderPool) (ψ : Order → M) : M :=
  ∑ slot ∈ Finset.range p.capacity, p.openTerm ψ slot

variable (ψ : Order → M)

theorem openTerm_of_working (h : p.Working slot) : p.openTerm ψ slot = ψ (p.slots slot) :=
  if_pos h

theorem openTerm_of_not_working (h : ¬ p.Working slot) : p.openTerm ψ slot = 0 := if_neg h

/-- A slot that stays working with the same record contributes the same. -/
theorem openTerm_congr {p' : OrderPool} (hw : p'.Working i ↔ p.Working i)
    (hs : p.Working i → p'.slots i = p.slots i) : p'.openTerm ψ i = p.openTerm ψ i := by
  by_cases h : p.Working i
  · rw [openTerm_of_working ψ (hw.2 h), openTerm_of_working ψ h, hs h]
  · rw [openTerm_of_not_working ψ (mt hw.1 h), openTerm_of_not_working ψ h]

theorem openSum_init (capacity : PoolCapacity) : (init capacity).openSum ψ = 0 := by
  refine Finset.sum_eq_zero fun s _ => openTerm_of_not_working ψ ?_
  simp [Working, init]

theorem openSum_congr {p' : OrderPool} (hcap : p'.capacity = p.capacity)
    (h : ∀ s, p'.openTerm ψ s = p.openTerm ψ s) : p'.openSum ψ = p.openSum ψ := by
  rw [openSum, openSum, hcap]
  exact Finset.sum_congr rfl fun s _ => h s

theorem working_modify_of_ne (h : i ≠ slot) : (p.modify slot f).Working i ↔ p.Working i := by
  rw [Working, Working, modify_allocated, modify_slots_of_ne h]

theorem openTerm_modify_of_ne (h : i ≠ slot) :
    (p.modify slot f).openTerm ψ i = p.openTerm ψ i :=
  openTerm_congr ψ (working_modify_of_ne h) fun _ => modify_slots_of_ne h

/-- Writing one record changes the sum by what that slot contributes. -/
theorem WF.openSum_modify (h : p.WF) (ha : p.allocated slot = true) :
    (p.modify slot f).openSum ψ =
      p.openSum ψ - p.openTerm ψ slot + (p.modify slot f).openTerm ψ slot :=
  Finset.sum_range_update (h.allocated_lt slot ha) fun _ hj => openTerm_modify_of_ne ψ hj

/-- Releasing the slot of a terminal order removes no working order. -/
theorem openSum_release (h : ¬ (p.slots slot).Open) :
    (p.release slot).openSum ψ = p.openSum ψ := by
  refine openSum_congr ψ rfl fun s => ?_
  by_cases hs : s = slot
  · subst hs
    rw [openTerm_of_not_working, openTerm_of_not_working] <;> exact fun hw => h hw.2
  · refine openTerm_congr ψ ?_ fun _ => rfl
    rw [Working, Working, release_allocated_of_ne hs, release_slots]

/-- A slot just acquired holds a fresh working order. -/
theorem WF.openSum_acquire {p' : OrderPool} (h : p.WF) (hacq : p.acquire = some (slot, p')) :
    p'.openSum ψ = p.openSum ψ + ψ {} := by
  obtain ⟨hlt, hfree⟩ := h.acquire_free hacq
  obtain ⟨rest, -, rfl⟩ := acquire_cases hacq
  rw [openSum, Finset.sum_range_update (f := p.openTerm ψ) hlt, ← openSum,
    openTerm_of_not_working (p := p), openTerm_of_working, sub_zero]
  · simp
  · simp [Working, Order.Open, isTerminal]
  · simp [Working, hfree]
  · intro j hj
    exact openTerm_congr ψ (by simp [Working, hj]) fun _ => by simp [hj]

/-- A slot acquired and then written contributes what was written. -/
theorem WF.openSum_acquire_modify {p' : OrderPool} (h : p.WF) (hacq : p.acquire = some (slot, p'))
    (hopen : (f {}).Open) : (p'.modify slot f).openSum ψ = p.openSum ψ + ψ (f {}) := by
  obtain ⟨halloc, hslot, -⟩ := acquire_slot hacq
  have hfresh : p'.openTerm ψ slot = ψ {} := by
    rw [openTerm_of_working ψ ⟨halloc, hslot ▸ rfl⟩, hslot]
  have hrecord : (p'.modify slot f).slots slot = f {} := by rw [modify_slots_self, hslot]
  have hworking : (p'.modify slot f).Working slot := by
    refine ⟨halloc, ?_⟩
    rw [hrecord]
    exact hopen
  have hnew : (p'.modify slot f).openTerm ψ slot = ψ (f {}) := by
    rw [openTerm_of_working ψ hworking, hrecord]
  rw [(h.acquire hacq).openSum_modify ψ halloc, h.openSum_acquire ψ hacq, hfresh, hnew,
    add_sub_cancel_right]

/-! ### Every order ever created -/

/-- Every order ever created: the last records of the orders whose slot was handed out again, and
the current records of the slots that were ever used. -/
def created (p : OrderPool) : Multiset Order :=
  (p.history.recycled : Multiset Order) + p.history.used.val.map p.slots

/-- The sum of `φ` over every order ever created. -/
def everSum (p : OrderPool) (φ : Order → M) : M := (p.created.map φ).sum

variable (φ : Order → M)

theorem everSum_init (capacity : PoolCapacity) : (init capacity).everSum φ = 0 := by
  simp [everSum, created, init]

@[simp] theorem created_release : (p.release slot).created = p.created := rfl

theorem mem_created {o : Order} :
    o ∈ p.created ↔ o ∈ p.history.recycled ∨ ∃ s ∈ p.history.used, p.slots s = o := by
  simp [created]

/-- The order of an allocated slot has been created. -/
theorem WF.slot_mem_created (h : p.WF) (ha : p.allocated slot = true) :
    p.slots slot ∈ p.created :=
  mem_created.2 (Or.inr ⟨slot, h.used_of_allocated slot ha, rfl⟩)

/-- Acquiring a slot and writing it creates one order and forgets none. -/
theorem created_acquire_modify {p' : OrderPool} (hacq : p.acquire = some (slot, p'))
    (f : Order → Order) : (p'.modify slot f).created = f {} ::ₘ p.created := by
  obtain ⟨rest, -, rfl⟩ := acquire_cases hacq
  have hslots : Function.update (Function.update p.slots slot {}) slot
      (f (Function.update p.slots slot {} slot)) = Function.update p.slots slot (f {}) := by
    rw [Function.update_idem, Function.update_self]
  have hother : ∀ s ∈ p.history.used.erase slot,
      Function.update p.slots slot (f {}) s = p.slots s := fun s hs => by
    simp [Finset.ne_of_mem_erase hs]
  have hused : (insert slot p.history.used).val.map (Function.update p.slots slot (f {})) =
      f {} ::ₘ (p.history.used.erase slot).val.map p.slots := by
    rw [← Finset.insert_erase (Finset.mem_insert_self slot _), Finset.erase_insert_eq_erase,
      Finset.insert_val_of_notMem (Finset.notMem_erase _ _), Multiset.map_cons,
      Function.update_self]
    congr 1
    exact Multiset.map_congr rfl hother
  simp only [created, modify, hslots, hused]
  by_cases hslot : slot ∈ p.history.used
  · have hsplit : p.history.used.val.map p.slots =
        p.slots slot ::ₘ (p.history.used.erase slot).val.map p.slots := by
      rw [← Multiset.map_cons, ← Finset.insert_val_of_notMem (Finset.notMem_erase _ _),
        Finset.insert_erase hslot]
    rw [if_pos hslot, hsplit, ← Multiset.coe_add, Multiset.coe_singleton]
    simp only [← Multiset.singleton_add]
    abel
  · rw [if_neg hslot, Finset.erase_eq_of_notMem hslot, Multiset.add_cons]

/-- A slot acquired and then written adds what was written. -/
theorem everSum_acquire_modify {p' : OrderPool} (hacq : p.acquire = some (slot, p')) :
    (p'.modify slot f).everSum φ = p.everSum φ + φ (f {}) := by
  rw [everSum, created_acquire_modify hacq, Multiset.map_cons, Multiset.sum_cons, add_comm, everSum]

/-- Writing the record of a used slot changes the sum by the difference of the two records. -/
theorem everSum_modify (h : slot ∈ p.history.used) :
    (p.modify slot f).everSum φ =
      p.everSum φ - φ (p.slots slot) + φ (f (p.slots slot)) := by
  have hrec : ∀ q : OrderPool, q.history = p.history → q.everSum φ =
      (p.history.recycled.map φ).sum +
        ((∑ s ∈ p.history.used.erase slot, φ (q.slots s)) + φ (q.slots slot)) := by
    intro q hq
    rw [everSum, created, hq, Multiset.map_add, Multiset.sum_add, Multiset.map_coe,
      Multiset.sum_coe, Multiset.map_map, Finset.sum_erase_add _ _ h]
    rfl
  rw [hrec (p.modify slot f) rfl, hrec p rfl, modify_slots_self]
  have hsum : ∑ s ∈ p.history.used.erase slot, φ ((p.modify slot f).slots s) =
      ∑ s ∈ p.history.used.erase slot, φ (p.slots s) :=
    Finset.sum_congr rfl fun s hs => by rw [modify_slots_of_ne (Finset.ne_of_mem_erase hs)]
  rw [hsum]
  abel

/-- A summand that vanishes outside `q` is summed over the orders with `q` only. -/
theorem everSum_ite (q : Order → Prop) [DecidablePred q] :
    p.everSum (fun o => if q o then φ o else 0) = ((p.created.filter q).map φ).sum := by
  rw [everSum]
  induction p.created using Multiset.induction_on with
  | empty => rfl
  | cons o s ih =>
    rw [Multiset.map_cons, Multiset.sum_cons, ih]
    by_cases h : q o
    · rw [if_pos h, Multiset.filter_cons_of_pos _ h, Multiset.map_cons, Multiset.sum_cons]
    · rw [if_neg h, Multiset.filter_cons_of_neg _ h, zero_add]

/-- Every order created so far satisfies what the written record and the old orders satisfy. -/
theorem forall_created_modify {P : Order → Prop} (h : ∀ o ∈ p.created, P o)
    (hf : slot ∈ p.history.used → P (f (p.slots slot))) :
    ∀ o ∈ (p.modify slot f).created, P o := by
  intro o ho
  rcases mem_created.1 ho with hrec | ⟨s, hs, rfl⟩
  · exact h o (mem_created.2 (Or.inl hrec))
  · by_cases hsl : s = slot
    · subst hsl
      rw [modify_slots_self]
      exact hf hs
    · rw [modify_slots_of_ne hsl]
      exact h _ (mem_created.2 (Or.inr ⟨s, hs, rfl⟩))

end OrderPool

end Oms
