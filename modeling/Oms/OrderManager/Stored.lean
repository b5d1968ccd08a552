import Oms.OrderManager.Runs

/-!
# What is stored in the slots

* `SlotsKept`, `SlotWritten`: allocated slots hold what they held, all of them or all but one;
* `slotsKept_retire`, `slotWritten_fill`, `booked_slots`: what retiring, filling and booking do to
  them;
* `Stores`: a property of every stored order.
-/

namespace Oms

open OrderManager

section Slots

variable {om om₁ om' : OrderManager} {id : OrderIdRaw} {f : Order → Order}

/-- Allocated slots were allocated, and hold what they held. -/
def SlotsKept (om om' : OrderManager) : Prop :=
  ∀ slot, om'.pool.allocated slot = true →
    om.pool.allocated slot = true ∧ om'.pool.slots slot = om.pool.slots slot

/-- Allocated slots were allocated, and hold what they held, but for one that was written. -/
def SlotWritten (om om' : OrderManager) (id : OrderIdRaw) (f : Order → Order) : Prop :=
  ∀ slot, om'.pool.allocated slot = true → om.pool.allocated slot = true ∧
    om'.pool.slots slot =
      if slot = slotOf id then f (om.pool.slots slot) else om.pool.slots slot

theorem SlotsKept.of_pool (h : om'.pool = om.pool) : SlotsKept om om' := by
  intro slot halloc
  rw [h] at halloc ⊢
  exact ⟨halloc, rfl⟩

theorem SlotsKept.trans (h : SlotsKept om om₁) (h' : SlotsKept om₁ om') : SlotsKept om om' := by
  intro slot halloc
  obtain ⟨halloc₁, heq₁⟩ := h' slot halloc
  obtain ⟨hbefore, heq⟩ := h slot halloc₁
  exact ⟨hbefore, heq₁.trans heq⟩

theorem SlotWritten.of_pool (h : om'.pool = om.pool.modify (slotOf id) f) :
    SlotWritten om om' id f := by
  intro slot halloc
  rw [h] at halloc ⊢
  refine ⟨halloc, ?_⟩
  split_ifs with hslot
  · rw [hslot, OrderPool.modify_slots_self]
  · exact OrderPool.modify_slots_of_ne hslot

theorem SlotWritten.kept (h : SlotWritten om om₁ id f) (h' : SlotsKept om₁ om') :
    SlotWritten om om' id f := by
  intro slot halloc
  obtain ⟨halloc₁, heq⟩ := h' slot halloc
  rw [heq]
  exact h slot halloc₁

theorem slotsKept_retire (om : OrderManager) (id : OrderIdRaw) (inst : InstrumentId)
    (rem : Quantity) (side : Side) : SlotsKept om (om.retire id inst rem side) := by
  intro slot halloc
  rcases retire_pool om id inst rem side with hpool | ⟨released, hpool⟩
  · rw [hpool] at halloc ⊢
    exact ⟨halloc, rfl⟩
  · rw [hpool] at halloc ⊢
    exact ⟨(OrderPool.allocated_of_release halloc).2, rfl⟩

/-- A fill writes the order it fills. -/
theorem slotWritten_fill (om : OrderManager) (id : OrderIdRaw) (qty : Quantity) (price : Price)
    (trade : TradeId) (ts : Timestamp) :
    SlotWritten om (om.fill id qty price trade ts) id (Order.addFill qty price ts) := by
  have happly : SlotWritten om (om.applyFill id qty price trade ts) id
      (Order.addFill qty price ts) := .of_pool rfl
  rcases fill_cases om id qty price trade ts with ⟨-, heq⟩ | ⟨-, om₂, hom₂, heq⟩
  · rw [heq]
    exact happly
  · rw [heq]
    have hkept : SlotsKept (om.applyFill id qty price trade ts) om₂ := by
      rcases hom₂ with rfl | rfl
      · exact .of_pool rfl
      · exact .of_pool rfl
    exact (happly.kept hkept).kept (slotsKept_retire _ _ _ _ _)

/-- A booked slot was free. It holds the new order, with what is then written to it. -/
theorem booked_slots (hwf : om.WF) {req : OrderRequest} {venue : VenueId} {now : Timestamp}
    (hres : om.reserve req venue now = some (id, om₁))
    (hkept : SlotsKept (om₁.modifyOrder id f) om') (slot : ℕ)
    (halloc : om'.pool.allocated slot = true) :
    slot = slotOf id ∧ om.pool.allocated slot = false ∧
        om'.pool.slots slot = f (req.stamp id now {}) ∨
      slot ≠ slotOf id ∧ om.pool.allocated slot = true ∧
        om'.pool.slots slot = om.pool.slots slot := by
  obtain ⟨halloc₁, hsame⟩ := hkept slot halloc
  obtain ⟨pool, hacq, -, rfl⟩ := hwf.reserve_cases hres
  rw [hsame]
  by_cases hslot : slot = slotOf id
  · subst hslot
    refine Or.inl ⟨rfl, (hwf.pool.acquire_free hacq).2, ?_⟩
    rw [modifyOrder, OrderPool.modify_slots_self, ← (OrderPool.acquire_slot hacq).2.1]
    exact congrArg f OrderPool.modify_slots_self
  · obtain ⟨rest, -, rfl⟩ := OrderPool.acquire_cases hacq
    refine Or.inr ⟨hslot, ?_⟩
    simp [modifyOrder, OrderManager.booked, OrderPool.modify, hslot] at halloc₁ ⊢
    exact halloc₁

/-! ### Properties of every stored order -/

/-- Every stored order has a property. -/
def Stores (Q : Order → Prop) (om : OrderManager) : Prop :=
  ∀ slot, om.pool.allocated slot = true → Q (om.pool.slots slot)

variable {Q : Order → Prop}

theorem Stores.orderRef (h : Stores Q om) (hlive : om.Live id) : Q (om.orderRef id) :=
  h _ hlive.allocated

theorem Stores.kept (h : Stores Q om) (hkept : SlotsKept om om') : Stores Q om' := by
  intro slot halloc
  obtain ⟨hbefore, heq⟩ := hkept slot halloc
  rw [heq]
  exact h slot hbefore

theorem Stores.written (h : Stores Q om) (hwritten : SlotWritten om om' id f)
    (hf : Q (f (om.orderRef id))) : Stores Q om' := by
  intro slot halloc
  obtain ⟨hbefore, heq⟩ := hwritten slot halloc
  rw [heq]
  split_ifs with hslot
  · rw [hslot]
    exact hf
  · exact h slot hbefore

theorem Stores.booked (h : Stores Q om) (hwf : om.WF) {req : OrderRequest} {venue : VenueId}
    {now : Timestamp} (hres : om.reserve req venue now = some (id, om₁))
    (hkept : SlotsKept (om₁.modifyOrder id f) om') (hf : Q (f (req.stamp id now {}))) :
    Stores Q om' := by
  intro slot halloc
  rcases booked_slots hwf hres hkept slot halloc with ⟨-, -, heq⟩ | ⟨-, hbefore, heq⟩
  · rw [heq]
    exact hf
  · rw [heq]
    exact h slot hbefore

end Slots

end Oms
