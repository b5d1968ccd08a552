import Oms.OrderManager.FailedSubmit
import Oms.OrderManager.World

/-!
# Requests that get an order to a venue

* `Sends`: the guards of `submit` let a request through, and its order goes to a venue's client;
* `Accepts`: the client takes the order;
* `submit_sends`: a submit that sends no order leaves the working orders alone;
* `Sends.placed`, `Sends.unwound`: what a sent order makes of the slots.
-/

namespace Oms

open OrderManager

section Sends

variable {W : Type}

/-- A submit gets as far as sending an order. -/
structure Sends (E : Env W) (s : State W) (req : OrderRequest) (venue : VenueId) (w : W)
    (ex : ExchangeClient W) (id : OrderIdRaw) (om' : OrderManager) : Prop where
  alive : s.om.killed = false
  selected : E.router.select req.instrument req.side req.size s.world = (some venue, w)
  found : E.registry.get venue = some ex
  free : s.om.pool.inUse < s.om.pool.capacity
  reserved : s.om.reserve req venue (E.clock w) = some (id, om')

/-- `submit` gets an order for the request to a venue, and the venue's client takes it. -/
def Accepts (E : Env W) (s : State W) (req : OrderRequest) : Prop :=
  ∃ venue w ex id om', Sends E s req venue w ex id om' ∧
    (ex.placeOrder (om'.orderRef id) w).1 = .Ok

variable {E : Env W} {s : State W} {req : OrderRequest} {venue : VenueId} {w : W}
  {ex : ExchangeClient W} {id : OrderIdRaw} {om' : OrderManager}

/-- A request is accepted exactly if the client takes its order. -/
theorem Sends.accepts_iff (h : Sends E s req venue w ex id om') :
    Accepts E s req ↔ (ex.placeOrder (om'.orderRef id) w).1 = .Ok := by
  refine ⟨?_, fun hok => ⟨venue, w, ex, id, om', h, hok⟩⟩
  rintro ⟨venue', w', ex', id', om'', h', hok⟩
  have hselected := h'.selected
  rw [h.selected] at hselected
  cases hselected
  have hfound := h'.found
  rw [h.found] at hfound
  cases hfound
  have hreserved := h'.reserved
  rw [h.reserved] at hreserved
  cases hreserved
  exact hok

/-- What is sent is placed. -/
theorem Sends.submit (h : Sends E s req venue w ex id om') :
    s.submit E req = State.place E req venue ex ⟨s.om, w⟩ := by
  rw [submit_routed h.alive h.selected h.found]
  exact if_neg (not_le.2 h.free)

/-- **A submit sends an order, or it leaves the working orders alone**, but for the marks of a
cancel. -/
theorem submit_sends {R : W → W → Prop} (h : E.Canceller R) (hwf : s.om.WF) (req : OrderRequest) :
    (∃ venue w ex id om', Sends E s req venue w ex id om') ∨
      ¬ Accepts E s req ∧ R s.world (s.submit E req).2.world ∧
        KeepsBooks s.om (s.submit E req).2.om := by
  have hnot (hguard : ∀ {venue w ex id om'}, ¬ Sends E s req venue w ex id om') :
      ¬ Accepts E s req := fun ⟨_, _, _, _, _, hsends, _⟩ => hguard hsends
  have hworld := h.select req.instrument req.side req.size s.world
  fun_cases State.submit E req s with
  | case1 hkilled =>
    refine Or.inr ⟨hnot fun hsends => ?_, h.log _ _ _, .refl _⟩
    rw [hsends.alive] at hkilled
    cases hkilled
  | case2 hon w hselect =>
    rw [hselect] at hworld
    refine Or.inr ⟨hnot fun hsends => ?_, ?_, ?_⟩
    · rw [hsends.selected] at hselect
      cases hselect
    · refine h.trans (h.trans hworld ?_) (cancelWorkingOrders_world h _)
      exact h.log _ _ _
    · refine KeepsBooks.trans ?_ (cancelWorkingOrders_keepsBooks _)
      exact .quiet s.om { s.om with rebalanceIncomplete := true }
  | case3 hon venue w hselect s' hget =>
    rw [hselect] at hworld
    refine Or.inr ⟨hnot fun hsends => ?_, h.trans hworld (h.log _ _ _), .refl _⟩
    rw [hsends.selected] at hselect
    cases hselect
    rw [hsends.found] at hget
    cases hget
  | case4 hon venue w hselect s' ex hget hfull =>
    rw [hselect] at hworld
    refine Or.inr ⟨hnot fun hsends => absurd hsends.free (not_lt.2 hfull), ?_, ?_⟩
    · exact h.trans hworld (tripKillSwitch_world h.toBystander _ s')
    · exact tripKillSwitch_keepsBooks (s := s') _
  | case5 hon venue w hselect s' ex hget hfree =>
    obtain ⟨id, om', hres⟩ := hwf.exists_reserve (not_le.1 hfree) req venue (E.clock w)
    exact Or.inl ⟨venue, w, ex, id, om', Bool.eq_false_of_not_eq_true hon, hselect, hget,
      not_le.1 hfree, hres⟩

/-! ### The slots after an order was sent -/

/-- A booked order is in a slot that was free. The other slots are as they were. -/
theorem reserved_slots {om : OrderManager} (hwf : om.WF) {now : Timestamp}
    (hres : om.reserve req venue now = some (id, om')) :
    om.pool.allocated (slotOf id) = false ∧ om'.pool.allocated (slotOf id) = true ∧
      om'.orderRef id = req.stamp id now {} ∧ ∀ slot, slot ≠ slotOf id →
        om'.pool.allocated slot = om.pool.allocated slot ∧
          om'.pool.slots slot = om.pool.slots slot := by
  obtain ⟨pool, hacq, -, rfl⟩ := hwf.reserve_cases hres
  have hempty := (OrderPool.acquire_slot hacq).2.1
  refine ⟨(hwf.pool.acquire_free hacq).2, (OrderPool.acquire_slot hacq).1, ?_, fun slot hslot => ?_⟩
  · rw [← hempty]
    exact OrderPool.modify_slots_self
  · obtain ⟨rest, -, rfl⟩ := OrderPool.acquire_cases hacq
    simp [OrderManager.booked, OrderPool.modify, hslot]

/-- The manager after a client took an order. -/
theorem Sends.placed (h : Sends E s req venue w ex id om') (haccepts : Accepts E s req) :
    (s.submit E req).2.om = om'.modifyOrder id (Order.markSent (E.clock w)) := by
  have hok := h.accepts_iff.1 haccepts
  rw [h.submit]
  unfold State.place
  dsimp only
  rw [h.reserved]
  dsimp only
  rw [if_pos hok]

/-- The working orders after a client turned an order down. -/
theorem Sends.unwound (h : Sends E s req venue w ex id om') (hwf : s.om.WF)
    (hrefused : ¬ Accepts E s req) (slot : ℕ) :
    ((s.submit E req).2.om.pool.Working slot ↔ s.om.pool.Working slot) ∧
      (s.om.pool.Working slot →
        (s.submit E req).2.om.pool.slots slot = s.om.pool.slots slot) := by
  have hno : ¬ (ex.placeOrder (om'.orderRef id) w).1 = .Ok := mt h.accepts_iff.2 hrefused
  rw [h.submit]
  unfold State.place
  dsimp only
  rw [h.reserved]
  dsimp only
  rw [if_neg hno]
  obtain ⟨pool, hacq, hid, rfl⟩ := hwf.reserve_cases h.reserved
  exact unwound_slots hwf hacq hid rfl slot

end Sends

end Oms
