import Oms.OrderManager.Slots

/-!
# Finished orders and the pool

An order that has ended keeps its slot until `retiredGrace` later ones have ended. The grace is a
constant of the source, whatever the capacity of the pool.

* `Retained`: which slots the orders that have ended occupy, kept by every turn;
* `Retained.inUse_eq`: when all orders have ended, the slots in use are those of the grace window;
* `submit_exhausts_iff`: a submit then finds the pool full exactly if the capacity is at most the
  grace and as many orders have been placed as the pool has slots.
-/

namespace Oms

open OrderManager Relation

/-- Every order ever placed has ended. -/
def AllEnded (om : OrderManager) : Prop := ∀ o ∈ om.pool.created, ¬ o.Open

/-- The kill switch was tripped by an exhausted pool. -/
def Exhausted (om : OrderManager) : Prop :=
  om.killed = true ∧ ∃ text, om.killReason = "ORDER_POOL_EXHAUSTED" ++ text

/-- Every order that has ended and keeps its slot is in the grace window, but for the orders of the
slots in `except`; and until the window is full, no slot was released. -/
structure Retained (om : OrderManager) (except : Finset ℕ := ∅) : Prop where
  grace : om.retiredGrace = 4096
  bound : om.retiredFifo.length ≤ om.retiredGrace
  ended : ∀ slot, om.pool.allocated slot = true → ¬ (om.pool.slots slot).Open →
    slot ∈ om.retiredFifo.map slotOf ∨ slot ∈ except
  counted : om.retiredFifo.length < om.retiredGrace →
    Multiset.card om.pool.created = om.pool.inUse

section Retained

variable {P : Policy} {om om' : OrderManager} {id : OrderIdRaw} {f : Order → Order}

theorem retained_init (capacity : PoolCapacity) : Retained (init capacity) where
  grace := rfl
  bound := Nat.zero_le _
  ended := fun slot h => by simp [init, OrderPool.init] at h
  counted := fun _ => by simp [init, OrderPool.init, OrderPool.created]

/-- A write creates no order. -/
theorem OrderPool.card_created_modify (p : OrderPool) (slot : ℕ) (f : Order → Order) :
    Multiset.card (p.modify slot f).created = Multiset.card p.created := by
  simp [OrderPool.created]

theorem Retained.frame (h : Retained om) (hpool : om'.pool = om.pool)
    (hfifo : om'.retiredFifo = om.retiredFifo) (hgrace : om'.retiredGrace = om.retiredGrace) :
    Retained om' where
  grace := hgrace.trans h.grace
  bound := by rw [hfifo, hgrace]; exact h.bound
  ended := by rw [hpool, hfifo]; exact h.ended
  counted := by rw [hfifo, hgrace, hpool]; exact h.counted

/-- A write leaves the other orders where they are. -/
theorem Retained.write {except : Finset ℕ} (h : Retained om except) (hexcept : except ⊆ {slotOf id})
    (hpool : om'.pool = om.pool.modify (slotOf id) f) (hfifo : om'.retiredFifo = om.retiredFifo)
    (hgrace : om'.retiredGrace = om.retiredGrace) : Retained om' {slotOf id} where
  grace := hgrace.trans h.grace
  bound := by rw [hfifo, hgrace]; exact h.bound
  ended := by
    intro slot halloc hended
    rw [hpool] at halloc hended
    rw [hfifo]
    by_cases hslot : slot = slotOf id
    · exact Or.inr (Finset.mem_singleton.2 hslot)
    · rw [OrderPool.modify_slots_of_ne hslot] at hended
      exact (h.ended slot halloc hended).imp_right fun hmem => hexcept hmem
  counted := by
    rw [hfifo, hgrace, hpool, OrderPool.card_created_modify]
    exact h.counted

/-- If the order written still works, none is missing from the window. -/
theorem Retained.of_open (h : Retained om {slotOf id}) (hopen : (om.orderRef id).Open) :
    Retained om := by
  refine ⟨h.grace, h.bound, fun slot halloc hended => ?_, h.counted⟩
  refine (h.ended slot halloc hended).imp_right fun hslot => ?_
  rw [Finset.mem_singleton] at hslot
  subst hslot
  exact absurd hopen hended

theorem expire_of_lt {old : OrderIdRaw} {rest : List OrderIdRaw}
    (hfifo : om.retiredFifo = old :: rest) (hcur : om.pool.isCurrent old = true)
    (hlt : om.retiredGrace < om.retiredFifo.length) : om.expire = om.releaseHead old rest := by
  unfold expire
  rw [if_pos hlt]
  split
  · next hnil => rw [hfifo] at hnil; cases hnil
  · next hcons =>
    rw [hfifo] at hcons
    cases hcons
    rw [if_pos hcur]
    rfl

/-- The grace window is enforced on a window with at most one entry too many. -/
theorem retained_expire (hgrace : om.retiredGrace = 4096)
    (hbound : om.retiredFifo.length ≤ om.retiredGrace + 1)
    (hcur : ∀ k ∈ om.retiredFifo, om.pool.isCurrent k = true)
    (hended : ∀ slot, om.pool.allocated slot = true → ¬ (om.pool.slots slot).Open →
      slot ∈ om.retiredFifo.map slotOf)
    (hcounted : om.retiredFifo.length < om.retiredGrace →
      Multiset.card om.pool.created = om.pool.inUse) : Retained om.expire := by
  by_cases hlt : om.retiredGrace < om.retiredFifo.length
  · cases hfifo : om.retiredFifo with
    | nil =>
      rw [hfifo] at hlt
      exact absurd hlt (Nat.not_lt_zero _)
    | cons old rest =>
      rw [expire_of_lt hfifo (hcur old (by simp [hfifo])) hlt]
      have hlen : rest.length + 1 = om.retiredFifo.length := by simp [hfifo]
      refine ⟨hgrace, ?_, fun slot halloc hopen => Or.inl ?_, fun hshort => ?_⟩
      · show rest.length ≤ om.retiredGrace
        omega
      · obtain ⟨hne, halloc'⟩ := OrderPool.allocated_of_release halloc
        have hmem := hended slot halloc' hopen
        rw [hfifo, List.map_cons] at hmem
        exact (List.mem_cons.1 hmem).resolve_left hne
      · change rest.length < om.retiredGrace at hshort
        omega
  · have hkeep : om.expire = om := if_neg hlt
    rw [hkeep]
    exact ⟨hgrace, not_lt.1 hlt, fun slot halloc hopen => Or.inl (hended slot halloc hopen),
      hcounted⟩

/-- The order joins the window, and the oldest one may leave it. -/
theorem Retained.retire (h : Retained om {slotOf id}) (hfifo : ∀ k ∈ om.retiredFifo,
      om.pool.isCurrent k = true) (hcur : om.pool.isCurrent id = true) (inst : InstrumentId)
    (rem : Quantity) (side : Side) : Retained (om.retire id inst rem side) := by
  have hlen : ((om.unbook inst rem side).shelve id).retiredFifo.length =
      om.retiredFifo.length + 1 := by
    simp [OrderManager.shelve, OrderManager.unbook]
  have hbound := h.bound
  refine retained_expire h.grace ?_ (fun k hk => ?_) (fun slot halloc hopen => ?_) fun hlt => ?_
  · rw [hlen]
    exact Nat.succ_le_succ hbound
  · rcases List.mem_append.1 hk with hk | hk
    · exact hfifo k hk
    · rw [List.mem_singleton.1 hk]
      exact hcur
  · have hmem := h.ended slot halloc hopen
    simp [OrderManager.shelve, OrderManager.unbook] at hmem ⊢
    exact hmem
  · rw [hlen] at hlt
    exact h.counted (Nat.lt_of_succ_lt hlt)

/-- A new order takes a slot and is not in the window. -/
theorem Retained.booked (h : Retained om) {req : OrderRequest} {venue : VenueId} {now : Timestamp}
    {pool : OrderPool} (hacq : om.pool.acquire = some (slotOf id, pool)) :
    Retained (om.booked req venue now id pool) {slotOf id} where
  grace := h.grace
  bound := h.bound
  ended := by
    intro slot halloc hended
    by_cases hslot : slot = slotOf id
    · exact Or.inr (Finset.mem_singleton.2 hslot)
    · obtain ⟨rest, -, rfl⟩ := OrderPool.acquire_cases hacq
      have hold := h.ended slot
      simp [OrderManager.booked, OrderPool.modify, hslot] at halloc hended hold ⊢
      exact hold halloc hended
  counted := by
    intro hlt
    have hcard := h.counted hlt
    show Multiset.card (pool.modify (slotOf id) (req.stamp id now)).created = pool.inUse
    rw [OrderPool.created_acquire_modify hacq, Multiset.card_cons, hcard]
    obtain ⟨rest, -, rfl⟩ := OrderPool.acquire_cases hacq
    rfl

/-- **Every turn** keeps the orders that have ended in the grace window. -/
theorem retained_turn (hwf : om.WF) (h : Retained om) (hturn : Turn P om om') : Retained om' := by
  have hempty : ∀ slots : Finset ℕ, ∅ ⊆ slots := Finset.empty_subset
  cases hturn with
  | quiet d => exact h.frame rfl rfl rfl
  | forgive id => exact h.frame rfl rfl rfl
  | @write id f hlive hf =>
    have hwritten : Retained (om.modifyOrder id f) {slotOf id} :=
      h.write (f := f) (hempty _) rfl rfl rfl
    refine hwritten.of_open ?_
    rw [orderRef_modifyOrder]
    exact hf.touch.stays_open _ hlive.isOpen
  | @fill id qty price trade ts hmoves haddr hok =>
    have hcur := (validate_fill_ok_iff.1 hok).1
    have hwritten : Retained (om.applyFill id qty price trade ts) {slotOf id} :=
      h.write (f := Order.addFill qty price ts) (hempty _) rfl rfl rfl
    rcases fill_cases om id qty price trade ts with ⟨hopen, heq⟩ | ⟨-, om₂, hom₂, heq⟩
    · rw [heq]
      refine hwritten.of_open ?_
      rw [applyFill_orderRef]
      exact hopen
    · rw [heq]
      rcases hom₂ with rfl | rfl
      · exact hwritten.retire hwf.fifo_current hcur _ _ _
      · have hexpected : Retained ((om.applyFill id qty price trade ts).expect id) {slotOf id} :=
          h.write (f := Order.addFill qty price ts) (hempty _) rfl rfl rfl
        exact hexpected.retire hwf.fifo_current hcur _ _ _
  | @close om' id f hmoves haddr hlive hf hwrite =>
    have hwritten : Retained om' {slotOf id} := by
      rw [hwrite]
      exact h.write (f := f) (hempty _) rfl rfl rfl
    refine hwritten.retire ?_ ?_ _ _ _
    all_goals rw [hwrite]
    · exact hwf.fifo_current
    · exact hlive.current
  | @place om' req venue now id hreq hres =>
    obtain ⟨pool, hacq, hid, rfl⟩ := hwf.reserve_cases hres
    have hwritten : Retained ((om.booked req venue now id pool).modifyOrder id (Order.markSent now))
        {slotOf id} :=
      (h.booked hacq).write (f := Order.markSent now) (Finset.Subset.refl _) rfl rfl rfl
    refine hwritten.of_open ?_
    rw [orderRef_modifyOrder]
    exact Order.markSent_open _ _
  | @unwind om₁ om' req venue now id hmoves hreq hres hwrite =>
    obtain ⟨pool, hacq, hid, rfl⟩ := hwf.reserve_cases hres
    have hwritten : Retained om' {slotOf id} := by
      rw [hwrite]
      exact (h.booked hacq).write (f := Order.failSend) (Finset.Subset.refl _) rfl rfl rfl
    have hwf' : (om.booked req venue now id pool).WF := hwf.booked hacq
    have hlive : (om.booked req venue now id pool).Live id := hwf.booked_live hacq hid
    refine hwritten.retire ?_ ?_ _ _ _
    all_goals rw [hwrite]
    · exact hwf'.fifo_current
    · exact hlive.current

end Retained

/-! ### When all orders have ended -/

section Ended

variable {W : Type} {E : Env W} {s : State W} {om : OrderManager}

/-- The slots in use are those of the grace window. -/
theorem Retained.inUse_eq (h : Retained om) (hwf : om.WF) (hended : AllEnded om) :
    om.pool.inUse = om.retiredFifo.length := by
  have hslots : (Finset.range om.pool.capacity).filter (fun slot => om.pool.allocated slot = true) =
      (om.retiredFifo.map slotOf).toFinset := by
    ext slot
    rw [Finset.mem_filter, Finset.mem_range, List.mem_toFinset]
    constructor
    · rintro ⟨-, halloc⟩
      simpa using h.ended slot halloc (hended _ (hwf.pool.slot_mem_created halloc))
    · intro hmem
      obtain ⟨id, hid, rfl⟩ := List.mem_map.1 hmem
      obtain ⟨hlt, halloc, -⟩ := OrderPool.isCurrent_iff.1 (hwf.fifo_current id hid)
      exact ⟨hlt, halloc⟩
  rw [hwf.pool.inUse_eq_card, hslots, List.toFinset_card_of_nodup hwf.fifo_nodup, List.length_map]

/-- No more slots are in use than orders were placed. -/
theorem OrderPool.WF.inUse_le_created {p : OrderPool} (h : p.WF) :
    p.inUse ≤ Multiset.card p.created := by
  rw [h.inUse_eq_card]
  calc _ ≤ p.history.used.card := Finset.card_le_card fun slot hslot =>
        h.used_of_allocated slot (Finset.mem_filter.1 hslot).2
    _ ≤ Multiset.card p.created := by simp [OrderPool.created]

/-- The pool is full of finished orders. -/
theorem Retained.full_iff (h : Retained om) (hwf : om.WF) (hended : AllEnded om) :
    om.pool.capacity ≤ om.pool.inUse ↔
      om.pool.capacity ≤ 4096 ∧ om.pool.capacity ≤ Multiset.card om.pool.created := by
  have hinUse := h.inUse_eq hwf hended
  have hle := hwf.pool.inUse_le_created
  have hbound := h.bound
  have hcounted := h.counted
  rw [h.grace] at hbound hcounted
  -- a window that is not full has released nothing yet, so every order is still in a slot
  by_cases hlt : om.retiredFifo.length < 4096
  · have hcard := hcounted hlt
    omega
  · omega

/-- Sending an order trips nothing. -/
theorem place_killed (req : OrderRequest) (venue : VenueId) (ex : ExchangeClient W) :
    (s.place E req venue ex).2.om.killed = s.om.killed := by
  unfold State.place
  dsimp only
  cases hres : s.om.reserve req venue (E.clock s.world) with
  | none => rfl
  | some r =>
    obtain ⟨id, om'⟩ := r
    have hkept : om'.killed = s.om.killed := by
      unfold OrderManager.reserve at hres
      split at hres
      · cases hres
      · cases hres
        rfl
    dsimp only
    split_ifs
    · exact hkept
    · unfold OrderManager.retire
      rw [expire_frame]
      exact hkept

/-- **When finished orders exhaust the pool.** In a reached state in which every order has ended and
the kill switch is off, a submit to a registered venue does not trip it for want of a slot exactly
if the capacity exceeds the grace window, or fewer orders than that were ever placed. -/
theorem submit_exhausts_iff (hs : Reached E {} s) (hended : AllEnded s.om)
    (hon : s.om.killed = false) {req : OrderRequest} {venue : VenueId} {w : W}
    {ex : ExchangeClient W}
    (hselect : E.router.select req.instrument req.side req.size s.world = (some venue, w))
    (hex : E.registry.get venue = some ex) : ¬ Exhausted (s.submit E req).2.om ↔
      4096 < s.om.pool.capacity ∨ Multiset.card s.om.pool.created < s.om.pool.capacity := by
  obtain ⟨hwf, hretained⟩ := hs.turn_invariant retained_init fun _ _ => retained_turn
  have hfull := hretained.full_iff hwf hended
  rw [submit_routed hon hselect hex]
  split_ifs with hle
  -- the pool is full of finished orders
  · refine iff_of_false (not_not.2 ?_) (by omega)
    have hnot : ¬ s.om.killed = true := by rw [hon]; exact Bool.false_ne_true
    rw [tripKillSwitch_om, OrderManager.tripKillSwitch, if_neg hnot]
    refine ⟨rfl, " in_use=" ++ toString s.om.pool.inUse ++ " capacity=" ++
      toString s.om.pool.capacity, ?_⟩
    have hsplit : "ORDER_POOL_EXHAUSTED in_use=" = "ORDER_POOL_EXHAUSTED" ++ " in_use=" := rfl
    show "ORDER_POOL_EXHAUSTED in_use=" ++ _ ++ " capacity=" ++ _ = _
    rw [hsplit]
    simp only [String.append_assoc]
  · refine iff_of_true (fun h => ?_) (by omega)
    have hkilled := h.1
    rw [place_killed, hon] at hkilled
    cases hkilled

end Ended

theorem allEnded_iff {om : OrderManager} : AllEnded om ↔
    (∀ o ∈ om.pool.history.recycled, ¬ o.Open) ∧
      ∀ slot ∈ om.pool.history.used, ¬ (om.pool.slots slot).Open := by
  simp only [AllEnded, OrderPool.mem_created, or_imp, forall_and, forall_exists_index, and_imp,
    forall_apply_eq_imp_iff₂]

/-- An order that the venue cancels. -/
def oneCancelled : List Op :=
  [.submit { instrument := 7, size := 10, price := 5 }, .unsolicitedCancel 1 0]

/-- One of two slots is kept for a finished order, and the next submit takes the other. -/
theorem submit_exhausts_cancelled :
    (acceptingRun oneCancelled).om.pool.inUse = 1 ∧
      ¬ Exhausted ((acceptingRun oneCancelled).submit acceptingEnv
        { instrument := 7, size := 10, price := 5 }).2.om := by
  have hreached : Reached acceptingEnv {} (acceptingRun oneCancelled) :=
    acceptingRun_reached trivial (fun _ _ => trivial) fun _ _ => trivial
  have hended : AllEnded (acceptingRun oneCancelled).om := allEnded_iff.2 ⟨by decide, by decide⟩
  exact ⟨by decide, (submit_exhausts_iff hreached hended rfl rfl rfl).2 (Or.inr (by decide))⟩

/-- Two orders, each cancelled by the venue before the next one is submitted. -/
def twoCancelled : List Op :=
  [.submit { instrument := 7, size := 10, price := 5 }, .unsolicitedCancel 1 0,
    .submit { instrument := 7, size := 10, price := 5 }, .unsolicitedCancel 65538 0]

/-- Two finished orders fill a pool of two slots. -/
theorem finished_orders_exhaust :
    Reached acceptingEnv {} (acceptingRun twoCancelled) ∧ AllEnded (acceptingRun twoCancelled).om ∧
      (acceptingRun twoCancelled).om.live = ∅ ∧ (acceptingRun twoCancelled).om.killed = false ∧
      Exhausted ((acceptingRun twoCancelled).submit acceptingEnv
        { instrument := 7, size := 10, price := 5 }).2.om := by
  refine ⟨acceptingRun_reached trivial (fun _ _ => trivial) fun _ _ => trivial,
    allEnded_iff.2 ⟨by decide, by decide⟩, by decide, by decide, by decide, ?_⟩
  exact ⟨" in_use=2 capacity=2", by decide⟩

end Oms
