import Oms.OrderManager.Issued
import Oms.OrderManager.View

/-!
# The life of a slot

The pool, the live index, the grace window, the trade ids and the expected cancel-rejects describe
the same orders, and are updated one after the other.

* `Tidy`: how they fit together between two turns; `TidyBut`: while one order is on its way from the
  live index to the grace window;
* `Tidy.close`, `TidyBut.retire`, `Tidy.booked`: what the operations do to them;
* `slot_lifecycle`: as long as events carry minted ids and no generation comes round, every slot in
  use belongs to one order, and is counted once.
-/

namespace Oms

open OrderManager Relation

/-- Every event carries the id of the order it reaches. -/
def own : Policy := { addresses := fun internalId id => internalId = id }

/-! ### The containers -/

/-- The live index holds the working orders, and the grace window those that have ended. -/
structure Tidy (om : OrderManager) : Prop where
  live_iff : ∀ k, k ∈ om.live ↔ om.Works k
  fifo_own : ∀ k ∈ om.retiredFifo, (om.orderRef k).internalId = k
  ended : ∀ slot, om.pool.allocated slot = true → ¬ (om.pool.slots slot).Open →
    (om.pool.slots slot).internalId ∈ om.retiredFifo
  trades : ∀ k ∈ om.tradeIds, k ∈ om.live
  expected : ∀ k ∈ om.expectedFalseCancelRejects, k ∈ om.retiredFifo

/-- The order of `id` has ended, and is still in the live index. -/
structure TidyBut (om : OrderManager) (id : OrderIdRaw) : Prop where
  ended_own : om.Ended id
  own : (om.orderRef id).internalId = id
  live_iff : ∀ k, k ∈ om.live ↔ om.Works k ∨ k = id
  fifo_own : ∀ k ∈ om.retiredFifo, (om.orderRef k).internalId = k
  ended : ∀ slot, om.pool.allocated slot = true → ¬ (om.pool.slots slot).Open →
    (om.pool.slots slot).internalId ∈ om.retiredFifo ∨ slot = slotOf id
  trades : ∀ k ∈ om.tradeIds, k ∈ om.live
  expected : ∀ k ∈ om.expectedFalseCancelRejects, k ∈ om.retiredFifo ∨ k = id

section Containers

variable {P : Policy} {om om' : OrderManager} {id k : OrderIdRaw} {f : Order → Order}

theorem tidy_init (capacity : PoolCapacity) : Tidy (init capacity) where
  live_iff := fun k => iff_of_false (Finset.notMem_empty k) (not_works_init capacity k)
  fifo_own := nofun
  ended := nofun
  trades := fun _ h => absurd h Finmap.notMem_empty
  expected := fun k h => absurd h (Finset.notMem_empty k)

/-- What a write to the slot of `id` does to the order found under an id. -/
theorem orderRef_write (hpool : om'.pool = om.pool.modify (slotOf id) f) (k : OrderIdRaw) :
    om'.orderRef k = if slotOf k = slotOf id then f (om.orderRef id) else om.orderRef k := by
  split_ifs with hslot
  · rw [orderRef, hpool, hslot, OrderPool.modify_slots_self]
    rfl
  · rw [orderRef, hpool, OrderPool.modify_slots_of_ne hslot]
    rfl

theorem isCurrent_write (hpool : om'.pool = om.pool.modify (slotOf id) f) (k : OrderIdRaw) :
    om'.pool.isCurrent k = om.pool.isCurrent k := by
  rw [hpool, OrderPool.isCurrent_modify]

/-- An order in the grace window is not in the slot of a working one. -/
theorem OrderManager.WF.slot_ne (hwf : om.WF) (hlive : om.Live id) (hk : k ∈ om.retiredFifo) :
    slotOf k ≠ slotOf id :=
  fun heq => hwf.notMem_fifo hlive.isOpen (heq ▸ List.mem_map_of_mem hk)

theorem works_of_pool (hpool : om'.pool = om.pool) : om'.Works k ↔ om.Works k := by
  rw [works_iff, works_iff, orderRef, orderRef, hpool]

/-- A turn that leaves the pool and the two indices alone, and adds to no other container. -/
theorem Tidy.frame (h : Tidy om) (hpool : om'.pool = om.pool) (hindex : om'.live = om.live)
    (hfifo : om'.retiredFifo = om.retiredFifo) (htrades : om'.tradeIds = om.tradeIds)
    (hexpected : om'.expectedFalseCancelRejects ⊆ om.expectedFalseCancelRejects) : Tidy om' where
  live_iff := fun k => by rw [hindex, works_of_pool hpool, h.live_iff]
  fifo_own := by
    intro k
    rw [hfifo, orderRef, hpool]
    exact h.fifo_own k
  ended := by
    rw [hpool, hfifo]
    exact h.ended
  trades := by
    rw [htrades, hindex]
    exact h.trades
  expected := by
    rw [hfifo]
    exact fun k hk => h.expected k (hexpected hk)

section Write

variable (h : Tidy om) (hwf : om.WF) (hlive : om.Live id)
  (hpool : om'.pool = om.pool.modify (slotOf id) f)
  (hid : ∀ o : Order, (f o).internalId = o.internalId) (hindex : om'.live = om.live)
  (hfifo : om'.retiredFifo = om.retiredFifo)
include h hwf hlive hpool hid hindex hfifo

omit hid hindex in
/-- The orders in the grace window are not written. -/
theorem Tidy.fifo_own_write : ∀ k ∈ om'.retiredFifo, (om'.orderRef k).internalId = k := by
  intro k hk
  rw [hfifo] at hk
  rw [orderRef_write hpool, if_neg (hwf.slot_ne hlive hk)]
  exact h.fifo_own k hk

/-- A write that leaves the order working. -/
theorem Tidy.write (hopen : (f (om.orderRef id)).Open)
    (htrades : ∀ k ∈ om'.tradeIds, k ∈ om.tradeIds ∨ k ∈ om.live)
    (hexpected : om'.expectedFalseCancelRejects = om.expectedFalseCancelRejects) : Tidy om' where
  live_iff := by
    intro k
    rw [hindex, h.live_iff, works_iff, works_iff, isCurrent_write hpool, orderRef_write hpool]
    split_ifs with hslot
    · have href : om.orderRef k = om.orderRef id := congrArg om.pool.slots hslot
      rw [href, hid]
      exact and_congr_right fun _ => and_congr_left fun _ => iff_of_true hlive.isOpen hopen
    · rfl
  fifo_own := h.fifo_own_write hwf hlive hpool hfifo
  ended := by
    intro slot halloc hended
    rw [hfifo]
    rw [hpool] at halloc hended ⊢
    by_cases hslot : slot = slotOf id
    · subst hslot
      rw [OrderPool.modify_slots_self] at hended
      exact absurd hopen hended
    · rw [OrderPool.modify_slots_of_ne hslot] at hended ⊢
      exact h.ended slot halloc hended
  trades := by
    intro k hk
    rw [hindex]
    exact (htrades k hk).elim (h.trades k) fun hk => hk
  expected := by
    rw [hexpected, hfifo]
    exact h.expected

/-- A write that ends the order of its own id. -/
theorem Tidy.close (hown : (om.orderRef id).internalId = id)
    (hended : ¬ (f (om.orderRef id)).Open)
    (htrades : ∀ k ∈ om'.tradeIds, k ∈ om.tradeIds ∨ k ∈ om.live)
    (hexpected : ∀ k ∈ om'.expectedFalseCancelRejects,
      k ∈ om.expectedFalseCancelRejects ∨ k = id) : TidyBut om' id where
  ended_own := by
    refine ⟨?_, ?_, ?_⟩
    · rw [isCurrent_write hpool]
      exact hlive.current
    · rw [orderRef_write hpool, if_pos rfl]
      exact hended
    · rw [hfifo]
      exact hwf.notMem_fifo hlive.isOpen
  own := by
    rw [orderRef_write hpool, if_pos rfl, hid, hown]
  live_iff := by
    intro k
    rw [hindex, h.live_iff, works_iff, works_iff, isCurrent_write hpool, orderRef_write hpool]
    by_cases hslot : slotOf k = slotOf id
    · have href : om.orderRef k = om.orderRef id := congrArg om.pool.slots hslot
      rw [if_pos hslot, href, hown]
      constructor
      · exact fun hw => Or.inr hw.2.2.symm
      · rintro (hw | rfl)
        · exact absurd hw.2.1 hended
        · exact ⟨hlive.current, hlive.isOpen, rfl⟩
    · rw [if_neg hslot]
      exact (or_iff_left fun heq : k = id => hslot (congrArg slotOf heq)).symm
  fifo_own := h.fifo_own_write hwf hlive hpool hfifo
  ended := by
    intro slot halloc hopen
    rw [hfifo]
    rw [hpool] at halloc hopen ⊢
    by_cases hslot : slot = slotOf id
    · exact Or.inr hslot
    · rw [OrderPool.modify_slots_of_ne hslot] at hopen ⊢
      exact Or.inl (h.ended slot halloc hopen)
  trades := by
    intro k hk
    rw [hindex]
    exact (htrades k hk).elim (h.trades k) fun hk => hk
  expected := by
    intro k hk
    rw [hfifo]
    exact (hexpected k hk).imp_left (h.expected k)

end Write

/-! ### Retiring -/

/-- The order joins the grace window. -/
theorem TidyBut.shelve (h : TidyBut om id) : Tidy (om.shelve id) where
  live_iff := by
    intro k
    show k ∈ om.live.erase id ↔ _
    rw [Finset.mem_erase, h.live_iff]
    have hnot : ¬ om.Works id := fun hw => h.ended_own.not_open hw.live.isOpen
    constructor
    · rintro ⟨hne, hw | heq⟩
      · exact ⟨⟨hw.live.current, hw.live.isOpen⟩, hw.own⟩
      · exact absurd heq hne
    · intro hw
      have hw' : om.Works k := ⟨⟨hw.live.current, hw.live.isOpen⟩, hw.own⟩
      exact ⟨fun heq => hnot (heq ▸ hw'), Or.inl hw'⟩
  fifo_own := by
    intro k hk
    rcases List.mem_append.1 hk with hk | hk
    · exact h.fifo_own k hk
    · rw [List.mem_singleton.1 hk]
      exact h.own
  ended := by
    intro slot halloc hopen
    rcases h.ended slot halloc hopen with hmem | rfl
    · exact List.mem_append_left _ hmem
    · refine List.mem_append_right _ (List.mem_singleton.2 ?_)
      exact h.own
  trades := by
    intro k hk
    rw [OrderManager.shelve, Finmap.mem_erase] at hk
    exact Finset.mem_erase.2 ⟨hk.1, h.trades k hk.2⟩
  expected := by
    intro k hk
    rcases h.expected k hk with hmem | rfl
    · exact List.mem_append_left _ hmem
    · exact List.mem_append_right _ (List.mem_singleton.2 rfl)

/-- Freeing the head of the grace window. -/
theorem Tidy.releaseHead (h : Tidy om) (hwf : om.WF) (hstamped : Stamped om) {old : OrderIdRaw}
    {rest : List OrderIdRaw} (hfifo : om.retiredFifo = old :: rest) :
    Tidy (om.releaseHead old rest) := by
  have hmem : ∀ {k}, k ∈ rest → k ∈ om.retiredFifo := fun hk => by
    rw [hfifo]
    exact List.mem_cons_of_mem _ hk
  have hold : old ∈ om.retiredFifo := by
    rw [hfifo]
    exact List.mem_cons_self
  have hcons : ∀ {k}, k ∈ om.retiredFifo → k = old ∨ k ∈ rest := fun hk => by
    rw [hfifo] at hk
    exact List.mem_cons.1 hk
  constructor
  case live_iff =>
    intro k
    have hslot : om.Works k → slotOf k ≠ slotOf old := fun hw heq =>
      hwf.slot_ne hw.live hold heq.symm
    refine (h.live_iff k).trans ?_
    rw [works_iff, works_iff]
    constructor
    · intro hw
      have hne := hslot (works_iff.2 hw)
      exact ⟨(OrderPool.isCurrent_release hne).trans hw.1, hw.2⟩
    · intro hw
      have hne : slotOf k ≠ slotOf old :=
        (OrderPool.allocated_of_release (OrderPool.isCurrent_iff.1 hw.1).2.1).1
      exact ⟨(OrderPool.isCurrent_release hne).symm.trans hw.1, hw.2⟩
  case fifo_own => exact fun k hk => h.fifo_own k (hmem hk)
  case ended =>
    intro slot halloc hopen
    obtain ⟨hne, halloc'⟩ := OrderPool.allocated_of_release halloc
    refine (hcons (h.ended slot halloc' hopen)).resolve_left fun heq => hne ?_
    rw [← heq]
    exact (hstamped slot halloc').1.symm
  case trades => exact h.trades
  case expected =>
    intro k hk
    obtain ⟨hne, hk⟩ := Finset.mem_erase.1 hk
    exact (hcons (h.expected k hk)).resolve_left hne

/-- The grace window is enforced. -/
theorem Tidy.expire (h : Tidy om) (hwf : om.WF) (hstamped : Stamped om) : Tidy om.expire := by
  rcases expire_cases hwf with heq | ⟨old, rest, hfifo, heq⟩
  · rw [heq]
    exact h
  · rw [heq]
    exact h.releaseHead hwf hstamped hfifo

/-- Retiring an order that has ended. -/
theorem TidyBut.retire (h : TidyBut om id) (hwf : om.WF) (hstamped : Stamped om)
    (inst : InstrumentId) (rem : Quantity) (side : Side) :
    Tidy (om.retire id inst rem side) := by
  have hunbook : TidyBut (om.unbook inst rem side) id :=
    ⟨⟨h.ended_own.current, h.ended_own.not_open, h.ended_own.notMem⟩, h.own, fun k => by
      rw [works_iff]
      exact (h.live_iff k).trans (or_congr_left works_iff), h.fifo_own, h.ended, h.trades,
      h.expected⟩
  have hwf' : (om.unbook inst rem side).WF :=
    ⟨hwf.pool, hwf.fifo_nodup, hwf.fifo_current, hwf.fifo_not_open⟩
  have hshelve : Change {} (om.unbook inst rem side) ((om.unbook inst rem side).shelve id) :=
    .shelve hunbook.ended_own
  exact hunbook.shelve.expire (hshelve.wf hwf') hstamped

/-- The grace window holds no more orders than it may. -/
theorem length_expire (h : om.retiredFifo.length ≤ om.retiredGrace + 1) :
    om.expire.retiredFifo.length ≤ om.expire.retiredGrace := by
  unfold OrderManager.expire
  split_ifs with hlt
  · split
    · rename_i hnil
      rw [hnil]
      exact Nat.zero_le _
    · rename_i old rest hfifo
      rw [hfifo, List.length_cons] at h
      exact Nat.le_of_succ_le_succ h
  · exact not_lt.1 hlt

/-! ### New orders -/

/-- A new order works, in a slot that held none. -/
theorem Tidy.booked (h : Tidy om) (hwf : om.WF) {req : OrderRequest} {venue : VenueId}
    {now : Timestamp} {pool : OrderPool} {seq : UInt16}
    (hacq : om.pool.acquire = some (slotOf id, pool))
    (hid : id = encodeOrderId venue (om.pool.generation (slotOf id)) (UInt32.ofNat (slotOf id))
      seq) : Tidy (om.booked req venue now id pool) := by
  have hlive : (om.booked req venue now id pool).Live id := hwf.booked_live hacq hid
  have hown : ((om.booked req venue now id pool).orderRef id).internalId = id := by
    rw [booked_orderRef]
    rfl
  have hfree := (hwf.pool.acquire_free hacq).2
  obtain ⟨rest, -, rfl⟩ := OrderPool.acquire_cases hacq
  constructor
  case live_iff =>
    intro k
    show k ∈ insert id om.live ↔ _
    rw [Finset.mem_insert, h.live_iff]
    by_cases hslot : slotOf k = slotOf id
    · -- the slot was free, and holds the new order now
      have hnot : ¬ om.Works k := fun hw => by
        have halloc := hw.live.allocated
        rw [hslot, hfree] at halloc
        cases halloc
      rw [or_iff_left hnot]
      constructor
      · rintro rfl
        exact ⟨hlive, hown⟩
      · intro hw
        rw [hw.eq_of_slot hslot, hown]
    · have hne : k ≠ id := fun heq => hslot (congrArg slotOf heq)
      rw [or_iff_right hne, works_iff, works_iff, OrderPool.isCurrent_iff, OrderPool.isCurrent_iff]
      simp [OrderManager.booked, orderRef, OrderPool.modify, hslot]
  case fifo_own =>
    intro k hk
    have hslot : slotOf k ≠ slotOf id := fun heq => by
      have halloc := (OrderPool.isCurrent_iff.1 (hwf.fifo_current k hk)).2.1
      rw [heq, hfree] at halloc
      cases halloc
    have hkept := h.fifo_own k hk
    simpa [OrderManager.booked, orderRef, OrderPool.modify, hslot] using hkept
  case ended =>
    intro slot halloc hopen
    by_cases hslot : slot = slotOf id
    · subst hslot
      exact absurd hlive.isOpen hopen
    · have hended := h.ended slot
      simp [OrderManager.booked, OrderPool.modify, hslot] at halloc hopen ⊢
      exact hended halloc hopen
  case trades => exact fun k hk => Finset.mem_insert_of_mem (h.trades k hk)
  case expected => exact h.expected

/-! ### Turns -/

/-- What a fill adds to the trade ids. -/
theorem trades_applyFill {qty : Quantity} {price : Price} {trade : TradeId} {ts : Timestamp}
    (hk : k ∈ (om.applyFill id qty price trade ts).tradeIds) : k ∈ om.tradeIds ∨ k = id := by
  rcases (Finmap.mem_insert).1 hk with heq | hmem
  · exact Or.inr heq
  · exact Or.inl hmem

/-- A fill through the order's own id. -/
theorem Tidy.fill (h : Tidy om) (hwf : om.WF) (hstamped : Stamped om) {qty : Quantity}
    {price : Price} {trade : TradeId} {ts : Timestamp} (hown : (om.orderRef id).internalId = id)
    (hok : om.validate id ⟨.Fill, trade, qty, price⟩ = .Ok) :
    Tidy (om.fill id qty price trade ts) := by
  obtain ⟨hcur, hopen, -⟩ := validate_fill_ok_iff.1 hok
  have hlive : om.Live id := ⟨hcur, hopen⟩
  have hchange : Change {} om (om.applyFill id qty price trade ts) := .fill trivial trivial hok
  have hwf' := hchange.wf hwf
  have hstamped' := stamped_step hwf hstamped hchange
  have hindexed : id ∈ om.live := (h.live_iff id).2 ⟨hlive, hown⟩
  have htrades : ∀ k ∈ (om.applyFill id qty price trade ts).tradeIds,
      k ∈ om.tradeIds ∨ k ∈ om.live := fun k hk =>
    (trades_applyFill hk).imp_right fun heq => by rw [heq]; exact hindexed
  rcases fill_cases om id qty price trade ts with ⟨hstays, heq⟩ | ⟨hended, om₂, hom₂, heq⟩
  · rw [heq]
    exact h.write (f := Order.addFill qty price ts) hwf hlive rfl (fun _ => rfl) rfl rfl hstays
      htrades rfl
  · rw [heq]
    have hbut : TidyBut om₂ id := by
      rcases hom₂ with rfl | rfl
      · exact h.close (f := Order.addFill qty price ts) hwf hlive rfl (fun _ => rfl) rfl rfl hown
          hended htrades fun k hk => Or.inl hk
      · exact h.close (f := Order.addFill qty price ts) hwf hlive rfl (fun _ => rfl) rfl rfl hown
          hended htrades fun k hk => (Finset.mem_insert.1 hk).symm
    rcases hom₂ with rfl | rfl
    · exact hbut.retire hwf' hstamped' _ _ _
    · exact hbut.retire ⟨hwf'.pool, hwf'.fifo_nodup, hwf'.fifo_current, hwf'.fifo_not_open⟩
        hstamped' _ _ _

/-- A write that ends an order through its own id, and the retirement that follows. -/
theorem Tidy.settle (h : Tidy om) (hwf : om.WF) (hstamped : Stamped om) (hlive : om.Live id)
    (hf : Order.Closing f) (hown : (om.orderRef id).internalId = id)
    (hwrite : om' = (om.modifyOrder id f).withDiagnostics om') (inst : InstrumentId)
    (rem : Quantity) (side : Side) : Tidy (om'.retire id inst rem side) := by
  have hid : ∀ o : Order, (f o).internalId = o.internalId := fun o => (hf.keeps o).internalId
  have hwf' : om'.WF := by
    have hwritten : (om.modifyOrder id f).WF := hwf.write (hwf.notMem_fifo hlive.isOpen) rfl rfl
    rw [hwrite]
    exact (Change.quiet (P := {}) _ _).wf hwritten
  have hbut : TidyBut om' id := by
    rw [hwrite]
    exact h.close hwf hlive rfl hid rfl rfl hown (hf.not_open _) (fun k hk => Or.inl hk) fun k hk =>
      Or.inl hk
  refine hbut.retire hwf' ?_ inst rem side
  rw [hwrite]
  exact hstamped.write hid

/-- **Every turn through own ids** leaves the containers in order. -/
theorem tidy_turn (hwf : om.WF) (hstamped : Stamped om) (h : Tidy om) (hturn : Turn own om om') :
    Tidy om' := by
  cases hturn with
  | quiet d => exact h.frame rfl rfl rfl rfl (Finset.Subset.refl _)
  | forgive id => exact h.frame rfl rfl rfl rfl (Finset.erase_subset _ _)
  | write hlive hf =>
    exact h.write hwf hlive rfl (fun o => (hf.touch.keeps o).internalId) rfl rfl
      (hf.touch.stays_open _ hlive.isOpen) (fun k hk => Or.inl hk) rfl
  | fill hmoves haddr hok => exact h.fill hwf hstamped haddr hok
  | close hmoves haddr hlive hf hwrite =>
    exact h.settle hwf hstamped hlive hf.closing haddr hwrite _ _ _
  | @place om' req venue now id hreq hres =>
    obtain ⟨pool, hacq, hid, rfl⟩ := hwf.reserve_cases hres
    exact (h.booked hwf hacq hid).write (hwf.booked hacq) (hwf.booked_live hacq hid) rfl
      (fun o => (Order.markSent_keeps now o).internalId) rfl rfl (Order.markSent_open now _)
      (fun k hk => Or.inl hk) rfl
  | @unwind om₁ om' req venue now id hmoves hreq hres hwrite =>
    have hbook : Change own om om₁ := .reserve hreq hres
    have hstamped' := stamped_step hwf hstamped hbook
    obtain ⟨pool, hacq, hid, rfl⟩ := hwf.reserve_cases hres
    refine (h.booked hwf hacq hid).settle (hwf.booked hacq) hstamped' (hwf.booked_live hacq hid)
      Order.failSend_closing ?_ hwrite _ _ _
    rw [booked_orderRef]
    rfl

/-- Every turn keeps the grace window within its bound. -/
theorem grace_turn (hwf : om.WF) (h : om.retiredFifo.length ≤ om.retiredGrace)
    (hturn : Turn P om om') : om'.retiredFifo.length ≤ om'.retiredGrace := by
  have hretire : ∀ om₁ : OrderManager, om₁.retiredFifo = om.retiredFifo →
      om₁.retiredGrace = om.retiredGrace → ∀ id inst rem side,
      (om₁.retire id inst rem side).retiredFifo.length ≤
        (om₁.retire id inst rem side).retiredGrace := by
    intro om₁ hfifo hgrace id inst rem side
    refine length_expire ?_
    show (om₁.retiredFifo ++ [id]).length ≤ om₁.retiredGrace + 1
    rw [hfifo, hgrace, List.length_append]
    exact Nat.succ_le_succ h
  cases hturn with
  | quiet d => exact h
  | forgive id => exact h
  | write hlive hf => exact h
  | @fill id qty price trade ts hmoves haddr hok =>
    rcases fill_cases om id qty price trade ts with ⟨-, heq⟩ | ⟨-, om₂, hom₂, heq⟩
    · rw [heq]
      exact h
    · rw [heq]
      refine hretire om₂ ?_ ?_ _ _ _ _
      all_goals rcases hom₂ with rfl | rfl <;> rfl
  | close hmoves haddr hlive hf hwrite =>
    refine hretire _ ?_ ?_ _ _ _ _
    all_goals
      rw [hwrite]
      rfl
  | place hreq hres =>
    obtain ⟨pool, hacq, hid, rfl⟩ := hwf.reserve_cases hres
    exact h
  | unwind hmoves hreq hres hwrite =>
    obtain ⟨pool, hacq, hid, rfl⟩ := hwf.reserve_cases hres
    refine hretire _ ?_ ?_ _ _ _ _
    all_goals
      rw [hwrite]
      rfl

/-! ### Minted ids -/

/-- Every id that was minted was handed out once. -/
def Accounted (om : OrderManager) : Prop := ∀ o ∈ om.pool.created, Issued om o.internalId

theorem accounted_step (hwf : om.WF) (hunwrapped : Unwrapped om) (h : Accounted om)
    (hchange : Change P om om') : Accounted om' := by
  have hstep : ∀ o ∈ om.pool.created, Issued om' o.internalId := fun o ho =>
    issued_step hwf hunwrapped (h o ho) hchange
  have hwrite : ∀ (id : OrderIdRaw) (f : Order → Order),
      (∀ o : Order, (f o).internalId = o.internalId) →
        ∀ o ∈ (om.pool.modify (slotOf id) f).created, Issued om' o.internalId := by
    intro id f hf
    refine OrderPool.forall_created_modify hstep fun hused => ?_
    rw [hf]
    exact hstep _ (OrderPool.mem_created.2 (Or.inr ⟨_, hused, rfl⟩))
  cases hchange with
  | quiet d => exact hstep
  | forgive id => exact hstep
  | touch hlive hf => exact hwrite _ _ fun o => (hf.keeps o).internalId
  | fill hmoves haddr hok => exact hwrite _ _ fun _ => rfl
  | settle hmoves hlive hf => exact hwrite _ _ fun o => (hf.keeps o).internalId
  | expect haddr hended => exact hstep
  | shelve hended => exact hstep
  | releaseHead hfifo => exact hstep
  | reserve hreq hres =>
    obtain ⟨pool, hacq, hid, rfl⟩ := hwf.reserve_cases hres
    intro o ho
    rw [booked, OrderPool.created_acquire_modify hacq] at ho
    rcases Multiset.mem_cons.1 ho with rfl | ho
    · exact issued_booked hwf hunwrapped hacq hid
    · exact hstep o ho

theorem Chain.accounted (hchain : Chain P om om') (hwf : om.WF) (hunwrapped : Unwrapped om')
    (h : Accounted om) : Accounted om' := by
  refine (Chain.invariant (I := fun om' => Unwrapped om' → Accounted om') ?_ hchain hwf
    fun _ => h).2 hunwrapped
  intro om₁ om₂ hwf₁ haccounted hchange hunwrapped₂
  have hunwrapped₁ := hchange.unwrapped hwf₁ hunwrapped₂
  exact accounted_step hwf₁ hunwrapped₁ (haccounted hunwrapped₁) hchange

theorem Turn.stamped (hwf : om.WF) (h : Stamped om) (hturn : Turn P om om') : Stamped om' :=
  (Chain.invariant (fun _ _ => stamped_step) (hturn.chain hwf) hwf h).2

end Containers

/-! ### Slots in use -/

section InUse

variable {om : OrderManager}

/-- The slots in use are those that are allocated. -/
theorem OrderPool.WF.inUse_eq_card {p : OrderPool} (h : p.WF) :
    p.inUse = ((Finset.range p.capacity).filter fun slot => p.allocated slot = true).card := by
  have hfree : p.freeList.length =
      ((Finset.range p.capacity).filter fun slot => ¬ p.allocated slot = true).card := by
    rw [← List.toFinset_card_of_nodup h.free_nodup]
    congr 1
    ext slot
    simp [h.mem_free slot]
  have hsum := Finset.card_filter_add_card_filter_not (s := Finset.range p.capacity)
    fun slot => p.allocated slot = true
  have hadd := h.inUse_add
  rw [Finset.card_range] at hsum
  omega

/-- Every slot in use is that of one order, in one of the two indices. -/
theorem Tidy.inUse_eq (h : Tidy om) (hwf : om.WF) (hstamped : Stamped om) :
    om.pool.inUse = om.live.card + om.retiredFifo.length := by
  have hworks : ∀ {k}, k ∈ om.live → om.Works k := fun hk => (h.live_iff _).1 hk
  have hdisjoint : Disjoint om.live om.retiredFifo.toFinset := by
    rw [Finset.disjoint_left]
    intro k hk hfifo
    exact hwf.slot_ne (hworks hk).live (List.mem_toFinset.1 hfifo) rfl
  have hown : ∀ k ∈ om.live ∪ om.retiredFifo.toFinset, (om.orderRef k).internalId = k := by
    intro k hk
    rcases Finset.mem_union.1 hk with hk | hk
    · exact (hworks hk).own
    · exact h.fifo_own k (List.mem_toFinset.1 hk)
  rw [hwf.pool.inUse_eq_card, ← List.toFinset_card_of_nodup (List.Nodup.of_map _ hwf.fifo_nodup),
    ← Finset.card_union_of_disjoint hdisjoint]
  refine (Finset.card_bij (fun k _ => slotOf k) (fun k hk => ?_) (fun k hk k' hk' hslot => ?_)
    fun slot hslot => ?_).symm
  · have hcur : om.pool.isCurrent k = true := by
      rcases Finset.mem_union.1 hk with hk | hk
      · exact (hworks hk).live.current
      · exact hwf.fifo_current k (List.mem_toFinset.1 hk)
    obtain ⟨hlt, halloc, -⟩ := OrderPool.isCurrent_iff.1 hcur
    exact Finset.mem_filter.2 ⟨Finset.mem_range.2 hlt, halloc⟩
  · rw [← hown k hk, ← hown k' hk', orderRef, orderRef, hslot]
  · obtain ⟨-, halloc⟩ := Finset.mem_filter.1 hslot
    refine ⟨(om.pool.slots slot).internalId, ?_, (hstamped slot halloc).1⟩
    by_cases hopen : (om.pool.slots slot).Open
    · exact Finset.mem_union_left _ ((h.live_iff _).2 (hstamped.works_slot hwf ⟨halloc, hopen⟩))
    · exact Finset.mem_union_right _ (List.mem_toFinset.2 (h.ended slot halloc hopen))

end InUse

/-! ### The life of a slot -/

/-- Every slot in use belongs to one order, which is in the live index while it works and in the
grace window once it has ended; the other containers speak of these orders only. -/
structure Lifecycle (om : OrderManager) : Prop where
  /-- an allocated slot belongs to one id -/
  owner : ∀ slot, om.pool.allocated slot = true →
    ∃! id, slotOf id = slot ∧ (id ∈ om.live ∨ id ∈ om.retiredFifo)
  allocated : ∀ id, id ∈ om.live ∨ id ∈ om.retiredFifo → om.pool.isCurrent id = true ∧
    (om.orderRef id).internalId = id
  live : ∀ id ∈ om.live, isTerminal (om.orderRef id).status = false ∧ id ∉ om.retiredFifo
  retired : ∀ id ∈ om.retiredFifo, isTerminal (om.orderRef id).status = true ∧
    om.retiredFifo.count id = 1 ∧ id ∉ om.live
  inUse_eq : om.pool.inUse = om.live.card + om.retiredFifo.length
  inUse_le : om.pool.inUse ≤ om.pool.capacity
  free_nodup : om.pool.freeList.Nodup
  mem_free : ∀ slot, slot ∈ om.pool.freeList ↔
    slot < om.pool.capacity ∧ om.pool.allocated slot = false
  grace : om.retiredFifo.length ≤ om.retiredGrace
  trades : ∀ id ∈ om.tradeIds, id ∈ om.live
  expected : ∀ id ∈ om.expectedFalseCancelRejects, id ∈ om.retiredFifo

section Lifecycle

variable {om : OrderManager}

theorem Tidy.lifecycle (h : Tidy om) (hwf : om.WF) (hstamped : Stamped om)
    (hgrace : om.retiredFifo.length ≤ om.retiredGrace) : Lifecycle om where
  owner := by
    intro slot halloc
    obtain ⟨hslot, -⟩ := hstamped slot halloc
    refine ⟨(om.pool.slots slot).internalId, ⟨hslot, ?_⟩, ?_⟩
    · by_cases hopen : (om.pool.slots slot).Open
      · exact Or.inl ((h.live_iff _).2 (hstamped.works_slot hwf ⟨halloc, hopen⟩))
      · exact Or.inr (h.ended slot halloc hopen)
    · rintro id ⟨rfl, hlive | hfifo⟩
      · exact ((h.live_iff id).1 hlive).own.symm
      · exact (h.fifo_own id hfifo).symm
  allocated := by
    rintro id (hlive | hfifo)
    · have hw := (h.live_iff id).1 hlive
      exact ⟨hw.live.current, hw.own⟩
    · exact ⟨hwf.fifo_current id hfifo, h.fifo_own id hfifo⟩
  live := by
    intro id hlive
    have hw := (h.live_iff id).1 hlive
    exact ⟨hw.live.isOpen, fun hfifo => hwf.slot_ne hw.live hfifo rfl⟩
  retired := by
    intro id hfifo
    refine ⟨?_, ?_, fun hlive => ?_⟩
    · have hopen := hwf.fifo_not_open id hfifo
      rw [Order.Open, Bool.not_eq_false] at hopen
      exact hopen
    · exact List.count_eq_one_of_mem (List.Nodup.of_map _ hwf.fifo_nodup) hfifo
    · exact hwf.fifo_not_open id hfifo ((h.live_iff id).1 hlive).live.isOpen
  inUse_eq := h.inUse_eq hwf hstamped
  inUse_le := by
    rw [← hwf.pool.inUse_add]
    exact Nat.le_add_right _ _
  free_nodup := hwf.pool.free_nodup
  mem_free := hwf.pool.mem_free
  grace := hgrace
  trades := h.trades
  expected := h.expected

theorem minted_iff {id : OrderIdRaw} : Minted om id ↔
    (∃ o ∈ om.pool.history.recycled, o.internalId = id) ∨
      ∃ slot ∈ om.pool.history.used, (om.pool.slots slot).internalId = id := by
  simp only [Minted, OrderPool.mem_created, or_and_right, exists_or]
  refine or_congr_right ⟨?_, ?_⟩
  · rintro ⟨o, ⟨slot, hused, rfl⟩, hid⟩
    exact ⟨slot, hused, hid⟩
  · rintro ⟨slot, hused, hid⟩
    exact ⟨_, ⟨slot, hused, rfl⟩, hid⟩

instance (om : OrderManager) (id : OrderIdRaw) : Decidable (Minted om id) :=
  decidable_of_iff _ minted_iff.symm

variable {W : Type} {E : Env W}

/-- An inbound event carries an id that was minted, whether its order is still there or not. -/
def CarriesMinted (s : State W) (op : Op) : Prop :=
  ∀ id, op.inboundId = some id → Minted s.om id

/-- What a run keeps of the containers. -/
structure Orderly (om : OrderManager) : Prop where
  stamped : Stamped om
  tidy : Tidy om
  grace : om.retiredFifo.length ≤ om.retiredGrace

theorem orderly_init (capacity : PoolCapacity) : Orderly (init capacity) :=
  ⟨stamped_init capacity, tidy_init capacity, Nat.zero_le _⟩

theorem orderly_turn {om om' : OrderManager} (hwf : om.WF) (h : Orderly om)
    (hturn : Turn own om om') : Orderly om' :=
  ⟨hturn.stamped hwf h.stamped, tidy_turn hwf h.stamped h.tidy hturn, grace_turn hwf h.grace hturn⟩

/-- A minted id reaches no order but its own. -/
theorem CarriesMinted.allows {s : State W} {op : Op} (h : CarriesMinted s op)
    (haccounted : Accounted s.om) : own.Allows s op := by
  refine ⟨fun _ _ => ⟨trivial, trivial⟩, fun id hid => ⟨trivial, fun hcur => ?_⟩⟩
  obtain ⟨o, ho, rfl⟩ := h id hid
  exact (haccounted o ho).own hcur

/-- Along a run with minted ids and without a generation that came round, the containers stay in
order. -/
theorem run_orderly (capacity : PoolCapacity) (w : W) (ops : List Op)
    (hops : (machine E).Admits CarriesMinted ⟨.init capacity, w⟩ ops)
    (hunwrapped : Unwrapped ((machine E).run ⟨.init capacity, w⟩ ops).om) :
    let om := ((machine E).run ⟨.init capacity, w⟩ ops).om
    om.WF ∧ Accounted om ∧ Orderly om := by
  induction ops using List.reverseRecOn with
  | nil =>
    have hnone : Accounted (init capacity) := fun o ho => by
      simp [OrderPool.created, init, OrderPool.init] at ho
    exact ⟨wf_init capacity, hnone, orderly_init capacity⟩
  | append_singleton ops op ih =>
    obtain ⟨hops, hop, -⟩ := (Machine.admits_append _ _ _ _).1 hops
    rw [Machine.run_append] at hunwrapped ⊢
    have hwf := (reached_run E capacity w ops).wf
    have hchain := step_chain (E := E) hwf op
    obtain ⟨-, haccounted, horderly⟩ := ih hops (hchain.unwrapped hwf hunwrapped)
    have hturns := step_turns (E := E) (hop.allows haccounted)
    obtain ⟨hwf', horderly'⟩ := hturns.invariant (fun _ _ => orderly_turn) hwf horderly
    exact ⟨hwf', hchain.accounted hwf hunwrapped haccounted, horderly'⟩

/-- **Slot lifecycle.** In every run whose inbound events carry minted ids, current or stale, and in
which no slot is released so often that its generation comes round, every slot in use belongs to one
order, and the containers of the manager agree on it. -/
theorem slot_lifecycle (E : Env W) (capacity : PoolCapacity) (w : W) (ops : List Op)
    (hops : (machine E).Admits CarriesMinted ⟨.init capacity, w⟩ ops)
    (hunwrapped : Unwrapped ((machine E).run ⟨.init capacity, w⟩ ops).om) :
    Lifecycle ((machine E).run ⟨.init capacity, w⟩ ops).om := by
  obtain ⟨hwf, -, horderly⟩ := run_orderly capacity w ops hops hunwrapped
  exact horderly.tidy.lifecycle hwf horderly.stamped horderly.grace

end Lifecycle

/-- An order is partly filled, cancelled, and reached by a late fill. -/
def lateFill : List Op :=
  [.submit { instrument := 7, size := 10, price := 5 }, .fill 1 4 5 9 0, .cancel 1, .cancelAck 1 0,
    .fill 1 6 5 10 0]

theorem lateFill_minted :
    (machine acceptingEnv).Admits CarriesMinted ⟨.init twoSlots, ()⟩ lateFill := by
  refine ⟨nofun, ?_, nofun, ?_, ?_, trivial⟩
  all_goals
    intro id hid
    cases hid
    decide

theorem lateFill_unwrapped : Unwrapped (acceptingRun lateFill).om := by
  intro slot
  have hnone : (acceptingRun lateFill).om.pool.history.releases slot = 0 := rfl
  rw [hnone]
  decide

theorem slot_lifecycle_cancelled :
    Lifecycle (acceptingRun lateFill).om ∧ (acceptingRun lateFill).om.retiredFifo = [1] := by
  have hlifecycle := slot_lifecycle acceptingEnv twoSlots () lateFill lateFill_minted
    lateFill_unwrapped
  exact ⟨hlifecycle, by decide⟩

end Oms
