import Mathlib.Logic.Relation
import Oms.OrderManager.Steps

/-!
# What an operation can do to the manager

* `Change`: the atomic changes a manager can go through, one constructor for each kind;
* `OrderManager.WF`: the invariant of the slots in their grace window, kept by every change.

A `Policy` is a promise about the operations of a run: which requests are submitted, whether orders
are filled or closed, and which ids inbound events carry.
-/

namespace Oms

open Relation

/-! ### Writes to an order -/

/-- A write of a handler that leaves the order working. -/
structure Order.Touch (f : Order → Order) : Prop where
  keeps : ∀ o : Order, o.Keeps (f o)
  stays_open : ∀ o : Order, o.Open → (f o).Open

/-- A write of a handler that ends the order. -/
structure Order.Closing (f : Order → Order) : Prop where
  keeps : ∀ o : Order, o.Keeps (f o)
  not_open : ∀ o : Order, ¬ (f o).Open

namespace Order

theorem markSent_touch (now : Timestamp) : Touch (markSent now) :=
  ⟨markSent_keeps now, fun o _ => markSent_open now o⟩

theorem confirm_touch (exchId : ExchangeOrderId) (ts : Timestamp) : Touch (confirm exchId ts) :=
  ⟨confirm_keeps exchId ts, fun _ h => confirm_open h exchId ts⟩

theorem markCancelSent_touch : Touch markCancelSent :=
  ⟨markCancelSent_keeps, fun o _ => markCancelSent_open o⟩

theorem rejectCancel_touch : Touch rejectCancel :=
  ⟨rejectCancel_keeps, fun o _ => rejectCancel_open o⟩

theorem markTimedOut_touch : Touch markTimedOut :=
  ⟨markTimedOut_keeps, fun _ h => markTimedOut_open h⟩

theorem failSend_closing : Closing failSend := ⟨failSend_keeps, failSend_not_open⟩

theorem reject_closing (ts : Timestamp) : Closing (reject ts) :=
  ⟨reject_keeps ts, reject_not_open ts⟩

theorem cancelled_closing (ts : Timestamp) : Closing (cancelled ts) :=
  ⟨cancelled_keeps ts, cancelled_not_open ts⟩

end Order

/-! ### Changes -/

/-- A promise about a run: the requests it submits, whether it fills or closes orders, and the ids
with which its inbound events reach a stored order. -/
structure Policy where
  request : OrderRequest → Prop := fun _ => True
  /-- orders may be filled or closed -/
  moves : Prop := True
  /-- an order with id `internalId` is reached by an event with id `id` -/
  addresses : (internalId id : OrderIdRaw) → Prop := fun _ _ => True

namespace OrderManager

/-- The manager with the flags, counters and texts of `d`. The pool, the positions, the pending
quantities and the indices are those of `om`. -/
def withDiagnostics (om d : OrderManager) : OrderManager :=
  { d with
    pool := om.pool
    positions := om.positions
    pendingSigned := om.pendingSigned
    venueSeq := om.venueSeq
    tradeIds := om.tradeIds
    live := om.live
    expectedFalseCancelRejects := om.expectedFalseCancelRejects
    retiredFifo := om.retiredFifo
    retiredGrace := om.retiredGrace }

/-- The manager after the order of an id is closed and what remained of it is no longer pending. -/
def settle (om : OrderManager) (id : OrderIdRaw) (f : Order → Order) : OrderManager :=
  (om.modifyOrder id f).unbook (om.orderRef id).instrument (om.orderRef id).remaining
    (om.orderRef id).side

/-- A cancel-reject of a filled order will be benign. -/
def expect (om : OrderManager) (id : OrderIdRaw) : OrderManager :=
  { om with
    expectedFalseCancelRejects := insert id om.expectedFalseCancelRejects
    falseCancelRejectCount := om.falseCancelRejectCount + 1 }

/-- Drop a benign cancel-reject from the expected ones. -/
def forgive (om : OrderManager) (id : OrderIdRaw) : OrderManager :=
  { om with expectedFalseCancelRejects := om.expectedFalseCancelRejects.erase id }

/-- Free the slot at the head of the grace window. -/
def releaseHead (om : OrderManager) (old : OrderIdRaw) (rest : List OrderIdRaw) : OrderManager :=
  { om with
    retiredFifo := rest
    pool := om.pool.release (slotOf old)
    expectedFalseCancelRejects := om.expectedFalseCancelRejects.erase old }

/-- The working order of an id: its slot is current, and its order can still trade. -/
structure Live (om : OrderManager) (id : OrderIdRaw) : Prop where
  current : om.pool.isCurrent id = true
  isOpen : (om.orderRef id).Open

/-- The order of an id has ended, and its slot is not yet in the grace window. -/
structure Ended (om : OrderManager) (id : OrderIdRaw) : Prop where
  current : om.pool.isCurrent id = true
  not_open : ¬ (om.orderRef id).Open
  notMem : slotOf id ∉ om.retiredFifo.map slotOf

end OrderManager

open OrderManager

/-- An atomic change of the manager. -/
inductive Change (P : Policy) : OrderManager → OrderManager → Prop
  /-- flags, counters, texts -/
  | quiet (om d : OrderManager) : Change P om (om.withDiagnostics d)
  | forgive (om : OrderManager) (id : OrderIdRaw) : Change P om (om.forgive id)
  /-- a write that leaves a working order working -/
  | touch {om : OrderManager} {id : OrderIdRaw} {f : Order → Order} (hlive : om.Live id)
      (hf : Order.Touch f) : Change P om (om.modifyOrder id f)
  | fill {om : OrderManager} {id : OrderIdRaw} {qty : Quantity} {price : Price} {trade : TradeId}
      {ts : Timestamp} (hmoves : P.moves) (haddr : P.addresses (om.orderRef id).internalId id)
      (hok : om.validate id ⟨.Fill, trade, qty, price⟩ = .Ok) :
      Change P om (om.applyFill id qty price trade ts)
  /-- the end of a working order that is not filled -/
  | settle {om : OrderManager} {id : OrderIdRaw} {f : Order → Order} (hmoves : P.moves)
      (hlive : om.Live id) (hf : Order.Closing f) : Change P om (om.settle id f)
  | expect {om : OrderManager} {id : OrderIdRaw}
      (haddr : P.addresses (om.orderRef id).internalId id)
      (hended : om.Ended id) : Change P om (om.expect id)
  | shelve {om : OrderManager} {id : OrderIdRaw} (hended : om.Ended id) :
      Change P om (om.shelve id)
  | releaseHead {om : OrderManager} {old : OrderIdRaw} {rest : List OrderIdRaw}
      (hfifo : om.retiredFifo = old :: rest) : Change P om (om.releaseHead old rest)
  /-- a new order in a fresh slot -/
  | reserve {om om' : OrderManager} {req : OrderRequest} {venue : VenueId} {now : Timestamp}
      {id : OrderIdRaw} (hreq : P.request req) (hres : om.reserve req venue now = some (id, om')) :
      Change P om om'

/-! ### Well-formed managers -/

/-- The orders in the grace window have ended and hold their slots, each slot once. -/
structure OrderManager.WF (om : OrderManager) : Prop where
  pool : om.pool.WF
  fifo_nodup : (om.retiredFifo.map slotOf).Nodup
  fifo_current : ∀ id ∈ om.retiredFifo, om.pool.isCurrent id = true
  fifo_not_open : ∀ id ∈ om.retiredFifo, ¬ (om.orderRef id).Open

namespace OrderManager

theorem wf_init (capacity : PoolCapacity) : (init capacity).WF where
  pool := OrderPool.wf_init capacity
  fifo_nodup := List.nodup_nil
  fifo_current := fun _ h => absurd h List.not_mem_nil
  fifo_not_open := fun _ h => absurd h List.not_mem_nil

variable {om om' : OrderManager} {id : OrderIdRaw} {f : Order → Order}

theorem Live.allocated (h : om.Live id) : om.pool.allocated (slotOf id) = true :=
  (OrderPool.isCurrent_iff.1 h.current).2.1

/-- A working order is not in the grace window. -/
theorem WF.notMem_fifo (h : om.WF) (hopen : (om.orderRef id).Open) :
    slotOf id ∉ om.retiredFifo.map slotOf := by
  intro hmem
  obtain ⟨old, hold, hslot⟩ := List.mem_map.1 hmem
  refine h.fifo_not_open old hold ?_
  rw [orderRef, hslot]
  exact hopen

/-- Writing the order of a slot that is not in the grace window. -/
theorem WF.write (h : om.WF) (hnot : slotOf id ∉ om.retiredFifo.map slotOf)
    (hpool : om'.pool = om.pool.modify (slotOf id) f) (hfifo : om'.retiredFifo = om.retiredFifo) :
    om'.WF where
  pool := by rw [hpool]; exact h.pool.modify _ _
  fifo_nodup := by rw [hfifo]; exact h.fifo_nodup
  fifo_current := by rw [hfifo, hpool]; exact h.fifo_current
  fifo_not_open := by
    rw [hfifo]
    intro old hold
    have hne : slotOf old ≠ slotOf id := fun heq => hnot (heq ▸ List.mem_map_of_mem hold)
    rw [orderRef, hpool, OrderPool.modify_slots_of_ne hne]
    exact h.fifo_not_open old hold

/-- Freeing the head of the grace window. -/
theorem WF.releaseHead (h : om.WF) {old : OrderIdRaw} {rest : List OrderIdRaw}
    (hfifo : om.retiredFifo = old :: rest) : (om.releaseHead old rest).WF := by
  have hnodup := h.fifo_nodup
  have hcurrent := h.fifo_current
  have hopen := h.fifo_not_open
  rw [hfifo] at hnodup hcurrent hopen
  obtain ⟨hslot, hrest⟩ := List.nodup_cons.1 hnodup
  have hne : ∀ id ∈ rest, slotOf id ≠ slotOf old := fun id hid heq =>
    hslot (heq ▸ List.mem_map_of_mem hid)
  have halloc := (OrderPool.isCurrent_iff.1 (hcurrent old List.mem_cons_self)).2.1
  refine ⟨h.pool.release halloc, hrest, fun id hid => ?_, fun id hid => ?_⟩
  · exact (OrderPool.isCurrent_release (hne id hid)).trans
      (hcurrent id (List.mem_cons_of_mem _ hid))
  · exact hopen id (List.mem_cons_of_mem _ hid)

/-- The manager after an order of `req` is booked in the slot of `id`, which `pool` handed out. -/
def booked (om : OrderManager) (req : OrderRequest) (venue : VenueId) (now : Timestamp)
    (id : OrderIdRaw) (pool : OrderPool) : OrderManager :=
  { om with
    pool := pool.modify (slotOf id) (req.stamp id now)
    venueSeq := om.venueSeq.insert venue (om.venueSeq.get venue + 1)
    positions :=
      if req.instrument ∈ om.positions then om.positions
      else om.positions.insert req.instrument {}
    pendingSigned := om.pendingSigned.adjust req.instrument (signedQty req.side req.size)
    live := insert id om.live }

section Reserve

variable {req : OrderRequest} {venue : VenueId} {now : Timestamp}

/-- A pool with a free slot reserves one. -/
theorem WF.exists_reserve (h : om.WF) (hfree : om.pool.inUse < om.pool.capacity)
    (req : OrderRequest) (venue : VenueId) (now : Timestamp) :
    ∃ id om', om.reserve req venue now = some (id, om') := by
  obtain ⟨⟨slot, pool⟩, hacq⟩ := Option.isSome_iff_exists.1 (h.pool.acquire_isSome hfree)
  unfold reserve
  rw [hacq]
  exact ⟨_, _, rfl⟩

/-- What reserving does: it books an order of the request in the first free slot, under an id of
that slot, its generation and the next sequence number of the venue. -/
theorem WF.reserve_cases (h : om.WF) (hres : om.reserve req venue now = some (id, om')) :
    ∃ pool, om.pool.acquire = some (slotOf id, pool) ∧
      id = encodeOrderId venue (om.pool.generation (slotOf id)) (UInt32.ofNat (slotOf id))
        (om.venueSeq.get venue + 1).toUInt16 ∧
      om' = om.booked req venue now id pool := by
  unfold reserve at hres
  split at hres
  · cases hres
  · rename_i slot pool hacq
    have hslot : slotOf (encodeOrderId venue (pool.generation slot) (UInt32.ofNat slot)
        (om.venueSeq.get venue + 1).toUInt16) = slot :=
      slotOf_encodeOrderId ((h.pool.acquire_free hacq).1.trans_le h.pool.capacity_le)
    cases hres
    rw [hslot]
    refine ⟨pool, hacq, ?_, ?_⟩
    · obtain ⟨rest, -, rfl⟩ := OrderPool.acquire_cases hacq
      rfl
    · rw [booked, hslot]

variable {pool : OrderPool} (hacq : om.pool.acquire = some (slotOf id, pool))
include hacq

/-- The slot of a fresh order was not in the grace window. -/
theorem WF.reserve_notMem (h : om.WF) : slotOf id ∉ om.retiredFifo.map slotOf := by
  intro hmem
  obtain ⟨old, hold, hslot⟩ := List.mem_map.1 hmem
  have halloc := (OrderPool.isCurrent_iff.1 (h.fifo_current old hold)).2.1
  rw [hslot, (h.pool.acquire_free hacq).2] at halloc
  cases halloc

theorem WF.booked (h : om.WF) : (om.booked req venue now id pool).WF := by
  have hnot := h.reserve_notMem hacq
  have hpool := h.pool.acquire hacq
  obtain ⟨rest, -, rfl⟩ := OrderPool.acquire_cases hacq
  refine ⟨hpool.modify _ _, h.fifo_nodup, fun old hold => ?_, fun old hold => ?_⟩
  all_goals
    have hne : slotOf old ≠ slotOf id := fun heq => hnot (heq ▸ List.mem_map_of_mem hold)
  · have hcur := OrderPool.isCurrent_iff.1 (h.fifo_current old hold)
    rw [OrderPool.isCurrent_iff]
    simpa [OrderManager.booked, hne] using hcur
  · have hopen := h.fifo_not_open old hold
    simpa [OrderManager.booked, orderRef, OrderPool.modify, hne] using hopen

/-- The order just booked is the current working order of its id. -/
theorem WF.booked_live (h : om.WF) {seq : UInt16}
    (hid : id = encodeOrderId venue (om.pool.generation (slotOf id)) (UInt32.ofNat (slotOf id))
      seq) :
    (om.booked req venue now id pool).Live id := by
  obtain ⟨hlt, -⟩ := h.pool.acquire_free hacq
  obtain ⟨rest, -, rfl⟩ := OrderPool.acquire_cases hacq
  constructor
  · rw [OrderPool.isCurrent_iff]
    exact ⟨hlt, by simp [OrderManager.booked], (generation_of_eq_encodeOrderId hid).symm⟩
  · show Order.Open (OrderPool.slots _ (slotOf id))
    simp [OrderManager.booked, Order.Open, OrderRequest.stamp, Order.storeIntData, isTerminal]

end Reserve

end OrderManager

/-! ### Well-formedness is kept -/

section Kept

variable {P : Policy} {om om' : OrderManager}

/-- Every change keeps a manager well-formed. -/
theorem Change.wf (hchange : Change P om om') (h : om.WF) : om'.WF := by
  cases hchange with
  | quiet d => exact ⟨h.pool, h.fifo_nodup, h.fifo_current, h.fifo_not_open⟩
  | forgive id => exact ⟨h.pool, h.fifo_nodup, h.fifo_current, h.fifo_not_open⟩
  | touch hlive hf => exact h.write (h.notMem_fifo hlive.isOpen) rfl rfl
  | fill hmoves haddr hok =>
    exact h.write (h.notMem_fifo (validate_fill_ok_iff.1 hok).2.1) rfl rfl
  | @settle id f hmoves hlive hf => exact h.write (f := f) (h.notMem_fifo hlive.isOpen) rfl rfl
  | expect haddr hended => exact ⟨h.pool, h.fifo_nodup, h.fifo_current, h.fifo_not_open⟩
  | @shelve id hended =>
    have hmem : ∀ id', id' ∈ om.retiredFifo ++ [id] → id' ∈ om.retiredFifo ∨ id' = id :=
      fun id' h' => by simpa using h'
    refine ⟨h.pool, ?_, fun id' h' => ?_, fun id' h' => ?_⟩
    · show ((om.retiredFifo ++ [id]).map slotOf).Nodup
      rw [List.map_append, List.map_singleton]
      exact List.concat_eq_append ▸ h.fifo_nodup.concat hended.notMem
    · rcases hmem id' h' with hold | rfl
      · exact h.fifo_current id' hold
      · exact hended.current
    · rcases hmem id' h' with hold | rfl
      · exact h.fifo_not_open id' hold
      · exact hended.not_open
  | releaseHead hfifo => exact h.releaseHead hfifo
  | reserve hreq hres =>
    obtain ⟨pool, hacq, -, rfl⟩ := h.reserve_cases hres
    exact h.booked hacq

theorem Change.wf_of_chain (hchain : ReflTransGen (Change P) om om') (h : om.WF) : om'.WF := by
  induction hchain with
  | refl => exact h
  | tail _ hchange ih => exact hchange.wf ih

end Kept

end Oms
