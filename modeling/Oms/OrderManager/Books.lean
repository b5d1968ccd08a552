import Oms.OrderManager.Runs
import Oms.OrderPool.Sums

/-!
# The books of the manager balance

The pending quantities and the positions are accumulators, which the handlers adjust as they go.
Over runs whose requests ask for a positive size:

* `Bounded`: no order is ever filled below `0` or above its size;
* `PendingBalanced`: the pending quantity is what the working orders still have open;
* `NetBalanced`: the net position is what every order ever created has filled; `Tallies`: so is
  every quantity of a position that fills move as they move the order.

Each is proved for one change and carried to runs by `Reached.invariant`.
-/

namespace Oms

open OrderManager

/-- Requests ask for a positive size. -/
def sized : Policy := { request := fun req => 0 < req.size }

/-- What an order still has open on an instrument, signed by its side. -/
def openQty (inst : InstrumentId) (o : Order) : Quantity :=
  if o.instrument = inst then signedQty o.side o.remaining else 0

/-- What an order has filled on an instrument, signed by its side. -/
def filledQty (inst : InstrumentId) (o : Order) : Quantity :=
  if o.instrument = inst then signedQty o.side o.filledSize else 0

section Order

variable {inst : InstrumentId} {o o' : Order}

theorem Order.Keeps.openQty (h : o.Keeps o') : Oms.openQty inst o' = Oms.openQty inst o := by
  rw [Oms.openQty, Oms.openQty, h.instrument, h.side, h.remaining]

theorem Order.Keeps.filledQty (h : o.Keeps o') :
    Oms.filledQty inst o' = Oms.filledQty inst o := by
  rw [Oms.filledQty, Oms.filledQty, h.instrument, h.side, h.filledSize]

theorem openQty_addFill (qty : Quantity) (price : Price) (ts : Timestamp) :
    openQty inst (o.addFill qty price ts) =
      openQty inst o + if inst = o.instrument then -signedQty o.side qty else 0 := by
  rw [openQty, openQty, Order.addFill_remaining]
  show (if o.instrument = inst then signedQty o.side (o.remaining - qty) else 0) = _
  rw [signedQty_sub]
  by_cases h : o.instrument = inst
  · rw [if_pos h, if_pos h, if_pos h.symm, sub_eq_add_neg]
  · rw [if_neg h, if_neg h, if_neg (Ne.symm h), add_zero]

theorem filledQty_addFill (qty : Quantity) (price : Price) (ts : Timestamp) :
    filledQty inst (o.addFill qty price ts) =
      filledQty inst o + if inst = o.instrument then signedQty o.side qty else 0 := by
  show (if o.instrument = inst then signedQty o.side (o.filledSize + qty) else 0) = _
  rw [filledQty, signedQty_add]
  by_cases h : o.instrument = inst
  · rw [if_pos h, if_pos h, if_pos h.symm]
  · rw [if_neg h, if_neg h, if_neg (Ne.symm h), add_zero]

@[simp] theorem openQty_fresh : openQty inst {} = 0 := by
  simp [openQty, Order.remaining]

@[simp] theorem filledQty_fresh : filledQty inst {} = 0 := by
  simp [filledQty]

theorem openQty_stamp (req : OrderRequest) (id : OrderIdRaw) (now : Timestamp) :
    openQty inst (req.stamp id now o) =
      if inst = req.instrument then signedQty req.side req.size else 0 := by
  show (if req.instrument = inst then signedQty req.side (req.size - 0) else 0) = _
  rw [sub_zero]
  exact if_congr eq_comm rfl rfl

theorem filledQty_stamp (req : OrderRequest) (id : OrderIdRaw) (now : Timestamp) :
    filledQty inst (req.stamp id now o) = 0 := by
  show (if req.instrument = inst then signedQty req.side 0 else 0) = 0
  rw [signedQty_zero, ite_self]

end Order

/-! ### Fills stay within the size -/

/-- Every order ever created has filled between `0` and its size. -/
def Bounded (om : OrderManager) : Prop :=
  ∀ o ∈ om.pool.created, 0 ≤ o.filledSize ∧ o.filledSize ≤ o.size

theorem bounded_init (capacity : PoolCapacity) : Bounded (init capacity) := by
  intro o ho
  simp [OrderPool.created, init, OrderPool.init] at ho

section Bounded

variable {om om' : OrderManager} {id : OrderIdRaw}

theorem Bounded.orderRef (h : Bounded om) (hwf : om.WF) (hcur : om.pool.isCurrent id = true) :
    0 ≤ (om.orderRef id).filledSize ∧ (om.orderRef id).filledSize ≤ (om.orderRef id).size :=
  h _ (hwf.pool.slot_mem_created (OrderPool.isCurrent_iff.1 hcur).2.1)

/-- A write that keeps the fills of an order keeps the bound. -/
theorem Bounded.keep (h : Bounded om) {f : Order → Order} (hf : ∀ o : Order, o.Keeps (f o)) :
    Bounded (om.modifyOrder id f) := by
  refine OrderPool.forall_created_modify h fun hused => ?_
  have hold := h _ (OrderPool.mem_created.2 (Or.inr ⟨slotOf id, hused, rfl⟩))
  have hkeeps := hf (om.pool.slots (slotOf id))
  rw [hkeeps.filledSize, hkeeps.size]
  exact hold

theorem bounded_step (hwf : om.WF) (h : Bounded om) (hchange : Change sized om om') :
    Bounded om' := by
  cases hchange with
  | quiet d => exact h
  | forgive id => exact h
  | touch hlive hf => exact h.keep hf.keeps
  | fill hmoves haddr hok =>
    obtain ⟨hcur, -, -, hqty, -, hle⟩ := validate_fill_ok_iff.1 hok
    have hold := h.orderRef hwf hcur
    refine OrderPool.forall_created_modify h fun _ => ⟨?_, ?_⟩
    · exact add_nonneg hold.1 hqty.le
    · exact le_sub_iff_add_le'.1 hle
  | settle hmoves hlive hf => exact h.keep hf.keeps
  | expect haddr hended => exact h
  | shelve hended => exact h
  | releaseHead hfifo => exact h
  | reserve hreq hres =>
    obtain ⟨pool, hacq, -, rfl⟩ := hwf.reserve_cases hres
    intro o ho
    rw [booked, OrderPool.created_acquire_modify hacq] at ho
    rcases Multiset.mem_cons.1 ho with rfl | ho
    · exact ⟨le_refl 0, le_of_lt hreq⟩
    · exact h o ho

end Bounded

/-! ### Pending quantities -/

/-- The pending quantity of an instrument is what its working orders still have open. -/
def PendingBalanced (om : OrderManager) (inst : InstrumentId) : Prop :=
  om.pendingQuantity inst = om.pool.openSum (openQty inst)

section Pending

variable {om om' : OrderManager} {id : OrderIdRaw} {inst : InstrumentId}

/-- Writing a working order changes a sum over the working orders by what it contributes. -/
theorem OrderManager.Live.openSum_write {M : Type*} [AddCommGroup M] (hwf : om.WF)
    (hlive : om.Live id) (f : Order → Order) (ψ : Order → M) :
    (om.pool.modify (slotOf id) f).openSum ψ = om.pool.openSum ψ - ψ (om.orderRef id) +
      if (f (om.orderRef id)).Open then ψ (f (om.orderRef id)) else 0 := by
  have halloc := hlive.allocated
  rw [hwf.pool.openSum_modify ψ halloc, OrderPool.openTerm_of_working ψ ⟨halloc, hlive.isOpen⟩]
  congr 1
  have hnew : (om.pool.modify (slotOf id) f).slots (slotOf id) = f (om.orderRef id) :=
    OrderPool.modify_slots_self
  by_cases hopen : (f (om.orderRef id)).Open
  · rw [if_pos hopen, OrderPool.openTerm_of_working, hnew]
    refine ⟨halloc, ?_⟩
    rw [hnew]
    exact hopen
  · rw [if_neg hopen]
    refine OrderPool.openTerm_of_not_working ψ fun hw => hopen ?_
    rw [← hnew]
    exact hw.2

/-- A closed order takes out of the pending quantity what it still had open. -/
theorem pending_settle (hbound : (om.orderRef id).filledSize ≤ (om.orderRef id).size)
    (f : Order → Order) :
    (om.settle id f).pendingQuantity inst =
      om.pendingQuantity inst - openQty inst (om.orderRef id) := by
  show Finmap.get (if 0 < (om.orderRef id).remaining then _ else _) inst = _
  rw [openQty]
  split_ifs with hrem hinst hinst
  · rw [Finmap.get_adjust, if_pos hinst.symm, ← sub_eq_add_neg]
    rfl
  · rw [Finmap.get_adjust, if_neg (Ne.symm hinst), add_zero, sub_zero]
    rfl
  · have hzero : (om.orderRef id).remaining = 0 :=
      le_antisymm (not_lt.1 hrem) (sub_nonneg.2 hbound)
    rw [hzero, signedQty_zero, sub_zero]
    rfl
  · rw [sub_zero]
    rfl

theorem pendingBalanced_step (hwf : om.WF) (hbound : Bounded om) (h : PendingBalanced om inst)
    (hchange : Change sized om om') : PendingBalanced om' inst := by
  unfold PendingBalanced at h ⊢
  cases hchange with
  | quiet d => exact h
  | forgive id => exact h
  | @touch id f hlive hf =>
    have hopen := hf.stays_open _ hlive.isOpen
    show om.pendingQuantity inst = (om.pool.modify (slotOf id) f).openSum (openQty inst)
    rw [hlive.openSum_write hwf, if_pos hopen, (hf.keeps _).openQty, sub_add_cancel, h]
  | @fill id qty price trade ts hmoves haddr hok =>
    obtain ⟨hcur, hopen, -⟩ := validate_fill_ok_iff.1 hok
    show (om.pendingSigned.adjust (om.orderRef id).instrument _).get inst =
      (om.pool.modify (slotOf id) (Order.addFill qty price ts)).openSum (openQty inst)
    have hnew : (if ((om.orderRef id).addFill qty price ts).Open then
        openQty inst ((om.orderRef id).addFill qty price ts) else 0) =
          openQty inst ((om.orderRef id).addFill qty price ts) := by
      split_ifs with hopen'
      · rfl
      · -- a final fill leaves nothing open
        have hfull := not_not.1 (mt (Order.addFill_open_iff qty price ts _).2 hopen')
        have hrem : ((om.orderRef id).addFill qty price ts).remaining = 0 :=
          sub_eq_zero.2 hfull.symm
        rw [openQty, hrem, signedQty_zero, ite_self]
    rw [Live.openSum_write hwf ⟨hcur, hopen⟩, hnew, openQty_addFill, Finmap.get_adjust, ← add_assoc,
      sub_add_cancel, ← h]
    rfl
  | @settle id f hmoves hlive hf =>
    rw [pending_settle (hbound.orderRef hwf hlive.current).2]
    show _ = (om.pool.modify (slotOf id) f).openSum (openQty inst)
    rw [hlive.openSum_write hwf, if_neg (hf.not_open _), add_zero, h]
  | expect haddr hended => exact h
  | shelve hended => exact h
  | @releaseHead old rest hfifo =>
    have hclosed := hwf.fifo_not_open old (by rw [hfifo]; exact List.mem_cons_self)
    exact h.trans (OrderPool.openSum_release _ hclosed).symm
  | @reserve _ req venue now id hreq hres =>
    obtain ⟨pool, hacq, -, rfl⟩ := hwf.reserve_cases hres
    show (om.pendingSigned.adjust req.instrument _).get inst =
      (pool.modify (slotOf id) (req.stamp id now)).openSum (openQty inst)
    have hopen : (req.stamp id now {}).Open := rfl
    rw [hwf.pool.openSum_acquire_modify _ hacq hopen, openQty_stamp, Finmap.get_adjust, ← h]
    rfl

end Pending

/-! ### Positions -/

/-- The net position on an instrument is what every order ever created has filled on it. -/
def NetBalanced (om : OrderManager) (inst : InstrumentId) : Prop :=
  (om.position inst).net = om.pool.everSum (filledQty inst)

section Net

variable {om om' : OrderManager} {inst : InstrumentId}

theorem OrderManager.WF.everSum_write (hwf : om.WF) {id : OrderIdRaw}
    (hcur : om.pool.isCurrent id = true) (f : Order → Order) (φ : Order → Quantity) :
    (om.pool.modify (slotOf id) f).everSum φ =
      om.pool.everSum φ - φ (om.orderRef id) + φ (f (om.orderRef id)) :=
  OrderPool.everSum_modify φ (hwf.pool.used_of_allocated _ (OrderPool.isCurrent_iff.1 hcur).2.1)

/-- A fill moves `φ` of the position on an instrument as it moves `ψ` of the order, and nothing else
moves either. -/
structure Tallies (inst : InstrumentId) (φ : Position → ℤ) (ψ : Order → ℤ) : Prop where
  keeps : ∀ {o o' : Order}, o.Keeps o' → ψ o' = ψ o
  stamp : ∀ req id now o, ψ (OrderRequest.stamp req id now o) = 0
  fill : ∀ qty price ts (o : Order) (p : Position), ψ (o.addFill qty price ts) = ψ o +
    if inst = o.instrument then φ (p.apply (signedQty o.side qty) price ts) - φ p else 0

/-- The tally of a position is that of every order ever created. -/
theorem Tallies.step {P : Policy} {φ : Position → ℤ} {ψ : Order → ℤ} (ht : Tallies inst φ ψ)
    (hwf : om.WF) (h : φ (om.position inst) = om.pool.everSum ψ) (hchange : Change P om om') :
    φ (om'.position inst) = om'.pool.everSum ψ := by
  have hkeep : ∀ id f, om.Live id → (∀ o : Order, o.Keeps (f o)) →
      φ (om.position inst) = (om.pool.modify (slotOf id) f).everSum ψ := by
    intro id f hlive hf
    rw [hwf.everSum_write hlive.current, ht.keeps (hf _), sub_add_cancel, h]
  cases hchange with
  | quiet d => exact h
  | forgive id => exact h
  | touch hlive hf => exact hkeep _ _ hlive hf.keeps
  | @fill id qty price trade ts hmoves haddr hok =>
    show φ ((om.positions.insert (om.orderRef id).instrument _).get inst) =
      (om.pool.modify (slotOf id) (Order.addFill qty price ts)).everSum ψ
    rw [hwf.everSum_write (validate_fill_ok_iff.1 hok).1, ← h, Finmap.get_insert,
      ht.fill qty price ts _ (om.position inst)]
    split_ifs with hinst
    · rw [← hinst]
      show φ ((om.position inst).apply (signedQty (om.orderRef id).side qty) price ts) = _
      ring
    · rw [add_zero, sub_add_cancel]
      rfl
  | settle hmoves hlive hf => exact hkeep _ _ hlive hf.keeps
  | expect haddr hended => exact h
  | shelve hended => exact h
  | releaseHead hfifo => exact h
  | @reserve _ req venue now id hreq hres =>
    obtain ⟨pool, hacq, -, rfl⟩ := hwf.reserve_cases hres
    show φ (Finmap.get (if req.instrument ∈ om.positions then om.positions
      else om.positions.insert req.instrument {}) inst) =
        (pool.modify (slotOf id) (req.stamp id now)).everSum ψ
    rw [OrderPool.everSum_acquire_modify _ hacq, ht.stamp, add_zero, ← h]
    split_ifs with hmem
    · rfl
    · by_cases hinst : inst = req.instrument
      · subst hinst
        rw [Finmap.get_insert_self, position, Finmap.get, Finmap.lookup_eq_none.2 hmem]
        rfl
      · rw [Finmap.get_insert_of_ne _ _ hinst]
        rfl

theorem net_tallies (inst : InstrumentId) : Tallies inst Position.net (filledQty inst) where
  keeps := fun h => h.filledQty
  stamp := fun req id now _ => filledQty_stamp req id now
  fill := fun qty price ts o p => by
    rw [filledQty_addFill, Position.net_apply, add_sub_cancel_left]

theorem netBalanced_step (hwf : om.WF) (h : NetBalanced om inst) (hchange : Change sized om om') :
    NetBalanced om' inst :=
  (net_tallies inst).step hwf h hchange

end Net

/-! ### Every run -/

section Runs

variable {W : Type} {E : Env W} {s : State W}

theorem Reached.bounded (hs : Reached E sized s) : Bounded s.om :=
  (hs.invariant bounded_init fun _ _ => bounded_step).2

theorem Reached.pendingBalanced (hs : Reached E sized s) (inst : InstrumentId) :
    PendingBalanced s.om inst := by
  refine (Reached.invariant (I := fun om => Bounded om ∧ PendingBalanced om inst) ?_ ?_ hs).2.2
  · intro capacity
    refine ⟨bounded_init capacity, ?_⟩
    show Finmap.get ∅ inst = _
    rw [Finmap.get_empty]
    exact (OrderPool.openSum_init _ capacity).symm
  · intro om om' hwf ⟨hbound, h⟩ hchange
    exact ⟨bounded_step hwf hbound hchange, pendingBalanced_step hwf hbound h hchange⟩

theorem Reached.tally {P : Policy} {inst : InstrumentId} {φ : Position → ℤ} {ψ : Order → ℤ}
    (ht : Tallies inst φ ψ) (hzero : φ 0 = 0) (hs : Reached E P s) :
    φ (s.om.position inst) = s.om.pool.everSum ψ := by
  refine (Reached.invariant (I := fun om => φ (om.position inst) = om.pool.everSum ψ) ?_ ?_ hs).2
  · intro capacity
    show φ (Finmap.get (∅ : Finmap fun _ : InstrumentId => Position) inst) = _
    rw [Finmap.get_empty, hzero]
    exact (OrderPool.everSum_init _ capacity).symm
  · intro om om' hwf h hchange
    exact ht.step hwf h hchange

theorem Reached.netBalanced (hs : Reached E sized s) (inst : InstrumentId) :
    NetBalanced s.om inst :=
  hs.tally (net_tallies inst) rfl

/-- The slots with a working order on an instrument. -/
def OrderPool.workingOn (p : OrderPool) (inst : InstrumentId) : Finset ℕ :=
  (Finset.range p.capacity).filter fun slot =>
    p.Working slot ∧ (p.slots slot).instrument = inst

theorem OrderPool.openSum_openQty (p : OrderPool) (inst : InstrumentId) :
    p.openSum (openQty inst) =
      ∑ slot ∈ p.workingOn inst, signedQty (p.slots slot).side (p.slots slot).remaining := by
  rw [workingOn, Finset.sum_filter]
  refine Finset.sum_congr rfl fun slot _ => ?_
  by_cases hw : p.Working slot
  · rw [openTerm_of_working _ hw, openQty]
    exact if_congr (by simp [hw]) rfl rfl
  · rw [openTerm_of_not_working _ hw, if_neg fun h => hw h.1]

/-- **The pending books balance**: after every run whose requests ask for a positive size, the
pending quantity of an instrument is the signed sum of what its working orders have open. -/
theorem pendingQuantity_eq_sum_working (hs : Reached E sized s) (inst : InstrumentId) :
    s.om.pendingQuantity inst = ∑ slot ∈ s.om.pool.workingOn inst,
      signedQty (s.om.pool.slots slot).side (s.om.pool.slots slot).remaining :=
  (hs.pendingBalanced inst).trans (OrderPool.openSum_openQty _ _)

end Runs

/-- An order that fills partially, a second one, and a late cancel of the first. -/
theorem pendingQuantity_acceptingRun :
    let om := (acceptingRun
      [.submit { instrument := 7, size := 10, price := 5 }, .fill 1 4 5 9 0,
        .submit { instrument := 7, side := .Sell, size := 3, price := 6 }, .cancelAck 1 0]).om
    om.pendingQuantity 7 = ∑ slot ∈ om.pool.workingOn 7,
      signedQty (om.pool.slots slot).side (om.pool.slots slot).remaining :=
  pendingQuantity_eq_sum_working
    (acceptingRun_reached trivial (by simp [sized]) fun _ _ => trivial) 7

end Oms
