import Oms.OrderManager.Fills
import Oms.OrderManager.Identity

/-!
# Working orders by id

What another component can see of the working orders, as a function of their ids, and what every
change does to it.

* `Observation`, `OrderManager.view`: a value for the id of each working order;
* `Stamped.view_write`, `view_applyFill`, `view_settle`, `view_booked`: a fill, an end and a new
  order change the view at one id;
* `OrderManager.executed`: what the orders with a tag filled;
* `Idle`, `Chain.idle`: a chain that books, fills and closes nothing leaves every view alone.
-/

namespace Oms

open OrderManager Relation

/-- Something to see of an order and its trade ids, which only a fill changes. -/
structure Observation (α : Type) where
  see : Order → Finset TradeId → α
  keeps : ∀ {o o' : Order} (trades : Finset TradeId), o.Keeps o' → see o' trades = see o trades

namespace OrderManager

/-- `id` is the id of a working order. -/
structure Works (om : OrderManager) (id : OrderIdRaw) : Prop where
  live : om.Live id
  own : (om.orderRef id).internalId = id

theorem works_iff {om : OrderManager} {id : OrderIdRaw} :
    om.Works id ↔ om.pool.isCurrent id = true ∧ (om.orderRef id).Open ∧
      (om.orderRef id).internalId = id :=
  ⟨fun h => ⟨h.live.current, h.live.isOpen, h.own⟩, fun h => ⟨⟨h.1, h.2.1⟩, h.2.2⟩⟩

instance (om : OrderManager) (id : OrderIdRaw) : Decidable (om.Works id) :=
  decidable_of_iff _ works_iff.symm

/-- What is seen of the working order of an id. -/
def view {α : Type} (om : OrderManager) (ν : Observation α) (id : OrderIdRaw) : Option α :=
  if om.Works id then some (ν.see (om.orderRef id) (om.tradesOf id)) else none

end OrderManager

section View

variable {α : Type} (ν : Observation α) {om om' : OrderManager} {id k : OrderIdRaw}
  {f : Order → Order}

theorem view_of_works (h : om.Works id) :
    om.view ν id = some (ν.see (om.orderRef id) (om.tradesOf id)) := if_pos h

theorem view_of_not_works (h : ¬ om.Works id) : om.view ν id = none := if_neg h

/-- In a fresh manager no id works. -/
theorem not_works_init (capacity : PoolCapacity) (id : OrderIdRaw) :
    ¬ (OrderManager.init capacity).Works id := fun h => nomatch h.live.allocated

/-- Ids that work alike and are seen alike have the same view. -/
theorem view_congr (hworks : om'.Works k ↔ om.Works k)
    (hsee : om.Works k → om'.orderRef k = om.orderRef k ∧ om'.tradesOf k = om.tradesOf k) :
    om'.view ν k = om.view ν k := by
  by_cases h : om.Works k
  · rw [view_of_works ν h, view_of_works ν (hworks.2 h), (hsee h).1, (hsee h).2]
  · rw [view_of_not_works ν h, view_of_not_works ν (mt hworks.1 h)]

/-- Views read the pool, and the trade ids of the orders that work. -/
theorem view_of_pool (hpool : om'.pool = om.pool)
    (htrades : ∀ k, om.Works k → om'.tradesOf k = om.tradesOf k) : om'.view ν = om.view ν := by
  funext k
  have href : om'.orderRef k = om.orderRef k := by rw [orderRef, hpool, orderRef]
  refine view_congr ν ?_ fun hw => ⟨href, htrades k hw⟩
  rw [works_iff, works_iff, hpool, href]

section Stored

variable (h : Stamped om) (hlive : om.Live id)
include h hlive

theorem Stamped.slotOf_internalId : slotOf (om.orderRef id).internalId = slotOf id :=
  (h _ hlive.allocated).1

theorem Stamped.orderRef_internalId : om.orderRef (om.orderRef id).internalId = om.orderRef id :=
  congrArg om.pool.slots (h.slotOf_internalId hlive)

/-- The id stored in a slot with a working order works. -/
theorem Stamped.works : om.Works (om.orderRef id).internalId := by
  obtain ⟨hlt, halloc, hgen⟩ := OrderPool.isCurrent_iff.1 hlive.current
  have hslot := h.slotOf_internalId hlive
  have href := h.orderRef_internalId hlive
  refine works_iff.2 ⟨?_, ?_, ?_⟩
  · rw [OrderPool.isCurrent_iff, hslot]
    exact ⟨hlt, halloc, (h _ halloc).2.symm⟩
  · rw [href]
    exact hlive.isOpen
  · rw [href]

end Stored

/-- An id that shares its slot with a stored id and works is that id. -/
theorem OrderManager.Works.eq_of_slot (h : om.Works k) (hslot : slotOf k = slotOf id) :
    k = (om.orderRef id).internalId := by
  rw [← h.own, orderRef, orderRef, hslot]

/-- The id of a working order works. -/
theorem Stamped.works_slot (h : Stamped om) (hwf : om.WF) {slot : ℕ} (hw : om.pool.Working slot) :
    om.Works (om.pool.slots slot).internalId := by
  obtain ⟨hslot, hgen⟩ := h slot hw.1
  refine works_iff.2 ⟨?_, ?_, ?_⟩
  · rw [OrderPool.isCurrent_iff, hslot]
    exact ⟨hwf.pool.allocated_lt slot hw.1, hw.1, hgen.symm⟩
  · rw [orderRef, hslot]
    exact hw.2
  · rw [orderRef, hslot]

/-- The working orders of the pool are those of the ids that work. -/
theorem Stamped.openSum_eq_sum {M : Type*} [AddCommGroup M] (h : Stamped om) (hwf : om.WF)
    (ψ : Order → M) {ids : Finset OrderIdRaw} (hids : ∀ id, om.Works id → id ∈ ids) :
    om.pool.openSum ψ = ∑ id ∈ ids, if om.Works id then ψ (om.orderRef id) else 0 := by
  have hslotOf : ∀ {slot}, om.pool.Working slot → slotOf (om.pool.slots slot).internalId = slot :=
    fun hw => (h _ hw.1).1
  unfold OrderPool.openSum OrderPool.openTerm
  rw [← Finset.sum_filter, ← Finset.sum_filter]
  refine Finset.sum_bij' (fun slot _ => (om.pool.slots slot).internalId) (fun id _ => slotOf id)
    (fun slot hslot => ?_) (fun id hid => ?_) (fun slot hslot => ?_) (fun id hid => ?_)
    fun slot hslot => ?_
  · have hw := h.works_slot hwf (Finset.mem_filter.1 hslot).2
    exact Finset.mem_filter.2 ⟨hids _ hw, hw⟩
  · obtain ⟨hcur, hopen, -⟩ := works_iff.1 (Finset.mem_filter.1 hid).2
    obtain ⟨hlt, halloc, -⟩ := OrderPool.isCurrent_iff.1 hcur
    exact Finset.mem_filter.2 ⟨Finset.mem_range.2 hlt, halloc, hopen⟩
  · exact hslotOf (Finset.mem_filter.1 hslot).2
  · exact (Finset.mem_filter.1 hid).2.own
  · rw [orderRef, hslotOf (Finset.mem_filter.1 hslot).2]

/-- Writing a working order changes the view at its id. -/
theorem Stamped.view_write (h : Stamped om) (hlive : om.Live id)
    (hf : ∀ o : Order, (f o).internalId = o.internalId)
    (hpool : om'.pool = om.pool.modify (slotOf id) f)
    (htrades : ∀ k, k ≠ (om.orderRef id).internalId → om.Works k →
      om'.tradesOf k = om.tradesOf k) :
    om'.view ν = Function.update (om.view ν) (om.orderRef id).internalId
      (if (f (om.orderRef id)).Open then
        some (ν.see (f (om.orderRef id)) (om'.tradesOf (om.orderRef id).internalId))
      else none) := by
  have hown := h.works hlive
  have hslot := h.slotOf_internalId hlive
  have hcur : ∀ k, om'.pool.isCurrent k = om.pool.isCurrent k := fun k => by
    rw [hpool, OrderPool.isCurrent_modify]
  have href : ∀ k, slotOf k = slotOf id → om'.orderRef k = f (om.orderRef id) := fun k hk => by
    rw [orderRef, hpool, hk, OrderPool.modify_slots_self]
    rfl
  funext k
  by_cases hk : k = (om.orderRef id).internalId
  · subst hk
    rw [Function.update_self, view, href _ hslot]
    refine if_congr ?_ rfl rfl
    rw [works_iff, hcur, href _ hslot, hf]
    exact ⟨fun hw => hw.2.1, fun hopen => ⟨hown.live.current, hopen, rfl⟩⟩
  · rw [Function.update_of_ne hk]
    by_cases hkslot : slotOf k = slotOf id
    · -- the slot is that of another id
      rw [view_of_not_works ν fun hw => hk (hw.eq_of_slot hkslot), view_of_not_works]
      intro hw
      refine hk ?_
      rw [← hw.own, href _ hkslot, hf]
    · have hsame : om'.orderRef k = om.orderRef k := by
        rw [orderRef, hpool, OrderPool.modify_slots_of_ne hkslot]
        rfl
      refine view_congr ν ?_ fun hw => ⟨hsame, htrades k hk hw⟩
      rw [works_iff, works_iff, hcur, hsame]

/-! ### What was filled -/

/-- What the order filled, if it carries a tag. -/
def taggedFill (offset : ScratchOffset) (index : ℤ) (o : Order) : Quantity :=
  if o.retrieveIntData offset = index then o.filledSize else 0

/-- What the orders with a tag filled, those that ended included. -/
def OrderManager.executed (om : OrderManager) (offset : ScratchOffset) (index : ℤ) : Quantity :=
  om.pool.everSum (taggedFill offset index)

section Executed

variable {offset : ScratchOffset} {index : ℤ}

theorem Order.Keeps.taggedFill {o o' : Order} (h : o.Keeps o') :
    Oms.taggedFill offset index o' = Oms.taggedFill offset index o := by
  rw [Oms.taggedFill, Oms.taggedFill, retrieveIntData, retrieveIntData, h.intData, h.filledSize]

theorem taggedFill_addFill (qty : Quantity) (price : Price) (ts : Timestamp) (o : Order) :
    taggedFill offset index (o.addFill qty price ts) =
      taggedFill offset index o + if o.retrieveIntData offset = index then qty else 0 := by
  unfold taggedFill
  show (if o.retrieveIntData offset = index then o.filledSize + qty else 0) = _
  split_ifs
  · rfl
  · rfl

theorem OrderManager.WF.executed_write (hwf : om.WF) (hlive : om.Live id)
    (hf : ∀ o : Order, o.Keeps (f o)) (hpool : om'.pool = om.pool.modify (slotOf id) f) :
    om'.executed offset index = om.executed offset index := by
  rw [executed, hpool, hwf.everSum_write hlive.current, (hf _).taggedFill, sub_add_cancel]
  rfl

theorem OrderManager.WF.executed_applyFill (hwf : om.WF) {qty : Quantity} {price : Price}
    {trade : TradeId} {ts : Timestamp} (hok : om.validate id ⟨.Fill, trade, qty, price⟩ = .Ok) :
    (om.applyFill id qty price trade ts).executed offset index =
      om.executed offset index +
        if (om.orderRef id).retrieveIntData offset = index then qty else 0 := by
  show (om.pool.modify (slotOf id) (Order.addFill qty price ts)).everSum _ = _
  rw [hwf.everSum_write (validate_fill_ok_iff.1 hok).1, taggedFill_addFill, executed]
  abel

/-- A new order has filled nothing. -/
theorem executed_booked {req : OrderRequest} {venue : VenueId} {now : Timestamp} {pool : OrderPool}
    (hacq : om.pool.acquire = some (slotOf id, pool)) :
    (om.booked req venue now id pool).executed offset index = om.executed offset index := by
  show (pool.modify (slotOf id) (req.stamp id now)).everSum _ = _
  have hnew : taggedFill offset index (req.stamp id now {}) = 0 := by
    unfold taggedFill
    exact ite_self _
  rw [OrderPool.everSum_acquire_modify _ hacq, hnew, add_zero]
  rfl

end Executed

/-! ### Changes that leave views alone -/

/-- A write that leaves a working order working. -/
theorem Stamped.view_touch (h : Stamped om) (hlive : om.Live id) (hf : Order.Touch f) :
    (om.modifyOrder id f).view ν = om.view ν := by
  have hwrite : (om.modifyOrder id f).view ν = _ :=
    h.view_write ν hlive (fun o => (hf.keeps o).internalId) rfl fun _ _ _ => rfl
  rw [hwrite, if_pos (hf.stays_open _ hlive.isOpen), ν.keeps _ (hf.keeps _)]
  rw [Function.update_eq_self_iff, view_of_works ν (h.works hlive), h.orderRef_internalId hlive]
  rfl

/-- An order that has ended is not seen, so its trade ids may go. -/
theorem view_shelve (hended : om.Ended id) : (om.shelve id).view ν = om.view ν := by
  refine view_of_pool ν rfl fun k hw => tradesOf_shelve_of_ne ?_
  rintro rfl
  exact hended.not_open hw.live.isOpen

/-- The slot at the head of the grace window holds no working order. -/
theorem view_releaseHead (h : om.WF) {old : OrderIdRaw} {rest : List OrderIdRaw}
    (hfifo : om.retiredFifo = old :: rest) : (om.releaseHead old rest).view ν = om.view ν := by
  have hclosed := h.fifo_not_open old (by rw [hfifo]; exact List.mem_cons_self)
  funext k
  by_cases hslot : slotOf k = slotOf old
  · have hnot : ¬ om.Works k := fun hw => by
      have hopen := hw.live.isOpen
      rw [orderRef, hslot] at hopen
      exact hclosed hopen
    rw [view_of_not_works ν hnot, view_of_not_works]
    intro hw
    have halloc := hw.live.allocated
    simp [OrderManager.releaseHead, hslot] at halloc
  · refine view_congr ν ?_ fun _ => ⟨rfl, rfl⟩
    have hcur : (om.releaseHead old rest).pool.isCurrent k = om.pool.isCurrent k :=
      OrderPool.isCurrent_release hslot
    rw [works_iff, works_iff, hcur]
    rfl

/-- The views, the positions and what was filled are the same, and no trade ids were added. -/
structure Idle (om om' : OrderManager) : Prop where
  view : ∀ {α : Type} (ν : Observation α), om'.view ν = om.view ν
  position : ∀ inst, om'.position inst = om.position inst
  executed : ∀ offset index, om'.executed offset index = om.executed offset index
  trades : ∀ id ∈ om'.tradeIds, id ∈ om.tradeIds

theorem Idle.refl (om : OrderManager) : Idle om om :=
  ⟨fun _ => rfl, fun _ => rfl, fun _ _ => rfl, fun _ h => h⟩

/-- Flags, counters, texts and the other indices are not seen. -/
theorem Idle.of_pool (hpool : om'.pool = om.pool) (hpositions : om'.positions = om.positions)
    (htrades : om'.tradeIds = om.tradeIds) : Idle om om' where
  view := fun ν => view_of_pool ν hpool fun k _ => by
    rw [OrderManager.tradesOf, htrades, OrderManager.tradesOf]
  position := fun inst => by rw [OrderManager.position, hpositions, OrderManager.position]
  executed := fun offset index => by rw [OrderManager.executed, hpool, OrderManager.executed]
  trades := fun id hid => htrades ▸ hid

theorem Idle.trans {om'' : OrderManager} (h : Idle om om') (h' : Idle om' om'') : Idle om om'' where
  view := fun ν => (h'.view ν).trans (h.view ν)
  position := fun inst => (h'.position inst).trans (h.position inst)
  executed := fun offset index => (h'.executed offset index).trans (h.executed offset index)
  trades := fun id hid => h.trades id (h'.trades id hid)

theorem Change.idle (hchange : Change still om om') (hwf : om.WF) (h : Stamped om) :
    Idle om om' := by
  cases hchange with
  | quiet d => exact .of_pool rfl rfl rfl
  | forgive id => exact .of_pool rfl rfl rfl
  | touch hlive hf =>
    exact ⟨fun ν => h.view_touch ν hlive hf, fun _ => rfl,
      fun _ _ => hwf.executed_write hlive hf.keeps rfl, fun _ hid => hid⟩
  | fill hmoves haddr hok => exact hmoves.elim
  | settle hmoves hlive hf => exact hmoves.elim
  | expect haddr hended => exact .of_pool rfl rfl rfl
  | shelve hended =>
    exact ⟨fun ν => view_shelve ν hended, fun _ => rfl, fun _ _ => rfl,
      fun id hid => (Finmap.mem_erase.1 hid).2⟩
  | releaseHead hfifo =>
    exact ⟨fun ν => view_releaseHead ν hwf hfifo, fun _ => rfl, fun _ _ => rfl, fun _ hid => hid⟩
  | reserve hreq hres => exact hreq.elim

/-- A chain that books, fills and closes nothing leaves every view alone. -/
theorem Chain.idle (hchain : Chain still om om') (hwf : om.WF) (h : Stamped om) : Idle om om' := by
  refine (Chain.invariant (I := fun om' => Stamped om' ∧ Idle om om') ?_ hchain hwf
    ⟨h, .refl om⟩).2.2
  intro om₁ om₂ hwf₁ ⟨hstamped, hidle⟩ hchange
  exact ⟨stamped_step hwf₁ hstamped hchange, hidle.trans (hchange.idle hwf₁ hstamped)⟩

/-! ### Fills, ends, new orders -/

/-- An accepted fill moves the order of its id on, or takes it away when it was the last one. -/
theorem Stamped.view_applyFill (h : Stamped om) {qty : Quantity} {price : Price} {trade : TradeId}
    {ts : Timestamp} (hok : om.validate id ⟨.Fill, trade, qty, price⟩ = .Ok) :
    (om.applyFill id qty price trade ts).view ν =
      Function.update (om.view ν) (om.orderRef id).internalId
        (if qty = (om.orderRef id).remaining then none
          else some (ν.see ((om.orderRef id).addFill qty price ts)
            ((om.applyFill id qty price trade ts).tradesOf (om.orderRef id).internalId))) := by
  obtain ⟨hcur, hopen, -⟩ := validate_fill_ok_iff.1 hok
  have hlive : om.Live id := ⟨hcur, hopen⟩
  refine (h.view_write (f := Order.addFill qty price ts) ν hlive (fun _ => rfl) rfl ?_).trans ?_
  · intro k hk hw
    rw [tradesOf_applyFill, if_neg]
    rintro rfl
    exact hk hw.own.symm
  · congr 1
    by_cases hfull : qty = (om.orderRef id).remaining
    · rw [if_pos hfull, if_neg]
      rw [Order.addFill_open_iff, not_not, hfull, Order.remaining]
      ring
    · rw [if_neg hfull, if_pos]
      rw [Order.addFill_open_iff]
      intro hsize
      refine hfull ?_
      rw [Order.remaining, ← hsize]
      ring

/-- The end of a working order takes it out of the view. -/
theorem Stamped.view_settle (h : Stamped om) (hlive : om.Live id) (hf : Order.Closing f) :
    (om.settle id f).view ν = Function.update (om.view ν) (om.orderRef id).internalId none := by
  have hwrite : (om.settle id f).view ν = _ :=
    h.view_write (f := f) ν hlive (fun o => (hf.keeps o).internalId) rfl fun _ _ _ => rfl
  rw [hwrite, if_neg (hf.not_open _)]

/-- Closing and retiring a working order. -/
theorem idle_close (hwf : om.WF) (h : Stamped om) (hlive : om.Live id) (hf : Order.Closing f)
    (hwrite : om' = (om.modifyOrder id f).withDiagnostics om') {inst : InstrumentId}
    {rem : Quantity} {side : Side} (hinst : (om.orderRef id).instrument = inst)
    (hrem : (om.orderRef id).remaining = rem) (hside : (om.orderRef id).side = side) :
    Idle (om.settle id f) (om'.retire id inst rem side) := by
  have hquiet : Change {} om (om.withDiagnostics om') := .quiet om om'
  have hlive' : (om.withDiagnostics om').Live id := ⟨hlive.current, hlive.isOpen⟩
  have hsettle : Change {} _ ((om.withDiagnostics om').settle id f) := .settle trivial hlive' hf
  have hwf' := hquiet.wf hwf
  have hstamped' := stamped_step hwf h hquiet
  have hdiag : Idle (om.settle id f) ((om.withDiagnostics om').settle id f) := .of_pool rfl rfl rfl
  exact hdiag.trans ((close_split hwf hlive hf hwrite hinst hrem hside).idle (hsettle.wf hwf')
    (stamped_step hwf' hstamped' hsettle))

section Reserve

variable {req : OrderRequest} {venue : VenueId} {now : Timestamp} {pool : OrderPool}

/-- A slot that was free held no working order. -/
theorem not_works_of_acquire (hwf : om.WF) (hacq : om.pool.acquire = some (slotOf id, pool))
    (hslot : slotOf k = slotOf id) : ¬ om.Works k := by
  intro hw
  have halloc := hw.live.allocated
  rw [hslot, (hwf.pool.acquire_free hacq).2] at halloc
  cases halloc

/-- A new order appears under its id. -/
theorem view_booked (hwf : om.WF) (hacq : om.pool.acquire = some (slotOf id, pool)) {seq : UInt16}
    (hid : id = encodeOrderId venue (om.pool.generation (slotOf id)) (UInt32.ofNat (slotOf id))
      seq) :
    (om.booked req venue now id pool).view ν =
      Function.update (om.view ν) id (some (ν.see (req.stamp id now {}) (om.tradesOf id))) := by
  have hlive : (om.booked req venue now id pool).Live id := hwf.booked_live hacq hid
  have hfresh := (OrderPool.acquire_slot hacq).2.1
  have href : (om.booked req venue now id pool).orderRef id = req.stamp id now {} := by
    rw [booked_orderRef, hfresh]
  funext k
  by_cases hk : k = id
  · subst hk
    rw [Function.update_self, view_of_works ν ⟨hlive, ?_⟩, href]
    · rfl
    · rw [href]
      rfl
  · rw [Function.update_of_ne hk]
    by_cases hslot : slotOf k = slotOf id
    · rw [view_of_not_works ν (not_works_of_acquire hwf hacq hslot), view_of_not_works]
      intro hw
      refine hk ?_
      rw [hw.eq_of_slot hslot, href]
      rfl
    · obtain ⟨rest, -, hpool⟩ := OrderPool.acquire_cases hacq
      have hsame : (om.booked req venue now id pool).orderRef k = om.orderRef k := by
        simp [orderRef, booked, OrderPool.modify, hslot, hpool]
      refine view_congr ν ?_ fun _ => ⟨hsame, rfl⟩
      rw [works_iff, works_iff, hsame, OrderPool.isCurrent_iff, OrderPool.isCurrent_iff]
      simp [booked, hslot, hpool]

end Reserve

end View

end Oms
