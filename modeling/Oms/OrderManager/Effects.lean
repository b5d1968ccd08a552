import Oms.OrderManager.Issued
import Oms.OrderManager.View
import Oms.OrderManager.World

/-!
# What a handler does to the working orders

Each handler either leaves every view alone or changes it at one id.

* `Fills`, `Closes`, `Opens`: the three ways to change it;
* `onFill_cases`, `onReject_cases`, `finishCancel_cases`: an inbound event has its effect if it
  passes validation, and none otherwise;
* `onConfirm_idle`, `onCancelReject_idle`, `step_idle`: the others have none;
* `reserve_opens`, `unwind_idle`: a booked slot holds a new order; a failed send leaves no trace;
* `place_cases`: a submit that reaches the venue opens an order if the venue takes it.
-/

namespace Oms

open OrderManager Relation

/-- An order was filled by `qty`. -/
structure Fills (om om' : OrderManager) (id : OrderIdRaw) (qty : Quantity) (price : Price)
    (trade : TradeId) (ts : Timestamp) : Prop where
  view : ∀ {α : Type} (ν : Observation α), om'.view ν =
    Function.update (om.view ν) (om.orderRef id).internalId
      (if qty = (om.orderRef id).remaining then none
        else some (ν.see ((om.orderRef id).addFill qty price ts)
          ((om.applyFill id qty price trade ts).tradesOf (om.orderRef id).internalId)))
  position : ∀ inst, om'.position inst =
    if inst = (om.orderRef id).instrument then
      (om.position inst).apply (signedQty (om.orderRef id).side qty) price ts
    else om.position inst
  executed : ∀ offset index, om'.executed offset index = om.executed offset index +
    if (om.orderRef id).retrieveIntData offset = index then qty else 0
  trades : ∀ k ∈ om'.tradeIds, k = id ∨ k ∈ om.tradeIds

/-- The order of an id does not work any more. -/
structure Closes (om om' : OrderManager) (id : OrderIdRaw) : Prop where
  view : ∀ {α : Type} (ν : Observation α), om'.view ν = Function.update (om.view ν) id none
  position : ∀ inst, om'.position inst = om.position inst
  executed : ∀ offset index, om'.executed offset index = om.executed offset index
  trades : ∀ k ∈ om'.tradeIds, k ∈ om.tradeIds

/-- A new order works under an id. -/
structure Opens (om om' : OrderManager) (id : OrderIdRaw) (o : Order) : Prop where
  view : ∀ {α : Type} (ν : Observation α), om'.view ν =
    Function.update (om.view ν) id (some (ν.see o (om.tradesOf id)))
  position : ∀ inst, om'.position inst = om.position inst
  executed : ∀ offset index, om'.executed offset index = om.executed offset index
  trades : ∀ k ∈ om'.tradeIds, k ∈ om.tradeIds

section Effects

variable {om om₁ om' : OrderManager} {id : OrderIdRaw}

theorem Closes.idle (h : Closes om om₁ id) (h' : Idle om₁ om') : Closes om om' id where
  view := fun ν => (h'.view ν).trans (h.view ν)
  position := fun inst => (h'.position inst).trans (h.position inst)
  executed := fun offset index => (h'.executed offset index).trans (h.executed offset index)
  trades := fun k hk => h.trades k (h'.trades k hk)

theorem Fills.idle {qty : Quantity} {price : Price} {trade : TradeId} {ts : Timestamp}
    (h : Fills om om₁ id qty price trade ts) (h' : Idle om₁ om') :
    Fills om om' id qty price trade ts where
  view := fun ν => (h'.view ν).trans (h.view ν)
  position := fun inst => (h'.position inst).trans (h.position inst)
  executed := fun offset index => (h'.executed offset index).trans (h.executed offset index)
  trades := fun k hk => h.trades k (h'.trades k hk)

theorem Opens.idle {o : Order} (h : Opens om om₁ id o) (h' : Idle om₁ om') :
    Opens om om' id o where
  view := fun ν => (h'.view ν).trans (h.view ν)
  position := fun inst => (h'.position inst).trans (h.position inst)
  executed := fun offset index => (h'.executed offset index).trans (h.executed offset index)
  trades := fun k hk => h.trades k (h'.trades k hk)

/-- An order that is opened and closed at once leaves no trace. -/
theorem Opens.closes {o : Order} (h : Opens om om₁ id o) (h' : Closes om₁ om' id)
    (hfresh : ¬ om.Works id) : Idle om om' where
  view := fun ν => by
    rw [h'.view ν, h.view ν, Function.update_idem, Function.update_eq_self_iff]
    exact (view_of_not_works ν hfresh).symm
  position := fun inst => (h'.position inst).trans (h.position inst)
  executed := fun offset index => (h'.executed offset index).trans (h.executed offset index)
  trades := fun k hk => h.trades k (h'.trades k hk)

/-- Closing an order that does not work leaves the views alone. -/
theorem Idle.closes (h : Idle om om') (hnot : ¬ om.Works id) : Closes om om' id where
  view := fun ν => by
    rw [h.view ν, eq_comm, Function.update_eq_self_iff]
    exact (view_of_not_works ν hnot).symm
  position := h.position
  executed := h.executed
  trades := h.trades

theorem fills_applyFill (hwf : om.WF) (h : Stamped om) {qty : Quantity} {price : Price}
    {trade : TradeId} {ts : Timestamp} (hok : om.validate id ⟨.Fill, trade, qty, price⟩ = .Ok) :
    Fills om (om.applyFill id qty price trade ts) id qty price trade ts where
  view := fun ν => h.view_applyFill ν hok
  position := fun inst => by
    show (om.positions.insert _ _).get inst = _
    rw [Finmap.get_insert]
    split_ifs with hinst
    · rw [hinst]
      rfl
    · rfl
  executed := fun _ _ => hwf.executed_applyFill hok
  trades := fun k hk => by
    rcases Finmap.mem_insert.1 hk with heq | hk
    · exact Or.inl heq
    · exact Or.inr hk

/-- What follows an accepted fill is not seen. -/
theorem fills_fill (hwf : om.WF) (h : Stamped om) {qty : Quantity} {price : Price}
    {trade : TradeId} {ts : Timestamp} (hok : om.validate id ⟨.Fill, trade, qty, price⟩ = .Ok) :
    Fills om (om.fill id qty price trade ts) id qty price trade ts := by
  have happly : Change {} om (om.applyFill id qty price trade ts) := .fill trivial trivial hok
  have hfinish : Idle (om.applyFill id qty price trade ts) (om.fill id qty price trade ts) :=
    (finish_chain (P := still) hwf trivial hok).idle (happly.wf hwf) (stamped_step hwf h happly)
  exact (fills_applyFill hwf h hok).idle hfinish

/-- Closing and retiring a working order. -/
theorem closes_close (hwf : om.WF) (h : Stamped om) (hlive : om.Live id) {f : Order → Order}
    (hf : Order.Closing f) (hwrite : om' = (om.modifyOrder id f).withDiagnostics om')
    {inst : InstrumentId} {rem : Quantity} {side : Side}
    (hinst : (om.orderRef id).instrument = inst) (hrem : (om.orderRef id).remaining = rem)
    (hside : (om.orderRef id).side = side) :
    Closes om (om'.retire id inst rem side) (om.orderRef id).internalId := by
  have hsettle : Closes om (om.settle id f) (om.orderRef id).internalId :=
    ⟨fun ν => h.view_settle ν hlive hf, fun _ => rfl,
      fun _ _ => hwf.executed_write hlive hf.keeps rfl, fun _ hk => hk⟩
  exact hsettle.idle (idle_close hwf h hlive hf hwrite hinst hrem hside)

theorem opens_booked (hwf : om.WF) {req : OrderRequest} {venue : VenueId} {now : Timestamp}
    {pool : OrderPool} (hacq : om.pool.acquire = some (slotOf id, pool)) {seq : UInt16}
    (hid : id = encodeOrderId venue (om.pool.generation (slotOf id)) (UInt32.ofNat (slotOf id))
      seq) : Opens om (om.booked req venue now id pool) id (req.stamp id now {}) where
  view := fun ν => view_booked ν hwf hacq hid
  position := fun inst => by
    show Finmap.get (if req.instrument ∈ om.positions then om.positions
      else om.positions.insert req.instrument {}) inst = om.positions.get inst
    split_ifs with hmem
    · rfl
    · rw [Finmap.get_insert]
      split_ifs with hinst
      · rw [hinst, Finmap.get, Finmap.lookup_eq_none.2 hmem]
        rfl
      · rfl
  executed := fun _ _ => executed_booked hacq
  trades := fun _ hk => hk

end Effects

/-! ### Handlers -/

section Handlers

variable {W : Type} {E : Env W} {s : State W} {id : OrderIdRaw} {ts : Timestamp}
variable (hwf : s.om.WF) (h : Stamped s.om)

/-- A dropped event is not seen. -/
theorem dropEvent_idle (kind : EventKind) (vr : ValidationResult) :
    Idle s.om (s.dropEvent E id kind vr ts).om := .of_pool rfl rfl rfl

/-- A fill that is not accepted is not seen. -/
theorem onFill_not_ok {qty : Quantity} {price : Price} {trade : TradeId}
    (hok : s.om.validate id ⟨.Fill, trade, qty, price⟩ ≠ .Ok) :
    Idle s.om (s.onFill E id qty price trade ts).om := by
  by_cases hunk : s.om.validate id ⟨.Fill, trade, qty, price⟩ = .UnknownOrder
  · unfold State.onFill
    rw [hunk]
    dsimp only
    split_ifs
    · rw [tripKillSwitch_om]
      unfold OrderManager.tripKillSwitch
      split_ifs <;> exact .of_pool rfl rfl rfl
    · exact .of_pool rfl rfl rfl
  · rw [onFill_drop rfl hok hunk]
    exact dropEvent_idle _ _

include hwf h

theorem onFill_cases (id : OrderIdRaw) (qty : Quantity) (price : Price) (trade : TradeId)
    (ts : Timestamp) :
    s.om.validate id ⟨.Fill, trade, qty, price⟩ = .Ok ∧
        Fills s.om (s.onFill E id qty price trade ts).om id qty price trade ts ∨
      s.om.validate id ⟨.Fill, trade, qty, price⟩ ≠ .Ok ∧
        Idle s.om (s.onFill E id qty price trade ts).om := by
  by_cases hok : s.om.validate id ⟨.Fill, trade, qty, price⟩ = .Ok
  · refine Or.inl ⟨hok, ?_⟩
    rw [onFill_ok_om hok]
    exact fills_fill hwf h hok
  · exact Or.inr ⟨hok, onFill_not_ok hok⟩

theorem onReject_cases (id : OrderIdRaw) {reason : RejectReason}
    (hreason : reason ≠ .CancelRejected) (ts : Timestamp) :
    s.om.Live id ∧ Closes s.om (s.onReject E id reason ts).om (s.om.orderRef id).internalId ∨
      ¬ s.om.Live id ∧ Idle s.om (s.onReject E id reason ts).om := by
  by_cases hok : s.om.validate id { kind := .Reject } = .Ok
  · obtain ⟨hcur, hopen⟩ := (validate_ok_iff (by decide)).1 hok
    have hclosing := Order.reject_closing ts
    have hkeeps := modifyOrder_keeps s.om id hclosing
    refine Or.inl ⟨⟨hcur, hopen⟩, ?_⟩
    unfold State.onReject
    rw [if_neg hreason, hok]
    exact closes_close hwf h ⟨hcur, hopen⟩ hclosing rfl hkeeps.instrument.symm rfl hkeeps.side.symm
  · refine Or.inr ⟨fun hlive => hok ((validate_ok_iff (by decide)).2 ?_), ?_⟩
    · exact ⟨hlive.current, hlive.isOpen⟩
    · rw [onReject_drop hreason rfl hok]
      exact dropEvent_idle _ _

theorem finishCancel_cases (id : OrderIdRaw) {kind : EventKind} (hkind : kind ≠ .Fill)
    (pub : OrderEventKind) (unsolicited : Bool) (ts : Timestamp) :
    s.om.Live id ∧ Closes s.om (s.finishCancel E id ts kind pub unsolicited).om
        (s.om.orderRef id).internalId ∨
      ¬ s.om.Live id ∧ Idle s.om (s.finishCancel E id ts kind pub unsolicited).om := by
  by_cases hok : s.om.validate id { kind := kind } = .Ok
  · obtain ⟨hcur, hopen⟩ := (validate_ok_iff hkind).1 hok
    have hclosing := Order.cancelled_closing ts
    have hkeeps := modifyOrder_keeps s.om id hclosing
    refine Or.inl ⟨⟨hcur, hopen⟩, ?_⟩
    unfold State.finishCancel
    rw [hok]
    cases unsolicited
    · exact closes_close hwf h ⟨hcur, hopen⟩ hclosing rfl hkeeps.instrument.symm rfl
        hkeeps.side.symm
    · exact closes_close hwf h ⟨hcur, hopen⟩ hclosing rfl hkeeps.instrument.symm rfl
        hkeeps.side.symm
  · refine Or.inr ⟨fun hlive => hok ((validate_ok_iff hkind).2 ?_), ?_⟩
    · exact ⟨hlive.current, hlive.isOpen⟩
    · rw [finishCancel_drop rfl hok]
      exact dropEvent_idle _ _

theorem onConfirm_idle (exchId : ExchangeOrderId) :
    Idle s.om (s.onConfirm E id exchId ts).om := (onConfirm_chain exchId).idle hwf h

theorem onCancelReject_idle : Idle s.om (s.onReject E id .CancelRejected ts).om := by
  unfold State.onReject
  exact onCancelReject_chain.idle hwf h

/-- An operation that is no submit and no inbound event is not seen. -/
theorem step_idle {op : Op} (hinbound : op.inboundId = none) (hsubmit : ∀ req, op ≠ .submit req) :
    Idle s.om (s.step E op).om := by
  refine Chain.idle (step_changes hwf ⟨fun req hreq => absurd hreq (hsubmit req), ?_⟩) hwf h
  intro id hid
  rw [hinbound] at hid
  cases hid

end Handlers

/-! ### Placing -/

section Placing

variable {W : Type} {E : Env W} {s : State W} {om om₁ om' : OrderManager} {id : OrderIdRaw}
  {req : OrderRequest} {venue : VenueId} {now : Timestamp}

/-- A slot that is booked holds a new order. -/
theorem reserve_opens (hwf : om.WF) (hres : om.reserve req venue now = some (id, om')) :
    Opens om om' id (req.stamp id now {}) ∧ om'.Live id ∧ ¬ om.Works id ∧
      om'.orderRef id = req.stamp id now {} := by
  obtain ⟨pool, hacq, hid, rfl⟩ := hwf.reserve_cases hres
  refine ⟨opens_booked hwf hacq hid, hwf.booked_live hacq hid,
    not_works_of_acquire hwf hacq rfl, ?_⟩
  rw [booked_orderRef, (OrderPool.acquire_slot hacq).2.1]

/-- An order whose send fails is opened and closed at once. -/
theorem unwind_idle (hwf : om.WF) (h : Stamped om)
    (hres : om.reserve req venue now = some (id, om₁))
    (hwrite : om' = (om₁.modifyOrder id Order.failSend).withDiagnostics om') :
    Idle om (om'.retire id req.instrument req.size req.side) := by
  obtain ⟨hopens, hlive, hfresh, href⟩ := reserve_opens hwf hres
  have hbook := Change.reserve (P := {}) trivial hres
  have hcloses : Closes om₁ (om'.retire id req.instrument req.size req.side)
      (om₁.orderRef id).internalId := by
    refine closes_close (hbook.wf hwf) (stamped_step hwf h hbook) hlive Order.failSend_closing
      hwrite ?_ ?_ ?_
    · rw [href]
      rfl
    · rw [href]
      exact sub_zero _
    · rw [href]
      rfl
  rw [href] at hcloses
  exact hopens.closes hcloses hfresh

/-- An order that reaches the venue is opened if the venue takes it. Otherwise it leaves no
trace. -/
theorem place_cases (hwf : s.om.WF) (h : Stamped s.om) (req : OrderRequest) (venue : VenueId)
    (ex : ExchangeClient W)
    (hfree : s.om.pool.inUse < s.om.pool.capacity) :
    ∃ id pool, s.om.pool.acquire = some (slotOf id, pool) ∧
      id = encodeOrderId venue (s.om.pool.generation (slotOf id)) (UInt32.ofNat (slotOf id))
        (s.om.venueSeq.get venue + 1).toUInt16 ∧
      let o := req.stamp id (E.clock s.world) {}
      ((ex.placeOrder o s.world).1 = .Ok ∧
          (s.place E req venue ex).1 = id ∧ Opens s.om (s.place E req venue ex).2.om id o ∧
          Chain {} (s.om.booked req venue (E.clock s.world) id pool) (s.place E req venue ex).2.om ∧
          (s.place E req venue ex).2.world =
            E.health.onOrderSent venue (E.clock s.world) (ex.placeOrder o s.world).2 ∨
        (ex.placeOrder o s.world).1 ≠ .Ok ∧
          (s.place E req venue ex).1 = 0 ∧ Idle s.om (s.place E req venue ex).2.om ∧
          ∃ line, (s.place E req venue ex).2.world =
            E.log .Warn line (E.health.onReject venue false
              (E.health.onOrderSent venue (E.clock s.world) (ex.placeOrder o s.world).2))) := by
  obtain ⟨id, om', hres⟩ := hwf.exists_reserve hfree req venue (E.clock s.world)
  obtain ⟨hopens, hlive, -, href⟩ := reserve_opens hwf hres
  have hbook := Change.reserve (P := {}) trivial hres
  have hwf' := hbook.wf hwf
  have hstamped' := stamped_step hwf h hbook
  obtain ⟨pool, hacq, hid, rfl⟩ := hwf.reserve_cases hres
  refine ⟨id, pool, hacq, hid, ?_⟩
  dsimp only
  unfold State.place
  dsimp only
  rw [hres]
  dsimp only
  rw [href]
  by_cases hok : (ex.placeOrder (req.stamp id (E.clock s.world) {}) s.world).1 = .Ok
  · refine Or.inl ⟨hok, ?_⟩
    rw [if_pos hok]
    have htouch : ∀ P : Policy, Chain P (s.om.booked req venue (E.clock s.world) id pool)
        ((s.om.booked req venue (E.clock s.world) id pool).modifyOrder id
          (Order.markSent (E.clock s.world))) := fun P =>
      .single (.touch hlive (Order.markSent_touch _))
    exact ⟨rfl, hopens.idle ((htouch still).idle hwf' hstamped'), htouch {}, rfl⟩
  · refine Or.inr ⟨hok, ?_⟩
    rw [if_neg hok]
    exact ⟨rfl, unwind_idle hwf h hres rfl, _, rfl⟩

end Placing

end Oms
