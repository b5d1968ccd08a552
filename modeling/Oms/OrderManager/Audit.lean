import Mathlib.Tactic.Linarith
import Oms.OrderManager.Books
import Oms.OrderManager.World

/-!
# The counters of the manager audited

The manager counts what goes wrong, reports to the health model, and publishes events. Beside it an
auditor counts every order that is sent, every report and every event.

* `Audit`, `Env.audited`: the auditor;
* `OrderManager.workingOrders`: the number of working orders, and what each change does to it;
* `Audited`: the counters agree; `step_accounts`: so they do after every operation;
* `counters_agree`: over every run each order that was sent was refused, has ended or is working,
  and each inbound event was applied, or counted as dropped or benign.
-/

namespace Oms

open OrderManager Relation

/-! ### The auditor -/

/-- What was sent to the venues, reported to health, and published, by kind. -/
structure Audit where
  sent : ℕ := 0
  refused : ℕ := 0
  acks : ℕ := 0
  rejects : ℕ := 0
  benign : ℕ := 0
  fills : ℕ := 0
  timeouts : ℕ := 0
  confirmed : ℕ := 0
  partlyFilled : ℕ := 0
  filled : ℕ := 0
  rejected : ℕ := 0
  cancelled : ℕ := 0
  unsolicited : ℕ := 0

/-- Count an event. -/
def Audit.publish (a : Audit) : OrderEventKind → Audit
  | .Confirmed => { a with confirmed := a.confirmed + 1 }
  | .PartialFill => { a with partlyFilled := a.partlyFilled + 1 }
  | .Fill => { a with filled := a.filled + 1 }
  | .Rejected => { a with rejected := a.rejected + 1 }
  | .Cancelled => { a with cancelled := a.cancelled + 1 }
  | .UnsolicitedCancel => { a with unsolicited := a.unsolicited + 1 }

/-- Count a reject that health is told of. -/
def Audit.reject (a : Audit) (benign : Bool) : Audit :=
  if benign then { a with benign := a.benign + 1 } else { a with rejects := a.rejects + 1 }

/-- Count an order that was sent. -/
def Audit.send (a : Audit) (r : SendResult) : Audit :=
  { a with sent := a.sent + 1, refused := if r = .Ok then a.refused else a.refused + 1 }

section Auditor

variable {W : Type}

/-- A client beside an auditor, who counts what it is sent. -/
def ExchangeClient.audited (ex : ExchangeClient W) : ExchangeClient (W × Audit) where
  placeOrder := fun o w => ((ex.placeOrder o w.1).1, (ex.placeOrder o w.1).2,
    w.2.send (ex.placeOrder o w.1).1)
  cancelOrder := fun id exchId w => ((ex.cancelOrder id exchId w.1).1,
    (ex.cancelOrder id exchId w.1).2, w.2)
  getPositions := fun w => ((ex.getPositions w.1).1, (ex.getPositions w.1).2, w.2)
  getOrderBook := fun inst w => ((ex.getOrderBook inst w.1).1, (ex.getOrderBook inst w.1).2, w.2)
  isConnected := fun w => ex.isConnected w.1

/-- The same world, beside an auditor. -/
def Env.audited (E : Env W) : Env (W × Audit) where
  registry := ⟨E.registry.byVenue.map (Option.map .audited)⟩
  router := ⟨fun inst side qty w => ((E.router.select inst side qty w.1).1,
    (E.router.select inst side qty w.1).2, w.2)⟩
  health :=
    { onOrderSent := fun venue now w => (E.health.onOrderSent venue now w.1, w.2)
      onAck := fun venue latency w =>
        (E.health.onAck venue latency w.1, { w.2 with acks := w.2.acks + 1 })
      onReject := fun venue benign w => (E.health.onReject venue benign w.1, w.2.reject benign)
      onFill := fun venue w => (E.health.onFill venue w.1, { w.2 with fills := w.2.fills + 1 })
      onTimeout := fun venue w =>
        (E.health.onTimeout venue w.1, { w.2 with timeouts := w.2.timeouts + 1 })
      onDisconnect := fun venue w => (E.health.onDisconnect venue w.1, w.2)
      onReconnect := fun venue w => (E.health.onReconnect venue w.1, w.2) }
  log := fun level line w => (E.log level line w.1, w.2)
  clock := fun w => E.clock w.1
  publish := fun e om w => (E.publish e om w.1, w.2.publish e.kind)
  liveOrder := fun w => E.liveOrder w.1
  mem_liveOrder := fun w => E.mem_liveOrder w.1
  nodup_liveOrder := fun w => E.nodup_liveOrder w.1

/-- Every client of the audited world is audited. -/
theorem registry_audited {E : Env W} {venue : VenueId} {ex : ExchangeClient (W × Audit)}
    (h : E.audited.registry.get venue = some ex) :
    ∃ ex₀ : ExchangeClient W, ex = ExchangeClient.audited ex₀ := by
  have hget : E.audited.registry.get venue =
      (E.registry.get venue).map ExchangeClient.audited := by
    unfold ExchangeRegistry.get Env.audited
    rw [List.getElem?_map]
    cases E.registry.byVenue[venue.toNat]? <;> rfl
  rw [hget, Option.map_eq_some_iff] at h
  obtain ⟨ex₀, -, rfl⟩ := h
  exact ⟨ex₀, rfl⟩

end Auditor

/-! ### Working orders -/

/-- The number of working orders. -/
def OrderManager.workingOrders (om : OrderManager) : ℤ := om.pool.openSum fun _ => 1

section WorkingOrders

variable {om om' : OrderManager} {id : OrderIdRaw} {f : Order → Order}

/-- A write to a working order counts it out if it ends it. -/
theorem OrderManager.Live.workingOrders_write (hwf : om.WF) (hlive : om.Live id)
    (hpool : om'.pool = om.pool.modify (slotOf id) f) :
    om'.workingOrders = om.workingOrders - if (f (om.orderRef id)).Open then 0 else 1 := by
  unfold workingOrders
  rw [hpool, hlive.openSum_write hwf]
  split_ifs <;> ring

/-- What opens, fills and closes nothing leaves as many working orders. -/
theorem Change.workingOrders (hchange : Change still om om') (hwf : om.WF) :
    om'.workingOrders = om.workingOrders := by
  cases hchange with
  | touch hlive hf =>
    rw [hlive.workingOrders_write hwf rfl, if_pos (hf.stays_open _ hlive.isOpen), sub_zero]
  | fill hmoves => exact hmoves.elim
  | settle hmoves => exact hmoves.elim
  | releaseHead hfifo =>
    have hclosed := hwf.fifo_not_open _ (by rw [hfifo]; exact List.mem_cons_self)
    exact OrderPool.openSum_release _ hclosed
  | reserve hreq => exact hreq.elim
  | _ => rfl

theorem Chain.workingOrders (hchain : Chain still om om') (hwf : om.WF) :
    om'.workingOrders = om.workingOrders :=
  (hchain.invariant (I := fun om₁ => om₁.workingOrders = om.workingOrders)
    (fun _ _ hwf₁ heq hchange => (hchange.workingOrders hwf₁).trans heq) hwf rfl).2

/-- The end of a working order, and its retirement. -/
theorem workingOrders_close (hwf : om.WF) (hlive : om.Live id) (hf : Order.Closing f)
    (hwrite : om' = (om.modifyOrder id f).withDiagnostics om') {inst : InstrumentId}
    {rem : Quantity} {side : Side} (hinst : (om.orderRef id).instrument = inst)
    (hrem : (om.orderRef id).remaining = rem) (hside : (om.orderRef id).side = side) :
    (om'.retire id inst rem side).workingOrders = om.workingOrders - 1 := by
  have hlive' : (om.withDiagnostics om').Live id := ⟨hlive.current, hlive.isOpen⟩
  have hwf' : (om.withDiagnostics om').WF := (Change.quiet (P := {}) om om').wf hwf
  have hsettled : ((om.withDiagnostics om').settle id f).WF :=
    (Change.settle (P := {}) trivial hlive' hf).wf hwf'
  have hsplit : Chain still ((om.withDiagnostics om').settle id f) (om'.retire id inst rem side) :=
    close_split hwf hlive hf hwrite hinst hrem hside
  rw [hsplit.workingOrders hsettled, hlive'.workingOrders_write hwf' rfl,
    if_neg (hf.not_open _)]
  rfl

/-- An accepted fill counts the order out if it completes it. -/
theorem workingOrders_fill (hwf : om.WF) {qty : Quantity} {price : Price} {trade : TradeId}
    (ts : Timestamp) (hok : om.validate id ⟨.Fill, trade, qty, price⟩ = .Ok) :
    (om.fill id qty price trade ts).workingOrders = om.workingOrders -
      if (om.orderRef id).filledSize + qty = (om.orderRef id).size then 1 else 0 := by
  obtain ⟨hcur, hopen, -⟩ := validate_fill_ok_iff.1 hok
  have hlive : om.Live id := ⟨hcur, hopen⟩
  have hfilled : (om.applyFill id qty price trade ts).WF :=
    (Change.fill (P := {}) trivial trivial hok).wf hwf
  have hfinish : Chain still (om.applyFill id qty price trade ts) (om.fill id qty price trade ts) :=
    finish_chain hwf trivial hok
  rw [hfinish.workingOrders hfilled,
    hlive.workingOrders_write (f := Order.addFill qty price ts) hwf rfl]
  have hiff := Order.addFill_open_iff qty price ts (om.orderRef id)
  by_cases hfinal : (om.orderRef id).filledSize + qty = (om.orderRef id).size
  · rw [if_neg fun h => hiff.1 h hfinal, if_pos hfinal]
  · rw [if_pos (hiff.2 hfinal), if_neg hfinal]

/-- A booked order is one more. -/
theorem workingOrders_reserve (hwf : om.WF) {req : OrderRequest} {venue : VenueId}
    {now : Timestamp} (hres : om.reserve req venue now = some (id, om')) :
    om'.workingOrders = om.workingOrders + 1 := by
  obtain ⟨pool, hacq, -, rfl⟩ := hwf.reserve_cases hres
  have hopen : (req.stamp id now {}).Open := rfl
  exact hwf.pool.openSum_acquire_modify _ hacq hopen

end WorkingOrders

/-! ### The counters -/

/-- The counters of the manager. -/
structure Counters where
  rejects : ℕ
  timeouts : ℕ
  unsolicited : ℕ
  dropped : ℕ
  falseCancels : ℕ
  expected : ℕ
  working : ℤ

def OrderManager.counters (om : OrderManager) : Counters where
  rejects := om.rejectCount
  timeouts := om.ackTimeoutCount
  unsolicited := om.unsolicitedCancelCount
  dropped := om.oosDroppedCount
  falseCancels := om.falseCancelRejectCount
  expected := om.expectedFalseCancelRejects.card
  working := om.workingOrders

/-- After `n` inbound events the counters of the manager agree with those of the auditor. -/
structure Audited (n : ℕ) (a : Audit) (c : Counters) : Prop where
  acks : a.acks = a.confirmed
  fills : a.fills = a.partlyFilled + a.filled
  rejects : a.rejects = c.rejects
  timeouts : a.timeouts = c.timeouts
  unsolicited : a.unsolicited = c.unsolicited
  benign : a.benign + c.expected ≤ c.falseCancels
  /-- an inbound event was applied, dropped, or a benign reject; a refused order was no event -/
  inbound : n + a.refused = a.confirmed + a.partlyFilled + a.filled + a.cancelled +
    a.unsolicited + c.dropped + a.benign + c.rejects
  /-- an order that was sent was refused, has ended, or is working -/
  orders : (a.sent : ℤ) = a.refused + a.filled + a.rejected + a.cancelled + a.unsolicited +
    c.working

section Counters

variable {n : ℕ} {a : Audit} {c : Counters} {om om' : OrderManager} {id : OrderIdRaw}
  {f : Order → Order}

/-- Fewer cancel-rejects are expected when a slot is released. -/
theorem Audited.mono {c' : Counters} (h : Audited n a c) {k : ℕ} (hk : k ≤ c.expected)
    (hc : c' = { c with expected := k }) : Audited n a c' := by
  subst hc
  obtain ⟨hacks, hfills, hrejects, htimeouts, hunsolicited, hbenign, hinbound, horders⟩ := h
  constructor <;> (try dsimp only) <;> omega

/-- Retiring an order releases a slot at most, and then expects fewer cancel-rejects. -/
theorem retire_counters (om : OrderManager) (id : OrderIdRaw) (inst : InstrumentId)
    (rem : Quantity) (side : Side) : ∃ k ≤ om.counters.expected,
      (om.retire id inst rem side).counters =
        { om.counters with
          expected := k
          working := (om.retire id inst rem side).workingOrders } := by
  refine ⟨(om.retire id inst rem side).expectedFalseCancelRejects.card, ?_, ?_⟩
  · apply Finset.card_le_card
    unfold OrderManager.retire expire
    split_ifs
    · split
      · exact Finset.Subset.refl _
      · exact Finset.erase_subset _ _
    · exact Finset.Subset.refl _
  · unfold OrderManager.counters OrderManager.retire
    rw [expire_frame]
    rfl

/-- A write that leaves an order working leaves the counters. -/
theorem OrderManager.Live.counters_write (hwf : om.WF) (hlive : om.Live id)
    (hf : Order.Touch f) : (om.modifyOrder id f).counters = om.counters := by
  have hworking : (om.modifyOrder id f).workingOrders = _ := hlive.workingOrders_write hwf rfl
  rw [if_pos (hf.stays_open _ hlive.isOpen), sub_zero] at hworking
  unfold OrderManager.counters
  rw [hworking]
  rfl

/-- The end of a working order leaves the counters, but for what was counted with it. -/
theorem close_counters (hwf : om.WF) (hlive : om.Live id) (hf : Order.Closing f)
    (hwrite : om' = (om.modifyOrder id f).withDiagnostics om') {inst : InstrumentId}
    {rem : Quantity} {side : Side} (hinst : (om.orderRef id).instrument = inst)
    (hrem : (om.orderRef id).remaining = rem) (hside : (om.orderRef id).side = side) :
    ∃ k ≤ om'.counters.expected, (om'.retire id inst rem side).counters =
      { om'.counters with expected := k, working := om.counters.working - 1 } := by
  obtain ⟨k, hk, hcounters⟩ := retire_counters om' id inst rem side
  rw [workingOrders_close hwf hlive hf hwrite hinst hrem hside] at hcounters
  exact ⟨k, hk, hcounters⟩

/-- A fill that completes an order with a cancel in flight expects one more cancel-reject. -/
theorem fill_counters (hwf : om.WF) {qty : Quantity} {price : Price} {trade : TradeId}
    (ts : Timestamp) (hok : om.validate id ⟨.Fill, trade, qty, price⟩ = .Ok) :
    ∃ expected falseCancels,
      expected + om.counters.falseCancels ≤ om.counters.expected + falseCancels ∧
        (om.fill id qty price trade ts).counters = { om.counters with
          expected := expected
          falseCancels := falseCancels
          working := om.counters.working -
            if (om.orderRef id).filledSize + qty = (om.orderRef id).size then 1 else 0 } := by
  have hworking := workingOrders_fill hwf ts hok
  rcases fill_cases om id qty price trade ts with ⟨-, hfill⟩ | ⟨-, om₂, hexpect, hfill⟩
  · refine ⟨om.counters.expected, om.counters.falseCancels, le_refl _, ?_⟩
    show Counters.mk _ _ _ _ _ _ _ = Counters.mk _ _ _ _ _ _ _
    rw [hworking, hfill]
    rfl
  · obtain ⟨k, hk, hcounters⟩ := retire_counters om₂ id
      ((om.applyFill id qty price trade ts).orderRef id).instrument 0
      ((om.applyFill id qty price trade ts).orderRef id).side
    rw [← hfill, hworking] at hcounters
    rcases hexpect with rfl | rfl
    · exact ⟨k, _, Nat.add_le_add_right hk _, hcounters⟩
    · refine ⟨k, om.counters.falseCancels + 1, ?_, hcounters⟩
      have hinsert : ((om.applyFill id qty price trade ts).expect id).counters.expected ≤
          om.counters.expected + 1 := Finset.card_insert_le _ _
      omega

end Counters

/-! ### Every operation -/

section Step

variable {W : Type} {E : Env W} {s : State (W × Audit)} {n : ℕ} {id : OrderIdRaw} {ts : Timestamp}

/-- The counters agree, in the state of an audited manager. -/
def State.Accounted (n : ℕ) (s : State (W × Audit)) : Prop :=
  Audited n s.world.2 s.om.counters

/-- The counters follow from what an operation does to each side. -/
theorem State.Accounted.of_eq {s' : State (W × Audit)} {m : ℕ} {a : Audit} {c : Counters}
    (ha : s'.world.2 = a) (hc : s'.om.counters = c) (h : Audited m a c) : s'.Accounted m := by
  unfold State.Accounted
  rw [ha, hc]
  exact h

/-- A dropped event is counted. -/
theorem dropEvent_accounted (h : s.Accounted n) (kind : EventKind) (vr : ValidationResult) :
    (s.dropEvent E.audited id kind vr ts).Accounted (n + 1) := by
  obtain ⟨hacks, hfills, hrejects, htimeouts, hunsolicited, hbenign, hinbound, horders⟩ := h
  refine State.Accounted.of_eq (a := s.world.2)
    (c := { s.om.counters with dropped := s.om.counters.dropped + 1 }) rfl rfl ?_
  constructor <;> (try dsimp only) <;> omega

/-- The kill switch counts nothing. -/
theorem tripKillSwitch_accounted (h : s.Accounted n) (reason : String) :
    (s.tripKillSwitch E.audited reason).Accounted n := by
  unfold State.tripKillSwitch OrderManager.tripKillSwitch
  split_ifs <;> exact h

theorem onConfirm_accounted (hwf : s.om.WF) (h : s.Accounted n) (exchId : ExchangeOrderId) :
    (s.onConfirm E.audited id exchId ts).Accounted (n + 1) := by
  by_cases hok : s.om.validate id { kind := .Confirm } = .Ok
  · obtain ⟨hcur, hopen⟩ := (validate_ok_iff (by decide)).1 hok
    have hcounters := OrderManager.Live.counters_write hwf ⟨hcur, hopen⟩
      (Order.confirm_touch exchId ts)
    have hstep : s.onConfirm E.audited id exchId ts =
        ⟨s.om.modifyOrder id (Order.confirm exchId ts),
          (s.onConfirm E.audited id exchId ts).world.1,
          { s.world.2 with acks := s.world.2.acks + 1, confirmed := s.world.2.confirmed + 1 }⟩ := by
      unfold State.onConfirm
      rw [hok]
      rfl
    obtain ⟨hacks, hfills, hrejects, htimeouts, hunsolicited, hbenign, hinbound, horders⟩ := h
    rw [hstep]
    refine State.Accounted.of_eq rfl hcounters ?_
    constructor <;> (try dsimp only) <;> omega
  · rw [onConfirm_drop rfl hok]
    exact dropEvent_accounted h _ _

theorem onFill_accounted (hwf : s.om.WF) (h : s.Accounted n) (qty : Quantity) (price : Price)
    (trade : TradeId) : (s.onFill E.audited id qty price trade ts).Accounted (n + 1) := by
  by_cases hok : s.om.validate id ⟨.Fill, trade, qty, price⟩ = .Ok
  · obtain ⟨expected, falseCancels, hexpected, hcounters⟩ := fill_counters hwf ts hok
    have href := applyFill_orderRef s.om id qty price trade ts
    have hstep : s.onFill E.audited id qty price trade ts =
        ⟨s.om.fill id qty price trade ts, (s.onFill E.audited id qty price trade ts).world.1,
          Audit.publish { s.world.2 with fills := s.world.2.fills + 1 }
            (if decide (((s.om.applyFill id qty price trade ts).orderRef id).filledSize =
              ((s.om.applyFill id qty price trade ts).orderRef id).size) then .Fill
            else .PartialFill)⟩ := by
      unfold State.onFill
      rw [hok]
      rfl
    obtain ⟨hacks, hfills, hrejects, htimeouts, hunsolicited, hbenign, hinbound, horders⟩ := h
    rw [hstep, href]
    by_cases hfinal : (s.om.orderRef id).filledSize + qty = (s.om.orderRef id).size
    · rw [if_pos hfinal] at hcounters
      refine State.Accounted.of_eq
        (a := { s.world.2 with fills := s.world.2.fills + 1, filled := s.world.2.filled + 1 })
        ?_ hcounters ?_
      · simp [Order.addFill, hfinal, Audit.publish]
      · constructor <;> (try dsimp only) <;> omega
    · rw [if_neg hfinal] at hcounters
      refine State.Accounted.of_eq
        (a := { s.world.2 with
          fills := s.world.2.fills + 1
          partlyFilled := s.world.2.partlyFilled + 1 }) ?_ hcounters ?_
      · simp [Order.addFill, hfinal, Audit.publish]
      · constructor <;> (try dsimp only) <;> omega
  · by_cases hunk : s.om.validate id ⟨.Fill, trade, qty, price⟩ = .UnknownOrder
    · have hdrop : (s.dropEvent E.audited id .Fill .UnknownOrder ts).Accounted (n + 1) :=
        dropEvent_accounted h _ _
      unfold State.onFill
      rw [hunk]
      dsimp only
      split_ifs
      · apply tripKillSwitch_accounted
        exact hdrop
      · exact hdrop
    · rw [onFill_drop rfl hok hunk]
      exact dropEvent_accounted h _ _

theorem onCancelReject_accounted (hwf : s.om.WF) (h : s.Accounted n) :
    (s.onCancelReject E.audited id ts).Accounted (n + 1) := by
  by_cases hexp : id ∈ s.om.expectedFalseCancelRejects
  · -- the benign one is expected no more
    have hcard := Finset.card_erase_add_one hexp
    have hexpected : s.om.counters.expected = s.om.expectedFalseCancelRejects.card := rfl
    obtain ⟨hacks, hfills, hrejects, htimeouts, hunsolicited, hbenign, hinbound, horders⟩ := h
    unfold State.onCancelReject
    dsimp only
    rw [if_pos hexp]
    refine State.Accounted.of_eq (a := { s.world.2 with benign := s.world.2.benign + 1 })
      (c := { s.om.counters with expected := (s.om.expectedFalseCancelRejects.erase id).card })
      rfl rfl ?_
    constructor <;> (try dsimp only) <;> omega
  · by_cases hok : s.om.validate id { kind := .Reject } = .Ok
    · obtain ⟨hcur, hopen⟩ := (validate_ok_iff (by decide)).1 hok
      have hcounters := OrderManager.Live.counters_write hwf ⟨hcur, hopen⟩ Order.rejectCancel_touch
      obtain ⟨hacks, hfills, hrejects, htimeouts, hunsolicited, hbenign, hinbound, horders⟩ := h
      unfold State.onCancelReject
      dsimp only
      rw [if_neg hexp, hok]
      refine State.Accounted.of_eq (a := { s.world.2 with rejects := s.world.2.rejects + 1 })
        (c := { (s.om.modifyOrder id Order.rejectCancel).counters with
          rejects := s.om.counters.rejects + 1 }) rfl rfl ?_
      rw [hcounters]
      constructor <;> (try dsimp only) <;> omega
    · rw [onCancelReject_drop hexp rfl hok]
      exact dropEvent_accounted h _ _

theorem onReject_accounted (hwf : s.om.WF) (h : s.Accounted n) (reason : RejectReason) :
    (s.onReject E.audited id reason ts).Accounted (n + 1) := by
  by_cases hreason : reason = .CancelRejected
  · unfold State.onReject
    rw [if_pos hreason]
    exact onCancelReject_accounted hwf h
  · by_cases hok : s.om.validate id { kind := .Reject } = .Ok
    · obtain ⟨hcur, hopen⟩ := (validate_ok_iff (by decide)).1 hok
      have hkeeps := modifyOrder_keeps s.om id (Order.reject_closing ts)
      unfold State.onReject
      rw [if_neg hreason, hok]
      dsimp only
      obtain ⟨k, hk, hcounters⟩ := close_counters hwf ⟨hcur, hopen⟩ (Order.reject_closing ts)
        (rfl : { s.om.modifyOrder id (Order.reject ts) with
          rejectCount := s.om.rejectCount + 1 } = _)
        hkeeps.instrument.symm rfl hkeeps.side.symm
      change k ≤ s.om.counters.expected at hk
      obtain ⟨hacks, hfills, hrejects, htimeouts, hunsolicited, hbenign, hinbound, horders⟩ := h
      refine State.Accounted.of_eq
        (a := { s.world.2 with
          rejects := s.world.2.rejects + 1
          rejected := s.world.2.rejected + 1 })
        (c := { s.om.counters with
          rejects := s.om.counters.rejects + 1
          expected := k
          working := s.om.counters.working - 1 }) rfl hcounters ?_
      constructor <;> (try dsimp only) <;> omega
    · rw [onReject_drop hreason rfl hok]
      exact dropEvent_accounted h _ _

theorem onCancelAck_accounted (hwf : s.om.WF) (h : s.Accounted n) :
    (s.onCancelAck E.audited id ts).Accounted (n + 1) := by
  unfold State.onCancelAck
  by_cases hok : s.om.validate id { kind := .CancelAck } = .Ok
  · obtain ⟨hcur, hopen⟩ := (validate_ok_iff (by decide)).1 hok
    have hkeeps := modifyOrder_keeps s.om id (Order.cancelled_closing ts)
    unfold State.finishCancel
    rw [hok]
    obtain ⟨k, hk, hcounters⟩ := close_counters hwf ⟨hcur, hopen⟩ (Order.cancelled_closing ts)
      (rfl : s.om.modifyOrder id (Order.cancelled ts) = _)
      hkeeps.instrument.symm rfl hkeeps.side.symm
    change k ≤ s.om.counters.expected at hk
    obtain ⟨hacks, hfills, hrejects, htimeouts, hunsolicited, hbenign, hinbound, horders⟩ := h
    refine State.Accounted.of_eq (a := { s.world.2 with cancelled := s.world.2.cancelled + 1 })
      (c := { s.om.counters with expected := k, working := s.om.counters.working - 1 })
      rfl hcounters ?_
    constructor <;> (try dsimp only) <;> omega
  · rw [finishCancel_drop rfl hok]
    exact dropEvent_accounted h _ _

theorem onUnsolicitedCancel_accounted (hwf : s.om.WF) (h : s.Accounted n) :
    (s.onUnsolicitedCancel E.audited id ts).Accounted (n + 1) := by
  unfold State.onUnsolicitedCancel
  by_cases hok : s.om.validate id { kind := .UnsolicitedCancel } = .Ok
  · obtain ⟨hcur, hopen⟩ := (validate_ok_iff (by decide)).1 hok
    have hkeeps := modifyOrder_keeps s.om id (Order.cancelled_closing ts)
    unfold State.finishCancel
    rw [hok]
    obtain ⟨k, hk, hcounters⟩ := close_counters hwf ⟨hcur, hopen⟩ (Order.cancelled_closing ts)
      (rfl : { s.om.modifyOrder id (Order.cancelled ts) with
        unsolicitedCancelCount := s.om.unsolicitedCancelCount + 1 } = _)
      hkeeps.instrument.symm rfl hkeeps.side.symm
    change k ≤ s.om.counters.expected at hk
    obtain ⟨hacks, hfills, hrejects, htimeouts, hunsolicited, hbenign, hinbound, horders⟩ := h
    refine State.Accounted.of_eq (a := { s.world.2 with unsolicited := s.world.2.unsolicited + 1 })
      (c := { s.om.counters with
        unsolicited := s.om.counters.unsolicited + 1
        expected := k
        working := s.om.counters.working - 1 }) rfl hcounters ?_
    constructor <;> (try dsimp only) <;> omega
  · rw [finishCancel_drop rfl hok]
    exact dropEvent_accounted h _ _

/-- A sweep keeps the counters if it does for each id, and leaves the manager well-formed. -/
theorem foldl_accounted {sweep : State (W × Audit) → OrderIdRaw → State (W × Audit)}
    (hsweep : ∀ s id, s.om.WF → s.Accounted n → (sweep s id).om.WF ∧ (sweep s id).Accounted n)
    (ids : List OrderIdRaw) (hwf : s.om.WF) (h : s.Accounted n) :
    (ids.foldl sweep s).Accounted n := by
  induction ids generalizing s with
  | nil => exact h
  | cons id ids ih =>
    obtain ⟨hwf', h'⟩ := hsweep s id hwf h
    exact ih hwf' h'

theorem cancelWorkingOrders_accounted (hwf : s.om.WF) (h : s.Accounted n) :
    (s.cancelWorkingOrders E.audited).Accounted n := by
  refine foldl_accounted (fun s id hwf h => ⟨?_, ?_⟩) _ hwf h
  · exact Change.wf_of_chain ((cancelWorkingOrder_turns s id).chain (P := {}) hwf) hwf
  · unfold State.cancelWorkingOrder
    split_ifs with hcur
    · exact h
    dsimp only
    split_ifs with hterm
    · exact h
    split
    · exact h
    · rename_i ex hex
      obtain ⟨ex₀, rfl⟩ := registry_audited hex
      split_ifs
      · simp only [Bool.or_eq_true, not_or, Bool.not_eq_true] at hterm
        have hlive : s.om.Live id := ⟨by simpa using hcur, hterm.1⟩
        exact .of_eq rfl (hlive.counters_write hwf Order.markCancelSent_touch) h
      · exact h
      · exact h

theorem cancel_accounted (hwf : s.om.WF) (h : s.Accounted n) :
    (s.cancel E.audited id).2.Accounted n := by
  unfold State.cancel
  split_ifs with hcur
  · exact h
  dsimp only
  split_ifs with hterm
  · exact h
  split
  · exact h
  · rename_i ex hex
    obtain ⟨ex₀, rfl⟩ := registry_audited hex
    split_ifs
    · have hlive : s.om.Live id := by
        refine ⟨by simpa using hcur, ?_⟩
        rw [Order.Open]
        simpa using hterm
      exact .of_eq rfl (hlive.counters_write hwf Order.markCancelSent_touch) h
    · exact h

theorem checkAckTimeouts_accounted (now timeout : Timestamp) (hwf : s.om.WF)
    (h : s.Accounted n) : (s.checkAckTimeouts E.audited now timeout).Accounted n := by
  refine foldl_accounted (fun s id hwf h => ⟨?_, ?_⟩) _ hwf h
  · exact Change.wf_of_chain ((checkAckTimeout_turns now timeout s id).chain (P := {}) hwf) hwf
  · unfold State.checkAckTimeout
    split_ifs with hcur
    · exact h
    dsimp only
    split_ifs with htimed hsent hlate
    · exact h
    · exact h
    · exact h
    have hopen : (s.om.orderRef id).Open := by
      rw [Order.Open, not_not.1 hsent]
      rfl
    have hlive : s.om.Live id := ⟨by simpa using hcur, hopen⟩
    have hmarked := hlive.counters_write hwf Order.markTimedOut_touch
    have hwf' := (Change.touch (P := {}) hlive Order.markTimedOut_touch).wf hwf
    have hlive' : (s.om.modifyOrder id Order.markTimedOut).Live id := by
      refine ⟨hlive.current, ?_⟩
      rw [orderRef_modifyOrder]
      exact Order.markTimedOut_open hopen
    have hsent := hlive'.counters_write hwf' Order.markCancelSent_touch
    have hcounted : Audited n { s.world.2 with timeouts := s.world.2.timeouts + 1 }
        { s.om.counters with timeouts := s.om.counters.timeouts + 1 } := by
      obtain ⟨hacks, hfills, hrejects, htimeouts, hunsolicited, hbenign, hinbound, horders⟩ := h
      constructor <;> (try dsimp only) <;> omega
    have hplain : ({ s.om.modifyOrder id Order.markTimedOut with
        ackTimeoutCount := s.om.ackTimeoutCount + 1 } : OrderManager).counters =
          { s.om.counters with timeouts := s.om.counters.timeouts + 1 } := by
      rw [← hmarked]
      rfl
    split
    · exact .of_eq rfl hplain hcounted
    · rename_i ex hex
      obtain ⟨ex₀, rfl⟩ := registry_audited hex
      split_ifs
      · refine .of_eq rfl ?_ hcounted
        rw [← hmarked, ← hsent]
        rfl
      · exact .of_eq rfl hplain hcounted
      · exact .of_eq rfl hplain hcounted

/-- An order that is sent works, or it was refused and counted as a reject. -/
theorem place_accounted (hwf : s.om.WF) (h : s.Accounted n) (req : OrderRequest) (venue : VenueId)
    (ex : ExchangeClient W) : (s.place E.audited req venue ex.audited).2.Accounted n := by
  unfold State.place
  dsimp only
  cases hres : s.om.reserve req venue (E.audited.clock s.world) with
  | none => exact h
  | some reserved =>
    obtain ⟨id, om⟩ := reserved
    have hopened := workingOrders_reserve hwf hres
    have hbooked : om.WF := (Change.reserve (P := {}) trivial hres).wf hwf
    obtain ⟨pool, hacq, hid, hom⟩ := hwf.reserve_cases hres
    have hlive : om.Live id := hom ▸ hwf.booked_live hacq hid
    have hcounters : om.counters =
        { s.om.counters with working := s.om.counters.working + 1 } := by
      unfold OrderManager.counters
      rw [hopened, hom]
      rfl
    obtain ⟨hacks, hfills, hrejects, htimeouts, hunsolicited, hbenign, hinbound, horders⟩ := h
    dsimp only
    by_cases hok : (ex.placeOrder (om.orderRef id) s.world.1).1 = .Ok
    · have hplaced : (ex.audited.placeOrder (om.orderRef id) s.world).1 = .Ok := hok
      rw [if_pos hplaced]
      refine State.Accounted.of_eq (a := { s.world.2 with sent := s.world.2.sent + 1 })
        (c := { s.om.counters with working := s.om.counters.working + 1 }) ?_ ?_ ?_
      · show s.world.2.send _ = _
        rw [Audit.send, if_pos hok]
      · rw [← hcounters]
        exact hlive.counters_write hbooked (Order.markSent_touch _)
      · constructor <;> (try dsimp only) <;> omega
    · have hrefused : ¬ (ex.audited.placeOrder (om.orderRef id) s.world).1 = .Ok := hok
      rw [if_neg hrefused]
      have href : om.orderRef id = req.stamp id (E.audited.clock s.world) {} := by
        rw [hom, booked_orderRef, (OrderPool.acquire_slot hacq).2.1]
      obtain ⟨k, hk, hclosed⟩ := close_counters hbooked hlive Order.failSend_closing
        (rfl : { om.modifyOrder id Order.failSend with rejectCount := om.rejectCount + 1 } = _)
        (congrArg Order.instrument href) ((congrArg Order.remaining href).trans (sub_zero _))
        (congrArg Order.side href)
      have hexpected : om.counters.expected = s.om.counters.expected := by rw [hcounters]
      have hrejectCount : om.counters.rejects = s.om.counters.rejects := by rw [hcounters]
      change k ≤ om.counters.expected at hk
      refine State.Accounted.of_eq
        (a := { s.world.2 with
          sent := s.world.2.sent + 1
          refused := s.world.2.refused + 1
          rejects := s.world.2.rejects + 1 })
        (c := { s.om.counters with
          rejects := s.om.counters.rejects + 1
          expected := k }) ?_ ?_ ?_
      · show (s.world.2.send _).reject false = _
        rw [Audit.send, if_neg hok]
        rfl
      · refine hclosed.trans ?_
        show Counters.mk (om.counters.rejects + 1) om.counters.timeouts om.counters.unsolicited
          om.counters.dropped om.counters.falseCancels k (om.counters.working - 1) = _
        rw [hcounters]
        simp
      · constructor <;> (try dsimp only) <;> omega

theorem submit_accounted (hwf : s.om.WF) (h : s.Accounted n) (req : OrderRequest) :
    (s.submit E.audited req).2.Accounted n := by
  have hw : ∀ {v w}, E.audited.router.select req.instrument req.side req.size s.world = (v, w) →
      w.2 = s.world.2 := fun hselect => (congrArg (fun x => x.2.2) hselect).symm
  fun_cases State.submit E.audited req s with
  | case1 hkilled => exact h
  | case2 hon w hselect =>
    have hsame := hw hselect
    refine cancelWorkingOrders_accounted ?_ (.of_eq hsame rfl h)
    exact ⟨hwf.pool, hwf.fifo_nodup, hwf.fifo_current, hwf.fifo_not_open⟩
  | case3 hon venue w hselect s' hget =>
    have hsame := hw hselect
    exact .of_eq hsame rfl h
  | case4 hon venue w hselect s' ex hget hfull =>
    have hsame := hw hselect
    apply tripKillSwitch_accounted
    exact .of_eq hsame rfl h
  | case5 hon venue w hselect s' ex hget hfree =>
    obtain ⟨ex₀, rfl⟩ := registry_audited hget
    have hsame := hw hselect
    have h' : s'.Accounted n := .of_eq hsame rfl h
    exact place_accounted (s := s') hwf h' req venue ex₀

/-- The number of inbound events among some operations. -/
def inboundCount (ops : List Op) : ℕ := ops.countP fun op => op.inboundId.isSome

/-- After every operation the counters agree. -/
theorem step_accounted (hwf : s.om.WF) (h : s.Accounted n) (op : Op) :
    (s.step E.audited op).Accounted (n + inboundCount [op]) := by
  cases op with
  | submit req => exact submit_accounted hwf h req
  | cancel id => exact cancel_accounted hwf h
  | confirm id exchId ts => exact onConfirm_accounted hwf h exchId
  | fill id qty price trade ts => exact onFill_accounted hwf h qty price trade
  | reject id reason ts => exact onReject_accounted hwf h reason
  | cancelAck id ts => exact onCancelAck_accounted hwf h
  | unsolicitedCancel id ts => exact onUnsolicitedCancel_accounted hwf h
  | checkAckTimeouts now timeout => exact checkAckTimeouts_accounted now timeout hwf h
  | _ => exact h

end Step

/-! ### Every run -/

section Runs

variable {W : Type}

theorem run_accounted (E : Env W) {s : State (W × Audit)} {n : ℕ} (hwf : s.om.WF)
    (h : s.Accounted n) (ops : List Op) :
    ((machine E.audited).run s ops).Accounted (n + inboundCount ops) := by
  induction ops generalizing s n with
  | nil => exact h
  | cons op ops ih =>
    have hwf' := Change.wf_of_chain (step_chain (E := E.audited) hwf op) hwf
    have hrest := ih hwf' (step_accounted hwf h op)
    have hcount : inboundCount (op :: ops) = inboundCount [op] + inboundCount ops := by
      rw [← List.singleton_append, inboundCount, List.countP_append]
      rfl
    rw [hcount, ← Nat.add_assoc]
    exact hrest

/-- **The counters agree.** Over every run, whatever the events, ids and answers: health was told of
an ack for each published confirm, of a fill for each published fill, and of as many rejects and
timeouts as the manager counted; every inbound event was published, counted as dropped, reported as
benign or counted as a reject; and every order that was sent was refused, has ended with a published
event, or is working. -/
theorem counters_agree (E : Env W) (capacity : PoolCapacity) (w : W) (ops : List Op) :
    let s := (machine E.audited).run ⟨.init capacity, w, {}⟩ ops
    Audited (inboundCount ops) s.world.2 s.om.counters := by
  intro s
  have hnone : (init capacity).workingOrders = 0 := OrderPool.openSum_init _ capacity
  have hinit : State.Accounted 0 (⟨.init capacity, w, {}⟩ : State (W × Audit)) := by
    have hcounters : (init capacity).counters = ⟨0, 0, 0, 0, 0, 0, 0⟩ := by
      unfold OrderManager.counters
      rw [hnone]
      rfl
    refine State.Accounted.of_eq rfl hcounters ?_
    constructor <;> rfl
  have hrun := run_accounted E (wf_init capacity) hinit ops
  rwa [Nat.zero_add] at hrun

end Runs

end Oms
