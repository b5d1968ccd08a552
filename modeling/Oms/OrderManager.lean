import Oms.ExchangeClient
import Oms.Foundation.MapSum
import Oms.OrderPool
import Oms.Position

/-!
# The order manager

`OrderManager.h`, `OrderManager.cpp`: the pool, the live-order index, the positions and the shared
validation of inbound events. Every method is a function of the manager's fields and of the world
behind its interfaces (`Env`).

* `OrderManager`: the fields of the class; `State`: the manager with the world around it;
* `validate`, `retire`, `cancelWorkingOrders`, `submit`, `cancel`, and the inbound handlers
  `onConfirm`, `onFill`, `onReject`, `onCancelAck`, `onUnsolicitedCancel`, `checkAckTimeouts`.

The handlers run to completion: listeners and clients act on the world only and do not call back
into the manager.
-/

namespace Oms

/-- A strategy's or an algo's request: `size` is a magnitude, the direction comes from `side`. -/
structure OrderRequest where
  instrument : InstrumentId := 0
  side : Side := .Buy
  size : Quantity := 0
  price : Price := 0
  type : OrderType := .Limit
  strategyId : StrategyId := 0
  algoTag : AlgoTag := 0
  /-- algo self-fill routing tag -/
  workerIndex : ℤ := 0
  workerOffset : ScratchOffset := 0
  /-- corrective order; off metrics and netting -/
  reconciliation : Bool := false
  deriving DecidableEq, Repr

/-- Fill in the record of an acquired slot from a request. -/
def OrderRequest.stamp (req : OrderRequest) (id : OrderIdRaw) (now : Timestamp)
    (o : Order) : Order :=
  { o with
    internalId := id
    instrument := req.instrument
    side := req.side
    type := req.type
    size := req.size
    filledSize := 0
    totalFillAmount := 0
    limitPrice := req.price
    status := .New
    strategyId := req.strategyId
    algoTag := req.algoTag
    reconciliation := req.reconciliation
    ts := { o.ts with created := now } }.storeIntData req.workerIndex req.workerOffset

/-- Inbound event kinds, for the single shared validation path. -/
inductive EventKind
  | Confirm
  | Fill
  | Reject
  | CancelAck
  | UnsolicitedCancel
  deriving DecidableEq, Repr

/-- Result of the shared guard sequence. -/
inductive ValidationResult
  | Ok
  /-- id not live (stale generation, or never existed) -/
  | UnknownOrder
  /-- order already filled, cancelled or rejected -/
  | TerminalState
  /-- trade id already seen for this order -/
  | DuplicateTrade
  /-- declared by the source, returned by none of its paths -/
  | StaleCumulative
  /-- price, size or overfill sanity failed -/
  | FieldMismatch
  deriving DecidableEq, Repr

structure EventContext where
  kind : EventKind := .Confirm
  tradeId : TradeId := 0
  qty : Quantity := 0
  price : Price := 0
  deriving DecidableEq, Repr

/-- Published order events. -/
inductive OrderEventKind
  | Confirmed
  | PartialFill
  | Fill
  | Rejected
  | Cancelled
  | UnsolicitedCancel
  deriving DecidableEq, Repr

structure OrderEvent where
  kind : OrderEventKind := .Confirmed
  internalId : OrderIdRaw := 0
  instrument : InstrumentId := 0
  side : Side := .Buy
  lastQty : Quantity := 0
  lastPrice : Price := 0
  filledSize : Quantity := 0
  size : Quantity := 0
  status : OrderStatus := .New
  /-- valid on `Rejected` events -/
  reason : RejectReason := .Unknown
  ts : Timestamp := 0
  deriving DecidableEq, Repr

/-! ### Names used in log lines -/

def EventKind.name : EventKind → String
  | .Confirm => "confirm"
  | .Fill => "fill"
  | .Reject => "reject"
  | .CancelAck => "cancel_ack"
  | .UnsolicitedCancel => "unsolicited_cancel"

def ValidationResult.name : ValidationResult → String
  | .Ok => "ok"
  | .UnknownOrder => "unknown_order"
  | .TerminalState => "terminal_state"
  | .DuplicateTrade => "duplicate_trade"
  | .StaleCumulative => "stale_cumulative"
  | .FieldMismatch => "field_mismatch"

def OrderStatus.name : OrderStatus → String
  | .New => "New"
  | .Sent => "Sent"
  | .Confirmed => "Confirmed"
  | .PartiallyFilled => "PartiallyFilled"
  | .SentCancel => "SentCancel"
  | .CancelRejected => "CancelRejected"
  | .Filled => "Filled"
  | .Cancelled => "Cancelled"
  | .Rejected => "Rejected"

/-! ### The manager -/

structure OrderManager where
  pool : OrderPool
  positions : Finmap fun _ : InstrumentId => Position := ∅
  pendingSigned : Finmap fun _ : InstrumentId => Quantity := ∅
  venueSeq : Finmap fun _ : VenueId => UInt64 := ∅
  tradeIds : Finmap fun _ : OrderIdRaw => Finset TradeId := ∅
  live : Finset OrderIdRaw := ∅
  expectedFalseCancelRejects : Finset OrderIdRaw := ∅
  /-- terminal orders, oldest first; their slot is freed after a grace window -/
  retiredFifo : List OrderIdRaw := []
  retiredGrace : ℕ := 4096
  killed : Bool := false
  killReason : String := ""
  rebalanceIncomplete : Bool := false
  falseCancelRejectCount : ℕ := 0
  reconcileRequested : Bool := false
  unknownFillCount : ℕ := 0
  unknownFillHardstopThreshold : ℕ := 3
  rejectCount : ℕ := 0
  ackTimeoutCount : ℕ := 0
  unsolicitedCancelCount : ℕ := 0
  oosDroppedCount : ℕ := 0

/-- What the manager finds behind its interfaces. `publish` runs the subscribed listeners on an
event; they see the manager as it is at that moment. `liveOrder` is the order in which the
unordered live index is walked, which the language leaves open. -/
structure Env (W : Type) where
  registry : ExchangeRegistry W
  router : Router W
  health : HealthModel W
  log : LogLevel → String → W → W
  clock : W → Timestamp
  publish : OrderEvent → OrderManager → W → W
  liveOrder : W → Finset OrderIdRaw → List OrderIdRaw
  mem_liveOrder : ∀ w s id, id ∈ liveOrder w s ↔ id ∈ s
  nodup_liveOrder : ∀ w s, (liveOrder w s).Nodup

/-- The manager and the world around it. -/
structure State (W : Type) where
  om : OrderManager
  world : W

namespace OrderManager

def init (capacity : PoolCapacity) : OrderManager where
  pool := .init capacity

/-! #### Queries -/

/-- The order stored in the slot an id decodes to. -/
def orderRef (om : OrderManager) (id : OrderIdRaw) : Order := om.pool.slots (slotOf id)

def position (om : OrderManager) (inst : InstrumentId) : Position := om.positions.get inst

/-- Signed sum of what is still open, as the manager keeps it. -/
def pendingQuantity (om : OrderManager) (inst : InstrumentId) : Quantity :=
  om.pendingSigned.get inst

def find (om : OrderManager) (id : OrderIdRaw) : Option Order :=
  if om.pool.isCurrent id then some (om.orderRef id) else none

/-- Instruments with a tracked position. -/
def instruments (om : OrderManager) : Finset InstrumentId := om.positions.keys

/-- Target minus position and pending. -/
def executionDelta (om : OrderManager) (inst : InstrumentId) (target : Quantity) : Quantity :=
  target - ((om.position inst).net + om.pendingQuantity inst)

/-- The trade ids seen for an id. -/
def tradesOf (om : OrderManager) (id : OrderIdRaw) : Finset TradeId :=
  (om.tradeIds.lookup id).getD ∅

/-! #### Validation -/

/-- The single shared guard sequence. -/
def validate (om : OrderManager) (id : OrderIdRaw) (ev : EventContext) : ValidationResult :=
  if !om.pool.isCurrent id then .UnknownOrder
  else
    let o := om.orderRef id
    if isTerminal o.status then .TerminalState
    else if ev.kind = .Fill then
      if ev.tradeId ∈ om.tradesOf id then .DuplicateTrade
      else if ev.qty ≤ 0 ∨ ev.price ≤ 0 then .FieldMismatch
      else if o.remaining < ev.qty then .FieldMismatch
      else .Ok
    else .Ok

/-! #### Changes to the manager alone -/

/-- Write the order an id decodes to. -/
def modifyOrder (om : OrderManager) (id : OrderIdRaw) (f : Order → Order) : OrderManager :=
  { om with pool := om.pool.modify (slotOf id) f }

/-- Count a dropped event. -/
def dropEvent (om : OrderManager) : OrderManager :=
  { om with oosDroppedCount := om.oosDroppedCount + 1 }

def tripKillSwitch (om : OrderManager) (reason : String) : OrderManager :=
  if om.killed then om else { om with killed := true, killReason := reason }

/-- Take what remains of a closed order out of the pending quantity. -/
def unbook (om : OrderManager) (inst : InstrumentId) (remainingToCancel : Quantity) (side : Side) :
    OrderManager :=
  { om with
    pendingSigned :=
      if 0 < remainingToCancel then
        om.pendingSigned.adjust inst (-signedQty side remainingToCancel)
      else om.pendingSigned }

/-- Leave the live index and join the grace window. -/
def shelve (om : OrderManager) (id : OrderIdRaw) : OrderManager :=
  { om with
    live := om.live.erase id
    tradeIds := om.tradeIds.erase id
    retiredFifo := om.retiredFifo ++ [id] }

/-- Release the oldest entry beyond the grace window. -/
def expire (om : OrderManager) : OrderManager :=
  if om.retiredGrace < om.retiredFifo.length then
    match om.retiredFifo with
    | [] => om
    | old :: rest =>
      { om with
        retiredFifo := rest
        pool := if om.pool.isCurrent old then om.pool.release (slotOf old) else om.pool
        expectedFalseCancelRejects := om.expectedFalseCancelRejects.erase old }
  else om

/-- Retire a terminal order: it leaves the live index, its slot is freed only after a grace
window, so recent late or duplicate events find a terminal order. -/
def retire (om : OrderManager) (id : OrderIdRaw) (inst : InstrumentId)
    (remainingToCancel : Quantity) (side : Side) : OrderManager :=
  ((om.unbook inst remainingToCancel side).shelve id).expire

/-- The accounting of an accepted fill: the order, its trade ids, the position and the pending
quantity. -/
def applyFill (om : OrderManager) (id : OrderIdRaw) (qty : Quantity)
    (price : Price) (trade : TradeId) (ts : Timestamp) : OrderManager :=
  let inst := (om.orderRef id).instrument
  let side := (om.orderRef id).side
  let om := om.modifyOrder id (Order.addFill qty price ts)
  { om with
    tradeIds := om.tradeIds.insert id (insert trade (om.tradesOf id))
    positions := om.positions.insert inst
      ((om.positions.get inst).apply (signedQty side qty) price ts)
    pendingSigned := om.pendingSigned.adjust inst (-signedQty side qty) }

/-- What follows a final fill: expect a benign cancel-reject if a cancel is in flight, and
retire. -/
def finishFill (om : OrderManager) (id : OrderIdRaw) : OrderManager :=
  let o := om.orderRef id
  let om :=
    if o.pendingCancel then { om with
      expectedFalseCancelRejects := insert id om.expectedFalseCancelRejects
      falseCancelRejectCount := om.falseCancelRejectCount + 1 }
    else om
  om.retire id o.instrument 0 o.side

/-- The manager after an accepted fill. -/
def fill (om : OrderManager) (id : OrderIdRaw) (qty : Quantity) (price : Price) (trade : TradeId)
    (ts : Timestamp) : OrderManager :=
  let om := om.applyFill id qty price trade ts
  if (om.orderRef id).filledSize = (om.orderRef id).size then om.finishFill id else om

/-- Reserve a slot for a request on a venue and book it: the order record, the pending quantity and
the live index. `none` is the pool's hard stop. -/
def reserve (om : OrderManager) (req : OrderRequest) (venue : VenueId) (now : Timestamp) :
    Option (OrderIdRaw × OrderManager) :=
  match om.pool.acquire with
  | none => none
  | some (slot, pool) =>
    let gen := pool.generation slot
    let seq := om.venueSeq.get venue + 1
    let id := encodeOrderId venue gen (UInt32.ofNat slot) seq.toUInt16
    some (id, { om with
      pool := pool.modify slot (req.stamp id now)
      venueSeq := om.venueSeq.insert venue seq
      positions :=
        if req.instrument ∈ om.positions then om.positions
        else om.positions.insert req.instrument {}
      pendingSigned := om.pendingSigned.adjust req.instrument (signedQty req.side req.size)
      live := insert id om.live })

end OrderManager

/-! ### The methods, in their world -/

namespace State

variable {W : Type} (E : Env W)

/-- Emit a log line. -/
def log (level : LogLevel) (line : String) (s : State W) : State W :=
  { s with world := E.log level line s.world }

def logRejection (id : OrderIdRaw) (kind : EventKind) (vr : ValidationResult) (ts : Timestamp)
    (s : State W) : State W :=
  let d := decodeOrderId id
  let (exch, status) :=
    if s.om.pool.isCurrent id then ((s.om.orderRef id).exchangeId, (s.om.orderRef id).status)
    else ("", OrderStatus.New)
  s.log E .Error
    ("event rejected: kind=" ++ kind.name ++ " reason=" ++ vr.name ++ " internal_id=" ++
      toString id ++ " venue=" ++ toString d.venue ++ " slot=" ++ toString d.slot ++ " gen=" ++
      toString d.generation ++ " exchange_id=" ++ (if exch = "" then "-" else exch) ++
      " status=" ++ status.name ++ " event_ts=" ++ toString ts)

/-- Log a dropped event and count it. -/
def dropEvent (id : OrderIdRaw) (kind : EventKind) (vr : ValidationResult) (ts : Timestamp)
    (s : State W) : State W :=
  let s := s.logRejection E id kind vr ts
  { s with om := s.om.dropEvent }

def tripKillSwitch (reason : String) (s : State W) : State W :=
  if s.om.killed then s
  else
    State.log E .Error ("KILL SWITCH tripped: " ++ reason)
      { s with om := s.om.tripKillSwitch reason }

/-- All-down policy, for one order: cancel it where the transport still permits. -/
def cancelWorkingOrder (s : State W) (id : OrderIdRaw) : State W :=
  if !s.om.pool.isCurrent id then s
  else
    let o := s.om.orderRef id
    if isTerminal o.status || o.pendingCancel then s
    else
      match E.registry.get (decodeOrderId id).venue with
      | none => s
      | some ex =>
        if ex.isConnected s.world then
          let (r, w) := ex.cancelOrder id o.exchangeId s.world
          if r = .Ok then
            { om := s.om.modifyOrder id Order.markCancelSent, world := w }
          else { s with world := w }
        else s

def cancelWorkingOrders (s : State W) : State W :=
  (E.liveOrder s.world s.om.live).foldl (cancelWorkingOrder E) s

/-- The part of `submit` behind its guards: reserve, send, and unwind the reservation when the send
fails. -/
def place (req : OrderRequest) (venue : VenueId) (ex : ExchangeClient W) (s : State W) :
    OrderIdRaw × State W :=
  let now := E.clock s.world
  match s.om.reserve req venue now with
  | none => (0, s)
  | some (id, om) =>
    let (r, w) := ex.placeOrder (om.orderRef id) s.world
    let w := E.health.onOrderSent venue now w
    if r = .Ok then
      (id, { om := om.modifyOrder id (Order.markSent now), world := w })
    else
      let om := om.modifyOrder id Order.failSend
      let om := { om with rejectCount := om.rejectCount + 1 }
      let w := E.health.onReject venue false w
      let w := E.log .Warn ("place_order local reject: internal_id=" ++ toString id) w
      (0, { om := om.retire id req.instrument req.size req.side, world := w })

def submit (req : OrderRequest) (s : State W) : OrderIdRaw × State W :=
  if s.om.killed then (0, s.log E .Error "submit rejected: kill switch active")
  else
    match E.router.select req.instrument req.side req.size s.world with
    | (none, w) =>
      let s := State.log E .Error
        ("ALL-DOWN: no tradeable venue for instrument=" ++ toString req.instrument ++
          "; not submitting, cancelling working orders, cycle marked incomplete")
        { om := { s.om with rebalanceIncomplete := true }, world := w }
      (0, s.cancelWorkingOrders E)
    | (some venue, w) =>
      let s := { s with world := w }
      match E.registry.get venue with
      | none =>
        (0, s.log E .Error ("submit rejected: no client for venue=" ++ toString venue))
      | some ex =>
        if s.om.pool.capacity ≤ s.om.pool.inUse then
          (0, s.tripKillSwitch E
            ("ORDER_POOL_EXHAUSTED in_use=" ++ toString s.om.pool.inUse ++ " capacity=" ++
              toString s.om.pool.capacity))
        else s.place E req venue ex

def cancel (id : OrderIdRaw) (s : State W) : Bool × State W :=
  if !s.om.pool.isCurrent id then
    (false, s.log E .Warn ("cancel of unknown/stale order: id=" ++ toString id))
  else
    let o := s.om.orderRef id
    if isTerminal o.status then
      (false, s.log E .Warn ("cancel of terminal order: id=" ++ toString id))
    else
      match E.registry.get (decodeOrderId id).venue with
      | none => (false, s)
      | some ex =>
        let (r, w) := ex.cancelOrder id o.exchangeId s.world
        if r = .Ok then
          (true,
            { om := s.om.modifyOrder id Order.markCancelSent, world := w })
        else (false, State.log E .Warn ("cancel send failed: id=" ++ toString id)
          { s with world := w })

/-! #### Inbound handlers -/

def onConfirm (id : OrderIdRaw) (exchId : ExchangeOrderId) (ts : Timestamp) (s : State W) :
    State W :=
  match s.om.validate id { kind := .Confirm } with
  | .Ok =>
    let om := s.om.modifyOrder id (Order.confirm exchId ts)
    let o := om.orderRef id
    let w := E.health.onAck (decodeOrderId id).venue (ts - o.ts.sent) s.world
    let w := E.publish
      { kind := .Confirmed, internalId := id, instrument := o.instrument, side := o.side,
        filledSize := o.filledSize, size := o.size, status := o.status, ts := ts } om w
    { om := om, world := w }
  | vr => s.dropEvent E id .Confirm vr ts

def onFill (id : OrderIdRaw) (qty : Quantity) (price : Price) (trade : TradeId) (ts : Timestamp)
    (s : State W) : State W :=
  match s.om.validate id { kind := .Fill, tradeId := trade, qty := qty, price := price } with
  | .Ok =>
    -- listeners run after the accounting and before the order is retired
    let om := s.om.applyFill id qty price trade ts
    let o := om.orderRef id
    let final : Bool := o.filledSize = o.size
    let w := E.health.onFill (decodeOrderId id).venue s.world
    let w := E.publish
      { kind := if final then .Fill else .PartialFill, internalId := id,
        instrument := o.instrument, side := o.side, lastQty := qty, lastPrice := price,
        filledSize := o.filledSize, size := o.size, status := o.status, ts := ts } om w
    { om := s.om.fill id qty price trade ts, world := w }
  | .UnknownOrder =>
    -- an unknown fill means the position is wrong: ask for a reconcile, hard-stop if it recurs
    let s := s.dropEvent E id .Fill .UnknownOrder ts
    let om := { s.om with
      unknownFillCount := s.om.unknownFillCount + 1
      reconcileRequested := true }
    let s : State W := { s with om := om }
    if om.unknownFillHardstopThreshold < om.unknownFillCount then
      s.tripKillSwitch E ("ORDER_FILLED_NOT_IN_SYSTEM recurred id=" ++ toString id)
    else s
  | vr => s.dropEvent E id .Fill vr ts

/-- A cancel-reject: the benign one after a completed order, or a real one. -/
def onCancelReject (id : OrderIdRaw) (ts : Timestamp) (s : State W) : State W :=
  let venue := (decodeOrderId id).venue
  if id ∈ s.om.expectedFalseCancelRejects then
    let om := { s.om with
      expectedFalseCancelRejects := s.om.expectedFalseCancelRejects.erase id }
    State.log E .Info ("benign false cancel-reject id=" ++ toString id)
      { om := om, world := E.health.onReject venue true s.world }
  else
    match s.om.validate id { kind := .Reject } with
    | .Ok =>
      let om := s.om.modifyOrder id Order.rejectCancel
      { om := { om with rejectCount := om.rejectCount + 1 }
        world := E.health.onReject venue false s.world }
    | vr => s.dropEvent E id .Reject vr ts

def onReject (id : OrderIdRaw) (reason : RejectReason) (ts : Timestamp) (s : State W) : State W :=
  if reason = .CancelRejected then s.onCancelReject E id ts
  else
    match s.om.validate id { kind := .Reject } with
    | .Ok =>
      let rem := (s.om.orderRef id).remaining
      let om := s.om.modifyOrder id (Order.reject ts)
      let om := { om with rejectCount := om.rejectCount + 1 }
      let o := om.orderRef id
      let w := E.health.onReject (decodeOrderId id).venue false s.world
      let w := E.publish
        { kind := .Rejected, internalId := id, instrument := o.instrument, side := o.side,
          filledSize := o.filledSize, size := o.size, status := o.status, reason := reason,
          ts := ts } om w
      { om := om.retire id o.instrument rem o.side, world := w }
    | vr => s.dropEvent E id .Reject vr ts

/-- Shared body of cancel-ack and unsolicited cancel: go terminal, publish, retire. -/
def finishCancel (id : OrderIdRaw) (ts : Timestamp) (kind : EventKind) (pub : OrderEventKind)
    (unsolicited : Bool) (s : State W) : State W :=
  match s.om.validate id { kind := kind } with
  | .Ok =>
    let rem := (s.om.orderRef id).remaining
    let om := s.om.modifyOrder id (Order.cancelled ts)
    let om :=
      if unsolicited then { om with unsolicitedCancelCount := om.unsolicitedCancelCount + 1 }
      else om
    let w :=
      if unsolicited then E.log .Warn ("unsolicited cancel id=" ++ toString id) s.world
      else s.world
    let o := om.orderRef id
    let w := E.publish
      { kind := pub, internalId := id, instrument := o.instrument, side := o.side,
        filledSize := o.filledSize, size := o.size, status := o.status, ts := ts } om w
    { om := om.retire id o.instrument rem o.side, world := w }
  | vr => s.dropEvent E id kind vr ts

def onCancelAck (id : OrderIdRaw) (ts : Timestamp) (s : State W) : State W :=
  s.finishCancel E id ts .CancelAck .Cancelled false

def onUnsolicitedCancel (id : OrderIdRaw) (ts : Timestamp) (s : State W) : State W :=
  s.finishCancel E id ts .UnsolicitedCancel .UnsolicitedCancel true

/-! #### Failure-mode hooks -/

/-- The ack watchdog, for one order: mark it, tell health, attempt a cancel. The order stays
live. -/
def checkAckTimeout (now timeout : Timestamp) (s : State W) (id : OrderIdRaw) : State W :=
  if !s.om.pool.isCurrent id then s
  else
    let o := s.om.orderRef id
    if o.ackTimedOut then s
    else if o.status ≠ .Sent then s
    else if now - o.ts.sent < timeout then s
    else
      let om := s.om.modifyOrder id Order.markTimedOut
      let om := { om with ackTimeoutCount := om.ackTimeoutCount + 1 }
      let venue := (decodeOrderId id).venue
      let w := E.health.onTimeout venue s.world
      let w := E.log .Warn
        ("ACK TIMEOUT id=" ++ toString id ++ " (possibly live; attempting cancel)") w
      match E.registry.get venue with
      | none => { om := om, world := w }
      | some ex =>
        if ex.isConnected w && !o.pendingCancel then
          let (r, w) := ex.cancelOrder id o.exchangeId w
          if r = .Ok then
            { om := om.modifyOrder id Order.markCancelSent, world := w }
          else { om := om, world := w }
        else { om := om, world := w }

def checkAckTimeouts (now timeout : Timestamp) (s : State W) : State W :=
  (E.liveOrder s.world s.om.live).foldl (checkAckTimeout E now timeout) s

def onVenueDisconnect (venue : VenueId) (s : State W) : State W :=
  State.log E .Warn ("venue disconnect venue=" ++ toString venue ++
    "; in-flight orders kept (not assumed dead)")
    { s with world := E.health.onDisconnect venue s.world }

def onVenueReconnect (venue : VenueId) (s : State W) : State W :=
  State.log E .Info ("venue reconnect venue=" ++ toString venue ++ "; reconcile requested")
    { om := { s.om with reconcileRequested := true }
      world := E.health.onReconnect venue s.world }

end State

end Oms
