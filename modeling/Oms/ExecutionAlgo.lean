import Oms.Foundation.Ascending
import Oms.OrderManager.Steps

/-!
# Execution algos

`ExecutionAlgo.h`, `ExecutionAlgo.cpp`: TWAP and POV work a parent order through child orders, which
they submit to the order manager, and hear of their children through a dispatcher.

* `AlgoBase`: the bookkeeping of children that both algos share;
* `TwapAlgo`: equal slices, each sized by what is left;
* `PovAlgo`: children in proportion to the observed volume, with a TWAP as its fallback;
* `AlgoDispatcher.onOrderEvent`, `Env.withAlgo`: events reach an algo by the tag on the order;
* `algoMachine`: an algo and the manager it trades through.

The pointer to the manager is never null here: the manager is the state that a call receives.
-/

namespace Oms

/-- A parent execution request handed to an algo. -/
structure ParentOrder where
  instrument : InstrumentId := 0
  side : Side := .Buy
  /-- total magnitude to execute -/
  qty : Quantity := 0
  start : Timestamp := 0
  endAt : Timestamp := 0
  /-- limit price for child orders -/
  limit : Price := 0
  strategyId : StrategyId := 0

structure AlgoStats where
  targetQty : Quantity := 0
  filledQty : Quantity := 0
  /-- POV: cumulative observed volume -/
  marketVolume : Quantity := 0
  childOrders : ℕ := 0
  /-- POV: intervals skipped under the floor -/
  idleIntervals : ℕ := 0
  /-- POV: fell back to a TWAP schedule -/
  degradedToTwap : Bool := false
  incompleteAtDeadline : Bool := false

/-- The pull side of market data. -/
structure MarketDataSource (W : Type) where
  topOfBook : InstrumentId → W → TopOfBook
  /-- traded volume since a time -/
  volumeSince : InstrumentId → Timestamp → W → Quantity

structure AlgoConfig (W : Type) where
  mds : Option (MarketDataSource W) := none
  /-- the log sink, which does nothing when none is configured -/
  log : LogLevel → String → W → W := fun _ _ w => w
  /-- self-fill routing tag, stamped on each child order -/
  workerOffset : ScratchOffset := 0
  workerIndex : ℤ := 0
  algoTag : AlgoTag := 0
  /-- TWAP -/
  slices : ℤ := 10
  /-- POV: the participation rate times a volume, rounded as the floating-point product is -/
  participation : Quantity → Quantity := fun volume => volume / 10
  /-- below this observed volume, idle -/
  minVolumeFloor : Quantity := 0
  /-- shortfall beyond this, degrade to TWAP -/
  catchUpThreshold : Quantity := 0
  residualTwapSlices : ℤ := 5
  /-- the order in which the unordered map of children is walked -/
  childOrder : Finset OrderIdRaw → List OrderIdRaw := Finset.ascending

def ceilDiv (a b : Quantity) : Quantity := if b ≤ 0 then a else (a + b - 1).tdiv b

/-! ### Shared child-order bookkeeping -/

structure AlgoBase (W : Type) where
  config : AlgoConfig W
  parent : ParentOrder := {}
  filled : Quantity := 0
  sentTotal : Quantity := 0
  /-- id to remaining -/
  children : Finmap fun _ : OrderIdRaw => Quantity := ∅
  stats : AlgoStats := {}
  done : Bool := false

namespace AlgoBase

variable {W : Type} (E : Env W) (a : AlgoBase W)

/-- Open child quantity. -/
def inflight : Quantity := a.children.sumOver fun _ rem => rem

/-- Target minus filled minus what is in flight. -/
def remainingQuantity (inflight : Quantity) : Quantity :=
  let r := a.parent.qty - a.filled - inflight
  if 0 < r then r else 0

/-- Aggressive price for a deadline cross. -/
def crossPrice (w : W) : Price :=
  match a.config.mds with
  | none => a.parent.limit
  | some mds =>
    let b := mds.topOfBook a.parent.instrument w
    let p := if a.parent.side = .Buy then b.ask else b.bid
    if 0 < p then p else a.parent.limit

def childRequest (qty : Quantity) (price : Price) (type : OrderType) : OrderRequest where
  instrument := a.parent.instrument
  side := a.parent.side
  size := qty
  price := price
  type := type
  strategyId := a.parent.strategyId
  algoTag := a.config.algoTag
  workerIndex := a.config.workerIndex
  workerOffset := a.config.workerOffset

/-- Book a child that was sent. -/
def addChild (id : OrderIdRaw) (qty : Quantity) : AlgoBase W :=
  { a with
    children := a.children.insert id qty
    sentTotal := a.sentTotal + qty
    stats := { a.stats with childOrders := a.stats.childOrders + 1 } }

def sendChild (qty : Quantity) (price : Price) (type : OrderType) (s : State W) :
    OrderIdRaw × AlgoBase W × State W :=
  if qty ≤ 0 then (0, a, s)
  else
    let (id, s) := s.submit E (a.childRequest qty price type)
    if id ≠ 0 then (id, a.addChild id qty, s) else (id, a, s)

def onFill (o : Order) (qty : Quantity) (_price : Price) : AlgoBase W :=
  { a with
    filled := a.filled + qty
    stats := { a.stats with filledQty := a.filled + qty }
    children :=
      if o.internalId ∈ a.children then
        if o.status = .Filled then a.children.erase o.internalId
        else a.children.insert o.internalId o.remaining
      else a.children
    done := if a.parent.qty ≤ a.filled + qty then true else a.done }

/-- A child is gone. -/
def dropChild (id : OrderIdRaw) : AlgoBase W := { a with children := a.children.erase id }

def onReject (o : Order) (_reason : RejectReason) : AlgoBase W := a.dropChild o.internalId

def onCancel (o : Order) : AlgoBase W := a.dropChild o.internalId

/-- Ask the manager to cancel every child. -/
def cancel (s : State W) : State W :=
  (a.config.childOrder a.children.keys).foldl (fun s id => (s.cancel E id).2) s

end AlgoBase

/-! ### TWAP -/

/-- Divide the parent's window into `n` equal slices; each slice sizes itself by what remains, so
that prior partial fills are absorbed. -/
structure TwapAlgo (W : Type) extends AlgoBase W where
  sliceDur : Timestamp := 1
  n : ℕ := 1
  slicesDone : ℕ := 0
  deadlineDone : Bool := false

namespace TwapAlgo

variable {W : Type} (E : Env W) (a : TwapAlgo W)

def start (p : ParentOrder) : TwapAlgo W :=
  let n := max 1 a.config.slices
  let span := if p.start < p.endAt then p.endAt - p.start else 1
  { a with
    parent := p
    stats := { a.stats with targetQty := p.qty }
    n := n.toNat
    sliceDur := max 1 (span.tdiv n) }

/-- A slice boundary is due. -/
def sliceDue (now : Timestamp) : Bool :=
  a.slicesDone < a.n && a.parent.start + a.slicesDone * a.sliceDur ≤ now

/-- The size of the next slice. -/
def sliceQty : Quantity :=
  let remainingSlices := a.n - a.slicesDone
  let rem := a.remainingQuantity a.inflight
  let qty := if remainingSlices ≤ 1 then rem else ceilDiv rem remainingSlices
  if rem < qty then rem else qty

/-- One round of the slice loop: the id of the child it sent, or `0`. -/
def fireSlice (s : State W) : OrderIdRaw × TwapAlgo W × State W :=
  let qty := a.sliceQty
  let a := { a with slicesDone := a.slicesDone + 1 }
  -- skip a zero slice; never send a zero order
  if qty ≤ 0 then (0, a, s)
  else
    let (id, b, s) := a.sendChild E qty a.parent.limit .Limit s
    (id, { a with toAlgoBase := b }, s)

/-- At most `rounds` rounds of the slice loop, as long as a boundary is due. -/
def fireSlices (now : Timestamp) : (rounds : ℕ) → TwapAlgo W → State W → TwapAlgo W × State W
  | 0, a, s => (a, s)
  | rounds + 1, a, s =>
    if a.sliceDue now then
      let (_, a, s) := a.fireSlice E s
      fireSlices now rounds a s
    else (a, s)

/-- Cancel what works and cross what is neither filled nor in flight, once. -/
def deadlineCross (s : State W) : TwapAlgo W × State W :=
  if a.deadlineDone then (a, s)
  else
    let a := { a with deadlineDone := true }
    let s := a.cancel E s
    let residual := a.parent.qty - a.filled - a.inflight
    if 0 < residual then
      let s := { s with
        world := a.config.log .Warn ("TWAP deadline: crossing residual=" ++ toString residual)
          s.world }
      let (_, b, s) := a.sendChild E residual (a.crossPrice s.world) .IOC s
      ({ a with toAlgoBase := b }, s)
    else (a, s)

/-- After the deadline the algo is done as soon as nothing is in flight. -/
def settleDeadline : TwapAlgo W :=
  if a.inflight = 0 then
    { a with
      stats :=
        { a.stats with
          incompleteAtDeadline :=
            if a.filled < a.parent.qty then true else a.stats.incompleteAtDeadline }
      done := true }
  else a

def onTimer (now : Timestamp) (s : State W) : TwapAlgo W × State W :=
  if a.done then (a, s)
  else if a.parent.endAt ≤ now then
    let (a, s) := a.deadlineCross E s
    (a.settleDeadline, s)
  else
    -- every round counts a slice, so these are enough
    let (a, s) := a.fireSlices E now (a.n - a.slicesDone) s
    ({ a with done := if a.parent.qty ≤ a.filled then true else a.done }, s)

def onFill (o : Order) (qty : Quantity) (price : Price) : TwapAlgo W :=
  { a with toAlgoBase := a.toAlgoBase.onFill o qty price }

def onReject (o : Order) (reason : RejectReason) : TwapAlgo W :=
  { a with toAlgoBase := a.toAlgoBase.onReject o reason }

def onCancel (o : Order) : TwapAlgo W := { a with toAlgoBase := a.toAlgoBase.onCancel o }

end TwapAlgo

/-! ### POV -/

/-- Each interval sizes a child by the observed volume; when volume dries up, a held TWAP takes over
the residual. -/
structure PovAlgo (W : Type) extends AlgoBase W where
  lastTick : Timestamp := 0
  marketVolume : Quantity := 0
  degraded : Bool := false
  deadlineDone : Bool := false
  twap : Option (TwapAlgo W) := none

namespace PovAlgo

variable {W : Type} (E : Env W) (a : PovAlgo W)

def start (p : ParentOrder) : PovAlgo W :=
  { a with
    parent := p
    stats := { a.stats with targetQty := p.qty }
    lastTick := p.start }

/-- The TWAP that works the residual after degradation. -/
def held : Option (TwapAlgo W) := if a.degraded then a.twap else none

/-- Own children from before degradation, and those the held TWAP manages. -/
def inflight : Quantity :=
  a.toAlgoBase.inflight + (a.held.map fun t => t.toAlgoBase.inflight).getD 0

/-- Forward an event to the held TWAP, unless it is about an own child. -/
def forward (o : Order) (f : TwapAlgo W → TwapAlgo W) : Option (TwapAlgo W) :=
  if o.internalId ∈ a.children then a.twap
  else if a.degraded then a.twap.map f else a.twap

def onFill (o : Order) (qty : Quantity) (price : Price) : PovAlgo W :=
  { a with
    toAlgoBase := a.toAlgoBase.onFill o qty price
    twap := a.forward o fun t => t.onFill o qty price }

def onReject (o : Order) (reason : RejectReason) : PovAlgo W :=
  { a with
    toAlgoBase := a.toAlgoBase.onReject o reason
    twap := a.forward o fun t => t.onReject o reason }

def onCancel (o : Order) : PovAlgo W :=
  { a with
    toAlgoBase := a.toAlgoBase.onCancel o
    twap := a.forward o fun t => t.onCancel o }

def cancel (s : State W) : State W :=
  let s := a.toAlgoBase.cancel E s
  match a.held with
  | none => s
  | some t => t.toAlgoBase.cancel E s

/-- Hand the residual to a TWAP over the rest of the window. -/
def degradeToTwap (now : Timestamp) (s : State W) : PovAlgo W × State W :=
  let s := { s with
    world := a.config.log .Warn "POV degrading to TWAP over residual window" s.world }
  let t : TwapAlgo W := { config := { a.config with slices := a.config.residualTwapSlices } }
  let a := { a with
    degraded := true
    stats := { a.stats with degradedToTwap := true }
    twap := some t }
  let resid := { a.parent with qty := a.remainingQuantity a.inflight, start := now }
  ({ a with twap := some (t.start resid) }, s)

/-- Let the held TWAP run its own deadline policy, or cancel what works and cross what is not
filled, once. -/
def deadlineCross (now : Timestamp) (s : State W) : PovAlgo W × State W :=
  if a.deadlineDone then (a, s)
  else
    let a := { a with deadlineDone := true }
    match a.held with
    | some t =>
      let (t, s) := t.onTimer E now s
      ({ a with twap := some t }, s)
    | none =>
      let s := a.cancel E s
      let residual := a.parent.qty - a.filled
      if 0 < residual then
        let s := { s with
          world := a.config.log .Warn ("POV deadline: crossing residual=" ++ toString residual)
            s.world }
        let (_, b, s) := a.sendChild E residual (a.crossPrice s.world) .IOC s
        ({ a with toAlgoBase := b }, s)
      else (a, s)

/-- After the deadline the algo is done as soon as nothing is in flight. -/
def settleDeadline : PovAlgo W :=
  if a.inflight = 0 then
    { a with
      stats :=
        { a.stats with
          incompleteAtDeadline :=
            if a.filled < a.parent.qty then true else a.stats.incompleteAtDeadline }
      done := true }
  else a

/-- The volume of this interval. -/
def observedVolume (w : W) : Quantity :=
  (a.config.mds.map fun mds => mds.volumeSince a.parent.instrument a.lastTick w).getD 0

/-- Count the volume of an interval. -/
def observe (now : Timestamp) (vol : Quantity) : PovAlgo W :=
  { a with
    lastTick := now
    marketVolume := a.marketVolume + vol
    stats := { a.stats with marketVolume := a.marketVolume + vol } }

/-- Idle under the floor, degrade on a shortfall, otherwise send a child in proportion to the
volume. -/
def react (now : Timestamp) (vol : Quantity) (s : State W) : PovAlgo W × State W :=
  if vol < a.config.minVolumeFloor ∨ vol ≤ 0 then
    ({ a with stats := { a.stats with idleIntervals := a.stats.idleIntervals + 1 } }, s)
  else
    let shortfall := a.config.participation a.marketVolume - a.filled
    if 0 < a.config.catchUpThreshold ∧ a.config.catchUpThreshold < shortfall then
      let (a, s) := a.degradeToTwap now s
      match a.twap with
      | none => (a, s)
      | some t =>
        let (t, s) := t.onTimer E now s
        ({ a with twap := some t }, s)
    else
      let child := a.config.participation vol
      let rem := a.remainingQuantity a.inflight
      let child := if rem < child then rem else child
      if child ≤ 0 then (a, s)
      else
        let (_, b, s) := a.sendChild E child a.parent.limit .Limit s
        ({ a with toAlgoBase := b }, s)

def onTimer (now : Timestamp) (s : State W) : PovAlgo W × State W :=
  if a.done then (a, s)
  else if a.parent.endAt ≤ now then
    let (a, s) := a.deadlineCross E now s
    (a.settleDeadline, s)
  else
    match a.held with
    | some t =>
      let (t, s) := t.onTimer E now s
      ({ a with twap := some t, done := if t.done then true else a.done }, s)
    | none =>
      let vol := a.observedVolume s.world
      (a.observe now vol).react E now vol s

end PovAlgo

/-! ### Dispatching -/

/-- The interface the dispatcher and the timers use. -/
class ExecutionAlgo (A : Type → Type) where
  onTimer : {W : Type} → Env W → Timestamp → A W → State W → A W × State W
  onFill : {W : Type} → Order → Quantity → Price → A W → A W
  onReject : {W : Type} → Order → RejectReason → A W → A W
  onCancel : {W : Type} → Order → A W → A W
  cancel : {W : Type} → Env W → A W → State W → State W

instance : ExecutionAlgo TwapAlgo where
  onTimer := fun E now a s => a.onTimer E now s
  onFill := fun o qty price a => a.onFill o qty price
  onReject := fun o reason a => a.onReject o reason
  onCancel := fun o a => a.onCancel o
  cancel := fun E a s => a.toAlgoBase.cancel E s

instance : ExecutionAlgo PovAlgo where
  onTimer := fun E now a s => a.onTimer E now s
  onFill := fun o qty price a => a.onFill o qty price
  onReject := fun o reason a => a.onReject o reason
  onCancel := fun o a => a.onCancel o
  cancel := fun E a s => a.cancel E s

section Dispatch

variable {A : Type → Type} [ExecutionAlgo A] {B : Type}

/-- The body of the dispatcher's loop, for one of its registrations: the algo hears of the order if
the scratch field holds its index. -/
def AlgoDispatcher.notify (offset : ScratchOffset) (index : ℤ) (o : Order) (e : OrderEvent)
    (a : A B) : A B :=
  if o.retrieveIntData offset ≠ index then a
  else
    match e.kind with
    | .PartialFill | .Fill => ExecutionAlgo.onFill o e.lastQty e.lastPrice a
    | .Rejected => ExecutionAlgo.onReject o e.reason a
    | .Cancelled | .UnsolicitedCancel => ExecutionAlgo.onCancel o a
    | .Confirmed => a

/-- Route an event to the owning algo by the order the manager finds for it. -/
def AlgoDispatcher.onOrderEvent (offset : ScratchOffset) (index : ℤ) (e : OrderEvent)
    (om : OrderManager) (a : A B) : A B :=
  match om.find e.internalId with
  | none => a
  | some o => notify offset index o e a

/-- A client that leaves a part of the world alone. -/
def ExchangeClient.beside {A : Type} (ex : ExchangeClient B) : ExchangeClient (B × A) where
  placeOrder := fun o w => ((ex.placeOrder o w.1).1, (ex.placeOrder o w.1).2, w.2)
  cancelOrder := fun id exchId w =>
    ((ex.cancelOrder id exchId w.1).1, (ex.cancelOrder id exchId w.1).2, w.2)
  getPositions := fun w => ((ex.getPositions w.1).1, (ex.getPositions w.1).2, w.2)
  getOrderBook := fun inst w => ((ex.getOrderBook inst w.1).1, (ex.getOrderBook inst w.1).2, w.2)
  isConnected := fun w => ex.isConnected w.1

/-- An environment that leaves a part of the world alone. -/
def Env.beside {A : Type} (E : Env B) : Env (B × A) where
  registry := ⟨E.registry.byVenue.map fun ex => ex.map ExchangeClient.beside⟩
  router :=
    ⟨fun inst side qty w =>
      ((E.router.select inst side qty w.1).1, (E.router.select inst side qty w.1).2, w.2)⟩
  health :=
    { onOrderSent := fun venue ts w => (E.health.onOrderSent venue ts w.1, w.2)
      onAck := fun venue latency w => (E.health.onAck venue latency w.1, w.2)
      onReject := fun venue benign w => (E.health.onReject venue benign w.1, w.2)
      onFill := fun venue w => (E.health.onFill venue w.1, w.2)
      onTimeout := fun venue w => (E.health.onTimeout venue w.1, w.2)
      onDisconnect := fun venue w => (E.health.onDisconnect venue w.1, w.2)
      onReconnect := fun venue w => (E.health.onReconnect venue w.1, w.2) }
  log := fun level line w => (E.log level line w.1, w.2)
  clock := fun w => E.clock w.1
  publish := fun e om w => (E.publish e om w.1, w.2)
  liveOrder := fun w => E.liveOrder w.1
  mem_liveOrder := fun w => E.mem_liveOrder w.1
  nodup_liveOrder := fun w => E.nodup_liveOrder w.1

/-- The environment in which the dispatcher is subscribed for an algo. -/
def Env.withAlgo (E : Env B) (offset : ScratchOffset) (index : ℤ) : Env (B × A B) :=
  { E.beside with
    publish := fun e om w =>
      (E.publish e om w.1, AlgoDispatcher.onOrderEvent offset index e om w.2) }

/-- What can happen to an algo and the manager it trades through. -/
inductive AlgoOp
  | oms (op : Op)
  | timer (now : Timestamp)
  | cancel

/-- Other requests do not carry the tag of the algo. -/
def AlgoOp.Foreign (offset : ScratchOffset) (index : ℤ) (op : AlgoOp) : Prop :=
  ∀ req, op = .oms (.submit req) →
    ∀ id now, (req.stamp id now {}).retrieveIntData offset ≠ index

/-- An algo and its manager as a machine. Neither `submit` nor `cancel` publishes an event, so the
algo is not called back while one of its own calls runs. -/
def algoMachine (E : Env B) (offset : ScratchOffset) (index : ℤ) :
    Machine (State (B × A B)) AlgoOp where
  step := fun s op =>
    match op with
    | .oms op => s.step (E.withAlgo offset index) op
    | .timer now =>
      let (a, s') := ExecutionAlgo.onTimer E now s.world.2 ⟨s.om, s.world.1⟩
      ⟨s'.om, s'.world, a⟩
    | .cancel =>
      let s' := ExecutionAlgo.cancel E s.world.2 ⟨s.om, s.world.1⟩
      ⟨s'.om, s'.world, s.world.2⟩

end Dispatch

end Oms
