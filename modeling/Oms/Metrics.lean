import Oms.ExecutionAlgo.Listening
import Oms.RingBuffer

/-!
# Execution-quality metrics

`Metrics.h`, `Metrics.cpp`: a listener on the order events, which samples the slippage, the ack
latency and the time to fill of the orders. Reports are made of the samples off the hot path.

* `Distribution`: samples in a ring, with their running sum;
* `bps`: the slippage of a price against a reference, in basis points;
* `MetricsCollector`: the fields that the listener reads and writes; `onOrderEvent`: the listener;
* `metricsMachine`: a manager with a collector that is subscribed from the start.
-/

namespace Oms

/-- Bounded distribution. -/
structure Distribution where
  buf : RingBuffer ℤ := .new 1024
  /-- of all samples ever added -/
  sum : ℤ := 0
  countAll : ℕ := 0

def Distribution.add (d : Distribution) (v : ℤ) : Distribution where
  buf := d.buf.push v
  sum := d.sum + v
  countAll := d.countAll + 1

/-- Signed slippage in basis points of an average against a reference price, for a sign that is `1`
for a buy and `-1` for a sell. -/
def bps (rnd : ℚ → ℚ) (avg ref : Price) (sign : ℤ) : ℤ :=
  if ref = 0 then 0
  else
    let diff := rnd (rnd (avg - ref : ℤ) * rnd sign)
    truncate (rnd (rnd (diff / rnd ref) * 10000))

structure MetricsCollector (W : Type) where
  mds : Option (MarketDataSource W) := none
  /-- the mid of the book when an order was confirmed -/
  arrivalMid : Finmap fun _ : OrderIdRaw => Price := ∅
  refVwap : Finmap fun _ : InstrumentId => Price := ∅
  slipArrival : Distribution := {}
  slipVwap : Distribution := {}
  ttf : Distribution := {}
  ackLatency : Distribution := {}
  filledOrders : ℕ := 0

namespace MetricsCollector

variable {W : Type} (rnd : ℚ → ℚ) (m : MetricsCollector W)

/-- A reference price per instrument. -/
def setReferenceVwap (inst : InstrumentId) (vwap : Price) : MetricsCollector W :=
  { m with refVwap := m.refVwap.insert inst vwap }

/-- Capture the arrival mid once, at confirm time. -/
def captureArrival (e : OrderEvent) (w : W) : MetricsCollector W :=
  match m.mds with
  | none => m
  | some mds =>
    if e.internalId ∈ m.arrivalMid then m
    else { m with
      arrivalMid := m.arrivalMid.insert e.internalId (mds.topOfBook e.instrument w).mid }

def onConfirmed (e : OrderEvent) (o : Order) (w : W) : MetricsCollector W :=
  let m := m.captureArrival e w
  { m with ackLatency := m.ackLatency.add (o.ts.confirmed - o.ts.sent) }

/-- The samples of an order that is fully filled. -/
def onFilled (e : OrderEvent) (o : Order) : MetricsCollector W :=
  let sign : ℤ := if o.side = .Buy then 1 else -1
  let avg := o.avgFillPrice
  let arrival := m.arrivalMid.get e.internalId
  let vwap := m.refVwap.get e.instrument
  { m with
    filledOrders := m.filledOrders + 1
    slipArrival := if 0 < arrival then m.slipArrival.add (bps rnd avg arrival sign)
      else m.slipArrival
    slipVwap := if 0 < vwap then m.slipVwap.add (bps rnd avg vwap sign) else m.slipVwap
    ttf := if o.ts.created ≤ o.ts.terminal then m.ttf.add (o.ts.terminal - o.ts.created) else m.ttf
    arrivalMid := m.arrivalMid.erase e.internalId }

/-- The listener. Corrective orders are excluded. -/
def onOrderEvent (e : OrderEvent) (om : OrderManager) (w : W) : MetricsCollector W :=
  match om.find e.internalId with
  | none => m
  | some o =>
    if o.reconciliation then m
    else
      match e.kind with
      | .Confirmed => m.onConfirmed e o w
      | .Fill => m.onFilled rnd e o
      | _ => m

end MetricsCollector

/-! ### Runs -/

/-- What can happen to a collector and the manager that it listens to. Between two calls the market
may move in any way. -/
inductive MetricsOp (V : Type)
  | oms (op : Op)
  | market (v : V)
  | referenceVwap (inst : InstrumentId) (vwap : Price)

section Runs

variable {W V : Type}

/-- What the collector makes of an event, in the market as it is. -/
def hearMetrics (rnd : ℚ → ℚ) (e : OrderEvent) (om : OrderManager) (c : V × MetricsCollector V) :
    V × MetricsCollector V := (c.1, c.2.onOrderEvent rnd e om c.1)

/-- The manager with the venues, the market and the collector. -/
abbrev MeteredState (W V : Type) := State (W × V × MetricsCollector V)

/-- A manager with a collector that is subscribed. -/
def metricsMachine (rnd : ℚ → ℚ) (E : Env W) : Machine (MeteredState W V) (MetricsOp V) where
  step := fun s op =>
    match op with
    | .oms op => s.step (E.listening (hearMetrics rnd)) op
    | .market v => { s with world := (s.world.1, v, s.world.2.2) }
    | .referenceVwap inst vwap =>
      { s with world := (s.world.1, s.world.2.1, s.world.2.2.setReferenceVwap inst vwap) }

/-- A fresh manager and a fresh collector. -/
def MeteredState.fresh (capacity : PoolCapacity) (w : W) (v : V)
    (mds : Option (MarketDataSource V)) : MeteredState W V :=
  ⟨.init capacity, w, v, { mds := mds }⟩

end Runs

end Oms
