import Mathlib.Data.List.Sort
import Oms.Foundation.Ascending
import Oms.OrderManager.Steps

/-!
# The simulated venue

`SimulatedExchange.h`, `SimulatedExchange.cpp`: a venue with its own table of orders and its own
positions. Time is logical: `poll` advances it and delivers every due event to the manager, in the
order of due time and sequence number.

* `SimulatedExchange`: the fields of the class; `placeOrder`, `cancelOrder`, `massCancel`;
* `State.deliver`, `State.poll`: delivery, with the order manager as the sink;
* `Env.withSim`: the environment of a manager whose only venue is a simulated one.

The injectors are left out. The seeded generator is the stream of its outcomes,
and the counters are exact: they would have to pass `2 ^ 64` to wrap.
-/

namespace Oms

theorem mem_ascendingOrder (s : Finset OrderIdRaw) (id : OrderIdRaw) : id ∈ s.ascending ↔ id ∈ s :=
  Finset.mem_ascending

structure SimConfig where
  /-- logical time advanced per `poll` -/
  stepNs : Timestamp := 1000000
  /-- send to confirm -/
  ackLatencyNs : Timestamp := 1000000
  /-- send to first fill -/
  fillLatencyNs : Timestamp := 2000000
  /-- between partial fills -/
  fillGapNs : Timestamp := 1000000
  /-- split each order into so many fills -/
  partialChunks : Int32 := 1
  /-- deliver the first fill before the confirm -/
  reorderFillBeforeAck : Bool := false
  startConnected : Bool := true
  /-- what the seeded generator decides, draw after draw: venue rejects, unsolicited cancels and
  duplicate fills, with whatever probabilities are configured -/
  draws : ℕ → Bool := fun _ => false
  /-- the order in which the unordered table of orders is walked -/
  workingOrder : Finset OrderIdRaw → List OrderIdRaw := Finset.ascending
  mem_workingOrder : ∀ s id, id ∈ workingOrder s ↔ id ∈ s := by exact mem_ascendingOrder

inductive EvType
  | Confirm
  | Fill
  | Reject
  | CancelAck
  | CancelReject
  | Unsolicited
  deriving DecidableEq, Repr

structure SimEvent where
  dueAt : Timestamp := 0
  /-- FIFO tie-break for a fully deterministic order -/
  seq : ℕ := 0
  type : EvType := .Confirm
  id : OrderIdRaw := 0
  qty : Quantity := 0
  price : Price := 0
  trade : TradeId := 0
  final : Bool := false
  reason : RejectReason := .Unknown
  deriving DecidableEq

/-- `a` is delivered after `b`. -/
def EventGreater (a b : SimEvent) : Prop :=
  if a.dueAt ≠ b.dueAt then b.dueAt < a.dueAt else b.seq < a.seq

instance : LE SimEvent := ⟨fun a b => ¬ EventGreater a b⟩

instance : DecidableRel (α := SimEvent) (· ≤ ·) := fun a b =>
  inferInstanceAs (Decidable (¬ if a.dueAt ≠ b.dueAt then b.dueAt < a.dueAt else b.seq < a.seq))

theorem SimEvent.le_iff {a b : SimEvent} :
    a ≤ b ↔ a.dueAt < b.dueAt ∨ a.dueAt = b.dueAt ∧ a.seq ≤ b.seq := by
  show (¬ if a.dueAt ≠ b.dueAt then b.dueAt < a.dueAt else b.seq < a.seq) ↔ _
  split_ifs with h <;> lia

instance : Std.Total (α := SimEvent) (· ≤ ·) :=
  ⟨fun a b => by rw [SimEvent.le_iff, SimEvent.le_iff]; lia⟩

instance : IsTrans SimEvent (· ≤ ·) :=
  ⟨fun a b c => by simp only [SimEvent.le_iff]; lia⟩

/-- An order, as the venue keeps it. -/
structure Working where
  instrument : InstrumentId := 0
  side : Side := .Buy
  size : Quantity := 0
  remaining : Quantity := 0
  price : Price := 0
  exchangeId : ExchangeOrderId := ""
  alive : Bool := true
  /-- the venue's de-dup for its own book -/
  seenTrades : Finset TradeId := ∅

structure SimulatedExchange where
  cfg : SimConfig
  connected : Bool
  /-- how many outcomes of the generator were drawn -/
  drawn : ℕ := 0
  now : Timestamp := 0
  seqCounter : ℕ := 0
  exchCounter : ℕ := 0
  tradeCounter : ℕ := 0
  /-- the priority queue, the next event first -/
  queue : List SimEvent := []
  working : Finmap fun _ : OrderIdRaw => Working := ∅
  positions : Holdings := ∅
  books : Finmap fun _ : InstrumentId => TopOfBook := ∅

namespace SimulatedExchange

def init (cfg : SimConfig) : SimulatedExchange where
  cfg := cfg
  connected := cfg.startConnected

def schedule (ev : SimEvent) (x : SimulatedExchange) : SimulatedExchange :=
  { x with
    seqCounter := x.seqCounter + 1
    queue := x.queue.orderedInsert (· ≤ ·) { ev with seq := x.seqCounter } }

/-- The next outcome of the generator. -/
def draw (x : SimulatedExchange) : Bool × SimulatedExchange :=
  (x.cfg.draws x.drawn, { x with drawn := x.drawn + 1 })

def setBook (inst : InstrumentId) (b : TopOfBook) (x : SimulatedExchange) : SimulatedExchange :=
  { x with books := x.books.insert inst b }

def setConnected (c : Bool) (x : SimulatedExchange) : SimulatedExchange := { x with connected := c }

def setPosition (inst : InstrumentId) (q : Quantity) (x : SimulatedExchange) : SimulatedExchange :=
  { x with positions := x.positions.insert inst q }

def getOrderBook (inst : InstrumentId) (x : SimulatedExchange) : TopOfBook :=
  (x.books.lookup inst).getD {}

/-- Schedule a fill under the next trade id, and perhaps a duplicate delivery of the same trade id,
which the manager must de-dup. -/
def scheduleFill (ev : SimEvent) (x : SimulatedExchange) : SimulatedExchange :=
  let x := { x with tradeCounter := x.tradeCounter + 1 }
  let ev := { ev with trade := UInt64.ofNat x.tradeCounter }
  let (dup, x) := (x.schedule ev).draw
  if dup then x.schedule { ev with dueAt := ev.dueAt + 1 } else x

/-- The fills of an order from chunk `i` on, `left` of them still to come. They sum exactly to its
size. -/
def scheduleFills (id : OrderIdRaw) (size : Quantity) (price : Price) (base : Quantity)
    (confirmAt : Timestamp) :
    (left : ℕ) → (i : ℤ) → (assigned : Quantity) → SimulatedExchange → SimulatedExchange
  | 0, _, _, x => x
  | left + 1, i, assigned, x =>
    let last : Bool := left = 0
    let q := if last then size - assigned else base
    if q ≤ 0 then x.scheduleFills id size price base confirmAt left (i + 1) (assigned + q)
    else
      let dueAt :=
        -- deliver the first fill before the confirm
        if x.cfg.reorderFillBeforeAck ∧ i = 0 then confirmAt - 1
        else x.now + x.cfg.fillLatencyNs + i * x.cfg.fillGapNs
      (x.scheduleFill
        { dueAt := dueAt, type := .Fill, id := id, qty := q, price := price, final := last }
      ).scheduleFills id size price base confirmAt left (i + 1) (assigned + q)

/-- Into how many fills an order is split. -/
def chunks (cfg : SimConfig) : Int32 := if cfg.partialChunks < 1 then 1 else cfg.partialChunks

/-- Enter an order into the table. -/
def enter (o : Order) (x : SimulatedExchange) : SimulatedExchange :=
  { x with
    exchCounter := x.exchCounter + 1
    working := x.working.insert o.internalId
      { instrument := o.instrument, side := o.side, size := o.size, remaining := o.size,
        price := o.limitPrice, exchangeId := "SIM-" ++ toString (x.exchCounter + 1) } }

/-- Schedule what becomes of a new order: a reject, a confirm and an unsolicited cancel, or a
confirm and fills. -/
def scheduleOutcome (o : Order) (x : SimulatedExchange) : SimulatedExchange :=
  let (rejected, x) := x.draw
  if rejected then
    x.schedule
      { dueAt := x.now + x.cfg.ackLatencyNs, type := .Reject, id := o.internalId,
        reason := .RiskLimit }
  else
    let confirmAt := x.now + x.cfg.ackLatencyNs
    let x := x.schedule { dueAt := confirmAt, type := .Confirm, id := o.internalId }
    let (unsolicited, x) := x.draw
    if unsolicited then
      x.schedule
        { dueAt := confirmAt + x.cfg.fillLatencyNs, type := .Unsolicited, id := o.internalId }
    else
      let n := (chunks x.cfg).toInt
      x.scheduleFills o.internalId o.size o.limitPrice (o.size.tdiv n) confirmAt n.toNat 0 0

def placeOrder (o : Order) (x : SimulatedExchange) : SendResult × SimulatedExchange :=
  if !x.connected then (.TransportDown, x) else (.Ok, (x.enter o).scheduleOutcome o)

/-- The venue still works the order of an id. -/
def isAlive (x : SimulatedExchange) (id : OrderIdRaw) : Bool :=
  (x.working.lookup id).any Working.alive

def cancelOrder (id : OrderIdRaw) (x : SimulatedExchange) : SendResult × SimulatedExchange :=
  if !x.connected then (.TransportDown, x)
  else if x.isAlive id then
    (.Ok, x.schedule { dueAt := x.now + x.cfg.ackLatencyNs, type := .CancelAck, id := id })
  else
    -- nothing to cancel (already gone): the venue will cancel-reject
    (.Ok, x.schedule
      { dueAt := x.now + x.cfg.ackLatencyNs, type := .CancelReject, id := id,
        reason := .CancelRejected })

def massCancel (inst : InstrumentId) (x : SimulatedExchange) : SendResult × SimulatedExchange :=
  if !x.connected then (.TransportDown, x)
  else
    (.Ok, (x.cfg.workingOrder x.working.keys).foldl (fun y id =>
      if (x.working.lookup id).any fun w => w.alive && w.instrument = inst then
        y.schedule { dueAt := y.now + y.cfg.ackLatencyNs, type := .CancelAck, id := id }
      else y) x)

/-! ### The venue's own book -/

/-- The book after a fill event: only the first sighting of a trade id counts. -/
def bookFill (ev : SimEvent) (x : SimulatedExchange) : SimulatedExchange :=
  match x.working.lookup ev.id with
  | none => x
  | some w =>
    let seen := { w with seenTrades := insert ev.trade w.seenTrades }
    if ev.trade ∉ w.seenTrades ∧ w.alive then
      { x with
        working := x.working.insert ev.id
          { seen with
            remaining := w.remaining - ev.qty
            alive := if ev.final ∨ w.remaining - ev.qty ≤ 0 then false else w.alive }
        positions := x.positions.adjust w.instrument (signedQty w.side ev.qty) }
    else { x with working := x.working.insert ev.id seen }

/-- The order of an id is gone. -/
def kill (id : OrderIdRaw) (x : SimulatedExchange) : SimulatedExchange :=
  match x.working.lookup id with
  | none => x
  | some w => { x with working := x.working.insert id { w with alive := false } }

end SimulatedExchange

/-! ### The venue and the manager -/

/-- The simulated venue as the manager sees it. -/
def simClient {B : Type} : ExchangeClient (SimulatedExchange × B) where
  placeOrder := fun o w => ((w.1.placeOrder o).1, (w.1.placeOrder o).2, w.2)
  cancelOrder := fun id _ w => ((w.1.cancelOrder id).1, (w.1.cancelOrder id).2, w.2)
  getPositions := fun w => (w.1.positions, w)
  getOrderBook := fun inst w => (w.1.getOrderBook inst, w)
  isConnected := fun w => w.1.connected

/-- The environment of a manager whose only venue is a simulated one. The rest of the world may
look at the venue, and does not act on it. -/
def Env.withSim {B : Type} (E : SimulatedExchange → Env B) (venue : VenueId) :
    Env (SimulatedExchange × B) where
  registry := ⟨List.replicate venue.toNat none ++ [some simClient]⟩
  router :=
    ⟨fun inst side qty w =>
      (((E w.1).router.select inst side qty w.2).1, w.1,
        ((E w.1).router.select inst side qty w.2).2)⟩
  health :=
    { onOrderSent := fun venue ts w => (w.1, (E w.1).health.onOrderSent venue ts w.2)
      onAck := fun venue latency w => (w.1, (E w.1).health.onAck venue latency w.2)
      onReject := fun venue benign w => (w.1, (E w.1).health.onReject venue benign w.2)
      onFill := fun venue w => (w.1, (E w.1).health.onFill venue w.2)
      onTimeout := fun venue w => (w.1, (E w.1).health.onTimeout venue w.2)
      onDisconnect := fun venue w => (w.1, (E w.1).health.onDisconnect venue w.2)
      onReconnect := fun venue w => (w.1, (E w.1).health.onReconnect venue w.2) }
  log := fun level line w => (w.1, (E w.1).log level line w.2)
  clock := fun w => (E w.1).clock w.2
  publish := fun e om w => (w.1, (E w.1).publish e om w.2)
  liveOrder := fun w => (E w.1).liveOrder w.2
  mem_liveOrder := fun w => (E w.1).mem_liveOrder w.2
  nodup_liveOrder := fun w => (E w.1).nodup_liveOrder w.2

namespace State

variable {B : Type} (E : Env (SimulatedExchange × B))

/-- Act on the venue. -/
def modifySim (f : SimulatedExchange → SimulatedExchange) (s : State (SimulatedExchange × B)) :
    State (SimulatedExchange × B) :=
  { s with world := (f s.world.1, s.world.2) }

/-- Deliver an event: the venue books it, then the manager hears of it. -/
def deliver (ev : SimEvent) (s : State (SimulatedExchange × B)) : State (SimulatedExchange × B) :=
  match ev.type with
  | .Confirm =>
    s.onConfirm E ev.id (((s.world.1.working.lookup ev.id).map Working.exchangeId).getD "") ev.dueAt
  | .Fill =>
    -- also the duplicates: the guards of the manager are exercised
    (s.modifySim (.bookFill ev)).onFill E ev.id ev.qty ev.price ev.trade ev.dueAt
  | .Reject => (s.modifySim (.kill ev.id)).onReject E ev.id ev.reason ev.dueAt
  | .CancelAck => (s.modifySim (.kill ev.id)).onCancelAck E ev.id ev.dueAt
  | .CancelReject => s.onReject E ev.id .CancelRejected ev.dueAt
  | .Unsolicited => (s.modifySim (.kill ev.id)).onUnsolicitedCancel E ev.id ev.dueAt

/-- The loop of `poll`, for at most `fuel` events. -/
def drain : (fuel : ℕ) → State (SimulatedExchange × B) → State (SimulatedExchange × B)
  | 0, s => s
  | fuel + 1, s =>
    match s.world.1.queue with
    | [] => s
    | ev :: rest =>
      if ev.dueAt ≤ s.world.1.now then
        drain fuel ((s.modifySim fun x => { x with queue := rest }).deliver E ev)
      else s

/-- Advance the clock and deliver what is due. Delivery schedules nothing, so the length of the
queue is enough fuel. -/
def poll (s : State (SimulatedExchange × B)) : State (SimulatedExchange × B) :=
  drain E s.world.1.queue.length
    (s.modifySim fun x => { x with now := x.now + x.cfg.stepNs })

end State

/-- What can be done to a manager and its simulated venue from outside. -/
inductive SimOp
  | oms (op : Op)
  | massCancel (inst : InstrumentId)
  | setConnected (c : Bool)
  | setBook (inst : InstrumentId) (b : TopOfBook)
  | poll

/-- The calls of a run: no inbound event but those the venue delivers, and requests with a positive
size and price. -/
def SimOp.Allowed : SimOp → Prop
  | .oms op => op.inboundId = none ∧ ∀ req, op = .submit req → 0 < req.size ∧ 0 < req.price
  | _ => True

/-- The manager and its simulated venue as a machine. -/
def simMachine {B : Type} (E : SimulatedExchange → Env B) (venue : VenueId) :
    Machine (State (SimulatedExchange × B)) SimOp where
  step := fun s op =>
    match op with
    | .oms op => s.step (.withSim E venue) op
    | .massCancel inst => s.modifySim fun x => (x.massCancel inst).2
    | .setConnected c => s.modifySim (.setConnected c)
    | .setBook inst b => s.modifySim (.setBook inst b)
    | .poll => s.poll (.withSim E venue)

end Oms
