import Mathlib.Data.Finmap
import Oms.Order

/-!
# The interfaces the order manager depends on

`ExchangeClient.h`, `ExchangeRegistry.h`, `Router.h`, `Health.h`, `Logging.h`, `MarketData.h`. The
order manager knows venues, routing, health and logging only through virtual interfaces. An
interface is a record of functions over a world `W`, which holds the state of everything behind
it; a `const` method reads the world, any other method may change it.
-/

namespace Oms

/-- Result of a send or cancel attempt. -/
inductive SendResult
  | Ok
  /-- failed pre-transport validation or risk -/
  | RejectedLocally
  /-- not connected -/
  | TransportDown
  | RateLimited
  | Duplicate
  deriving DecidableEq, Repr

/-- Why an order (or a cancel) was rejected by the venue. -/
inductive RejectReason
  | Unknown
  | RiskLimit
  | InvalidPrice
  | InvalidSize
  | PostOnlyWouldCross
  | RateLimited
  | TransportError
  /-- a cancel could not be applied (may be a benign fill race) -/
  | CancelRejected
  deriving DecidableEq, Repr

inductive LogLevel
  | Info
  | Warn
  | Error
  deriving DecidableEq, Repr

structure TopOfBook where
  bid : Price := 0
  ask : Price := 0
  bidSize : Quantity := 0
  askSize : Quantity := 0
  ts : Timestamp := 0
  deriving DecidableEq, Repr

def TopOfBook.mid (b : TopOfBook) : Price := (b.bid + b.ask).tdiv 2

/-- Positions by instrument, as a venue reports them. -/
abbrev Holdings := Finmap fun _ : InstrumentId => Quantity

/-- One venue, as the order manager and the reconciler see it. -/
structure ExchangeClient (W : Type) where
  placeOrder : Order → W → SendResult × W
  cancelOrder : OrderIdRaw → ExchangeOrderId → W → SendResult × W
  getPositions : W → Holdings × W
  getOrderBook : InstrumentId → W → TopOfBook × W
  isConnected : W → Bool

/-- The registered clients; the index is the venue id. -/
structure ExchangeRegistry (W : Type) where
  byVenue : List (Option (ExchangeClient W))

namespace ExchangeRegistry

variable {W : Type}

def get (r : ExchangeRegistry W) (v : VenueId) : Option (ExchangeClient W) :=
  (r.byVenue[v.toNat]?).join

def venues (r : ExchangeRegistry W) : List VenueId :=
  ((List.range r.byVenue.length).filter fun i => ((r.byVenue[i]?).join).isSome).map UInt8.ofNat

end ExchangeRegistry

structure Router (W : Type) where
  /-- a venue for this order, or none when no venue is tradeable (all-down) -/
  select : InstrumentId → Side → Quantity → W → Option VenueId × W

/-- The health model, as the order manager reports to it. -/
structure HealthModel (W : Type) where
  onOrderSent : VenueId → Timestamp → W → W
  onAck : VenueId → LatencyNs → W → W
  onReject : VenueId → (isFalseCancelReject : Bool) → W → W
  onFill : VenueId → W → W
  onTimeout : VenueId → W → W
  onDisconnect : VenueId → W → W
  onReconnect : VenueId → W → W

end Oms
