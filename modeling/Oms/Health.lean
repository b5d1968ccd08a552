import Oms.Foundation.Machine
import Oms.RingBuffer
import Oms.Types

/-!
# Venue health

`Health.h`, `Health.cpp`: the circuit breaker that decides which venues may trade.

* `VenueState.assess`, `VenueState.evaluate`: the three signals of a venue, and the state machine
  Healthy, Degraded, Down, Probing;
* `CircuitBreakerHealthModel` and its entry points, each of which records something about a venue
  and evaluates it;
* `HealthOp`, `healthMachine`: the entry points as one machine.

The clock is a parameter: every entry point takes the time it reads. Log lines are left out.
-/

namespace Oms

/-- The circuit breaker goes from `Healthy` over `Degraded` to `Down`, and back over `Probing`. -/
inductive HealthState
  | Healthy
  | Degraded
  | Down
  | Probing
  deriving DecidableEq, Repr

/-- Which composite signal caused the most recent trip. -/
inductive TripReason
  | None
  | Connectivity
  | RejectionRate
  | AckLatency
  deriving DecidableEq, Repr

structure HealthScore where
  state : HealthState := .Healthy
  /-- routing weight; `0` when Down -/
  weight : ℚ := 1
  reason : TripReason := .None
  deriving DecidableEq, Repr

structure HealthConfig where
  /-- staleness tolerance for "nothing arrived" -/
  heartbeatToleranceNs : Timestamp := 5000000000
  rejectWindow : ℕ := 128
  rejectMinSamples : ℕ := 20
  /-- trip above -/
  rejectHigh : ℚ
  /-- recover below -/
  rejectLow : ℚ
  latencyWindow : ℕ := 128
  /-- trip above -/
  latencyHighNs : LatencyNs := 5000000
  /-- recover below -/
  latencyLowNs : LatencyNs := 2000000
  /-- stay bad this long to go Down -/
  degradeDwellNs : Timestamp := 1000000000
  /-- stay good this long to start probing -/
  downDwellNs : Timestamp := 2000000000
  /-- successful round trips to restore -/
  probeRequired : ℤ := 5
  probeWeight : ℚ
  degradedWeight : ℚ

/-- The defaults. The literals of type `double` are rounded too. -/
def HealthConfig.default (rnd : ℚ → ℚ) : HealthConfig where
  rejectHigh := rnd (1 / 5)
  rejectLow := rnd (1 / 10)
  probeWeight := rnd (1 / 4)
  degradedWeight := rnd (1 / 2)

structure VenueState where
  connected : Bool := true
  lastSeen : Timestamp := 0
  /-- `1` for a reject, `0` for an ack -/
  rejects : RingBuffer UInt8
  latencies : RingBuffer LatencyNs
  state : HealthState := .Healthy
  reason : TripReason := .None
  degradedSince : Timestamp := 0
  /-- when the conditions turned good while Down; `0` when they are not -/
  goodSince : Timestamp := 0
  probeSuccess : ℤ := 0
  trips : ℕ := 0
  unresolved : ℕ := 0
  deriving DecidableEq

structure Conditions where
  anyHigh : Bool := false
  allLow : Bool := false
  reason : TripReason := .None
  deriving DecidableEq, Repr

namespace VenueState

def init (cfg : HealthConfig) (now : Timestamp) : VenueState where
  rejects := { capacity := cfg.rejectWindow }
  latencies := { capacity := cfg.latencyWindow }
  lastSeen := now

section Evaluate

variable (rnd : ℚ → ℚ) (cfg : HealthConfig)

def connBad (v : VenueState) (now : Timestamp) : Bool :=
  !v.connected || cfg.heartbeatToleranceNs < now - v.lastSeen

def rejHigh (v : VenueState) : Bool :=
  cfg.rejectMinSamples ≤ v.rejects.size && cfg.rejectHigh < v.rejects.fraction rnd (· == 1)

def rejLow (v : VenueState) : Bool :=
  v.rejects.size < cfg.rejectMinSamples || v.rejects.fraction rnd (· == 1) < cfg.rejectLow

def latHigh (v : VenueState) : Bool :=
  !v.latencies.empty && cfg.latencyHighNs < v.latencies.percentile rnd (rnd (99 / 100))

def latLow (v : VenueState) : Bool :=
  v.latencies.empty || v.latencies.percentile rnd (rnd (99 / 100)) < cfg.latencyLowNs

def assess (v : VenueState) (now : Timestamp) : Conditions where
  anyHigh := v.connBad cfg now || v.rejHigh rnd cfg || v.latHigh rnd cfg
  allLow := !v.connBad cfg now && v.rejLow rnd cfg && v.latLow rnd cfg
  reason :=
    if v.connBad cfg now then .Connectivity
    else if v.rejHigh rnd cfg then .RejectionRate
    else if v.latHigh rnd cfg then .AckLatency
    else .None

def evaluate (v : VenueState) (now : Timestamp) : VenueState :=
  let c := v.assess rnd cfg now
  match v.state with
  | .Healthy =>
    if c.anyHigh then
      { v with
        state := .Degraded
        degradedSince := now
        reason := c.reason
        trips := v.trips + 1
        unresolved := v.unresolved + 1 }
    else v
  | .Degraded =>
    if c.allLow then
      { v with state := .Healthy, reason := .None, unresolved := v.unresolved - 1 }
    else if c.anyHigh && cfg.degradeDwellNs ≤ now - v.degradedSince then
      { v with state := .Down, reason := c.reason, goodSince := 0 }
    else v
  | .Down =>
    if c.allLow then
      if v.goodSince = 0 then { v with goodSince := now }
      else if cfg.downDwellNs ≤ now - v.goodSince then
        { v with state := .Probing, probeSuccess := 0 }
      else v
    else { v with goodSince := 0 }
  | .Probing =>
    if c.anyHigh then { v with state := .Down, reason := c.reason, goodSince := 0 }
    else if cfg.probeRequired ≤ v.probeSuccess then
      { v with state := .Healthy, reason := .None, unresolved := v.unresolved - 1 }
    else v

end Evaluate

end VenueState

/-- What an entry point brings to a venue. -/
inductive HealthEvent
  | orderSent (ts : Timestamp)
  | ack (lat : LatencyNs)
  | reject (isFalseCancelReject : Bool)
  | fill
  | timeout
  | disconnect
  | reconnect
  /-- nothing: only time has passed -/
  | tick
  deriving DecidableEq

/-- What an entry point records about a venue before it evaluates it. -/
def VenueState.record (cfg : HealthConfig) (now : Timestamp) (v : VenueState) :
    HealthEvent → VenueState
  | .orderSent ts => { v with lastSeen := ts }
  | .ack lat =>
    { v with
      lastSeen := now
      latencies := v.latencies.push lat
      rejects := v.rejects.push 0
      probeSuccess :=
        if v.state = .Probing ∧ lat ≤ cfg.latencyHighNs then v.probeSuccess + 1
        else v.probeSuccess }
  | .reject isFalseCancelReject =>
    -- false cancel-rejects come from the race of a cancel with a fill, and do not count
    { v with
      lastSeen := now
      rejects := if isFalseCancelReject then v.rejects else v.rejects.push 1 }
  | .fill => { v with lastSeen := now }
  | .timeout => { v with rejects := v.rejects.push 1 }
  | .disconnect => { v with connected := false }
  | .reconnect => { v with connected := true, lastSeen := now }
  | .tick => v

/-- An event at a venue: it is recorded, and the venue is evaluated. -/
def VenueState.step (rnd : ℚ → ℚ) (cfg : HealthConfig) (e : HealthEvent) (now : Timestamp)
    (v : VenueState) : VenueState :=
  (v.record cfg now e).evaluate rnd cfg now

/-! ### The model -/

structure CircuitBreakerHealthModel where
  cfg : HealthConfig
  venues : VenueId → Option VenueState

namespace CircuitBreakerHealthModel

def init (cfg : HealthConfig) : CircuitBreakerHealthModel where
  cfg := cfg
  venues := fun _ => none

def registerVenue (v : VenueId) (now : Timestamp) (h : CircuitBreakerHealthModel) :
    CircuitBreakerHealthModel :=
  match h.venues v with
  | some _ => h
  | none => { h with venues := Function.update h.venues v (some (.init h.cfg now)) }

variable (rnd : ℚ → ℚ)

/-- An event at one venue. At a venue that is not registered the source fails an assertion; here
nothing happens. -/
def event (v : VenueId) (e : HealthEvent) (now : Timestamp) (h : CircuitBreakerHealthModel) :
    CircuitBreakerHealthModel :=
  { h with venues := Function.update h.venues v ((h.venues v).map (·.step rnd h.cfg e now)) }

def onOrderSent (v : VenueId) (ts now : Timestamp) := event rnd v (.orderSent ts) now

def onAck (v : VenueId) (lat : LatencyNs) (now : Timestamp) := event rnd v (.ack lat) now

def onReject (v : VenueId) (isFalseCancelReject : Bool) (now : Timestamp) :=
  event rnd v (.reject isFalseCancelReject) now

def onFill (v : VenueId) (now : Timestamp) := event rnd v .fill now

def onTimeout (v : VenueId) (now : Timestamp) := event rnd v .timeout now

def onDisconnect (v : VenueId) (now : Timestamp) := event rnd v .disconnect now

def onReconnect (v : VenueId) (now : Timestamp) := event rnd v .reconnect now

/-- Timer-driven evaluation of every venue. -/
def tick (now : Timestamp) (h : CircuitBreakerHealthModel) : CircuitBreakerHealthModel :=
  { h with venues := fun v => (h.venues v).map (·.step rnd h.cfg .tick now) }

def score (h : CircuitBreakerHealthModel) (v : VenueId) : Option HealthScore :=
  (h.venues v).map fun st =>
    let weight :=
      match st.state with
      | .Healthy => 1
      | .Degraded => h.cfg.degradedWeight
      | .Probing => h.cfg.probeWeight
      | .Down => 0
    ⟨st.state, weight, st.reason⟩

def isTradeable (h : CircuitBreakerHealthModel) (v : VenueId) : Option Bool :=
  (h.venues v).map (·.state ≠ .Down)

def state (h : CircuitBreakerHealthModel) (v : VenueId) : Option HealthState :=
  (h.venues v).map (·.state)

end CircuitBreakerHealthModel

/-- The entry points, with the time that the clock shows. -/
inductive HealthOp
  | registerVenue (v : VenueId) (now : Timestamp)
  | orderSent (v : VenueId) (ts now : Timestamp)
  | ack (v : VenueId) (lat : LatencyNs) (now : Timestamp)
  | reject (v : VenueId) (isFalseCancelReject : Bool) (now : Timestamp)
  | fill (v : VenueId) (now : Timestamp)
  | timeout (v : VenueId) (now : Timestamp)
  | disconnect (v : VenueId) (now : Timestamp)
  | reconnect (v : VenueId) (now : Timestamp)
  | tick (now : Timestamp)
  deriving DecidableEq

def CircuitBreakerHealthModel.step (rnd : ℚ → ℚ) (h : CircuitBreakerHealthModel) :
    HealthOp → CircuitBreakerHealthModel
  | .registerVenue v now => h.registerVenue v now
  | .orderSent v ts now => h.onOrderSent rnd v ts now
  | .ack v lat now => h.onAck rnd v lat now
  | .reject v isFalseCancelReject now => h.onReject rnd v isFalseCancelReject now
  | .fill v now => h.onFill rnd v now
  | .timeout v now => h.onTimeout rnd v now
  | .disconnect v now => h.onDisconnect rnd v now
  | .reconnect v now => h.onReconnect rnd v now
  | .tick now => h.tick rnd now

/-- The health model as a machine. -/
def healthMachine (rnd : ℚ → ℚ) : Machine CircuitBreakerHealthModel HealthOp where
  step := CircuitBreakerHealthModel.step rnd

end Oms
