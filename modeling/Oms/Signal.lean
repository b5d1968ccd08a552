import Oms.ExchangeClient
import Oms.Foundation.MapSum

/-!
# Signals and their staleness gate

`Signal.h`, `Signal.cpp`: a published target book carries a per-producer sequence number, and
`SignalGate.check` judges every message by four checks in turn: do-not-trade, absurd values, age,
and the gap of its sequence number modulo `seqModulo`.
-/

namespace Oms

/-- One instrument's signed target position. -/
structure TargetPosition where
  instrument : InstrumentId := 0
  signedTarget : Quantity := 0
  deriving DecidableEq, Repr

/-- A published target book. `generatedAt` is the producer clock. -/
structure SignalMessage where
  schemaVersion : UInt32 := 1
  sequence : UInt64 := 0
  generatedAt : Timestamp := 0
  strategyId : StrategyId := 0
  targets : List TargetPosition := []
  deriving DecidableEq, Repr

inductive SignalVerdict
  /-- apply this signal -/
  | Accept
  /-- do-not-trade: startup reconciliation has not cleared yet -/
  | RejectDNT
  /-- too old -/
  | RejectAge
  /-- absurd target value at ingest -/
  | RejectAbsurd
  /-- forward sequence gap: recoverable, applied, logged -/
  | GapAcceptedLogged
  /-- backward or duplicate sequence: dropped -/
  | DuplicateDropped
  deriving DecidableEq, Repr

structure SignalGateConfig where
  maxSignalAge : Timestamp := 5000000000
  /-- wrap space -/
  seqModulo : UInt64 := 65536
  missThreshold : UInt64 := 5
  hbInterval : Timestamp := 60000000000
  hbThreshold : ℤ := 3
  maxAbsTarget : Quantity := 1000000000

/-- What the gate keeps of a producer. -/
structure Producer where
  expectedSeq : UInt64 := 0
  seen : Bool := false
  lastAccept : Timestamp := 0

instance : Zero Producer := ⟨{}⟩

structure SignalGate where
  cfg : SignalGateConfig := {}
  tradingEnabled : Bool := false
  producers : Finmap fun _ : StrategyId => Producer := ∅
  /-- the lines handed to the log sink -/
  log : List (LogLevel × String) := []

namespace SignalGate

def enableTrading (g : SignalGate) (on : Bool) : SignalGate := { g with tradingEnabled := on }

def emit (g : SignalGate) (level : LogLevel) (line : String) : SignalGate :=
  { g with log := g.log ++ [(level, line)] }

/-- Take a message: its producer is seen, and the next sequence number is expected. -/
def accept (g : SignalGate) (msg : SignalMessage) (now : Timestamp) : SignalGate :=
  { g with
    producers := g.producers.insert msg.strategyId
      { seen := true, expectedSeq := (msg.sequence + 1) % g.cfg.seqModulo, lastAccept := now } }

/-- The sequence check. -/
def checkSequence (g : SignalGate) (msg : SignalMessage) (now : Timestamp) :
    SignalVerdict × SignalGate :=
  let p := g.producers.get msg.strategyId
  if p.seen then
    let mod := g.cfg.seqModulo
    let delta := (msg.sequence + mod - p.expectedSeq) % mod
    if delta = 0 then (.Accept, g.accept msg now)
    else if mod - g.cfg.missThreshold ≤ delta then
      -- close to the wrap maximum: taken for a step backwards, and not expected again
      (.DuplicateDropped, g.emit .Warn ("signal dropped: duplicate/reorder producer=" ++
        toString msg.strategyId ++ " seq=" ++ toString msg.sequence))
    else
      (.GapAcceptedLogged, (g.emit .Warn ("signal gap: producer=" ++ toString msg.strategyId ++
        " expected=" ++ toString p.expectedSeq ++ " got=" ++ toString msg.sequence ++ " missed=" ++
        toString delta)).accept msg now)
  else (.Accept, g.accept msg now)

def check (g : SignalGate) (msg : SignalMessage) (now : Timestamp) : SignalVerdict × SignalGate :=
  if !g.tradingEnabled then
    (.RejectDNT,
      g.emit .Warn "signal rejected: do-not-trade (startup reconcile not complete)")
  else
    match msg.targets.find? fun t => g.cfg.maxAbsTarget < magnitude t.signedTarget with
    | some t =>
      (.RejectAbsurd, g.emit .Error ("signal rejected: absurd target inst=" ++
        toString t.instrument ++ " qty=" ++ toString t.signedTarget))
    | none =>
      if g.cfg.maxSignalAge < now - msg.generatedAt then
        (.RejectAge, g.emit .Warn ("signal rejected: stale age producer=" ++
          toString msg.strategyId ++ " gen_at=" ++ toString msg.generatedAt))
      else g.checkSequence msg now

/-- `false`: the producer is presumed dead. -/
def heartbeatAlive (g : SignalGate) (producer : StrategyId) (now : Timestamp) : Bool :=
  match g.producers.lookup producer with
  | none => false
  | some p =>
    p.seen && decide (now - p.lastAccept ≤ g.cfg.hbInterval * g.cfg.hbThreshold)

/-- The verdicts on a list of deliveries, each at its own time. -/
def checkAll (g : SignalGate) : List (SignalMessage × Timestamp) →
    List (SignalMessage × SignalVerdict)
  | [] => []
  | (msg, now) :: rest => (msg, (g.check msg now).1) :: (g.check msg now).2.checkAll rest

end SignalGate

end Oms
