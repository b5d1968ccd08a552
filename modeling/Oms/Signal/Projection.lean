import Oms.Foundation.Keyed
import Oms.Signal.Poison

/-!
# Producers do not influence each other

A run of the gate interleaves messages and heartbeat questions about any producers. The gate keeps
one entry for each producer, so it is a machine whose state is a family of entries.

* `check_entry`: a message changes the entry of its own producer, and only if it is let through;
* `gateKeyed`: the gate as such a machine;
* `producers_independent`: the answers about one producer are those of the run that keeps only that
  producer, and dropped messages leave no trace.
-/

namespace Oms

namespace Wire

/-- One call of a run. -/
inductive GateOp
  | check (msg : SignalMessage) (now : Int64)
  | heartbeat (producer : StrategyId) (now : Int64)
  deriving DecidableEq

inductive GateAnswer
  | verdict (v : SignalVerdict)
  | alive (b : Bool)
  deriving DecidableEq

/-- The source computes the deadline and the time since the last message in `int64_t`. -/
def heartbeatAlive (g : SignalGate) (producer : StrategyId) (now : Int64) : Bool :=
  match g.producers.lookup producer with
  | none => false
  | some p =>
    let deadline := Int64.ofInt g.cfg.hbInterval * Int64.ofInt g.cfg.hbThreshold
    p.seen && decide (now - Int64.ofInt p.lastAccept ≤ deadline)

namespace GateOp

/-- The producer the call is about. -/
def producer : GateOp → StrategyId
  | .check msg _ => msg.strategyId
  | .heartbeat producer _ => producer

def step (g : SignalGate) : GateOp → GateAnswer × SignalGate
  | .check msg now => (.verdict (Wire.check g msg now).1, (Wire.check g msg now).2)
  | .heartbeat producer now => (.alive (heartbeatAlive g producer now), g)

end GateOp

/-- What decides about a producer: the configuration, whether trading is enabled, and what the gate
keeps of the producer. -/
def gateEntry (g : SignalGate) (producer : StrategyId) :
    SignalGateConfig × Bool × Option Producer :=
  (g.cfg, g.tradingEnabled, g.producers.lookup producer)

section Entry

variable {g g' : SignalGate} {msg : SignalMessage} {now : Int64} {producer : StrategyId}

/-- The verdicts that apply a message. -/
def Applied (v : SignalVerdict) : Bool := v = .Accept || v = .GapAcceptedLogged

/-- The verdict on a message comes from the entry of its producer. -/
theorem check_congr (h : gateEntry g msg.strategyId = gateEntry g' msg.strategyId) :
    (check g msg now).1 = (check g' msg now).1 := by
  obtain ⟨cfg, on, producers, log⟩ := g
  obtain ⟨cfg', on', producers', log'⟩ := g'
  simp only [gateEntry, Prod.mk.injEq] at h
  obtain ⟨rfl, rfl, hlookup⟩ := h
  have hget : producers.get msg.exact.strategyId = producers'.get msg.exact.strategyId :=
    congrArg (Option.getD · 0) hlookup
  unfold check
  cases on with
  | false => rfl
  | true =>
    dsimp only
    cases msg.targets.find? fun t => cfg.maxAbsTarget < (magnitude t.signedTarget).toInt with
    | some t => rfl
    | none =>
      unfold SignalGate.checkSequence
      dsimp only
      rw [hget]
      split_ifs <;> rfl

/-- What a message can do: it is applied, or it leaves the gate as it was but for its log. -/
theorem check_cases :
    (∃ v level line, Applied v = false ∧ check g msg now = (v, g.emit level line)) ∨
      check g msg now = (.Accept, g.accept msg.exact now.toInt) ∨
      ∃ line, check g msg now =
        (.GapAcceptedLogged, (g.emit .Warn line).accept msg.exact now.toInt) := by
  unfold check
  by_cases hoff : (!g.tradingEnabled) = true
  · rw [if_pos hoff]
    exact Or.inl ⟨_, _, _, rfl, rfl⟩
  · rw [if_neg hoff]
    cases msg.targets.find? fun t => g.cfg.maxAbsTarget < (magnitude t.signedTarget).toInt with
    | some t => exact Or.inl ⟨_, _, _, rfl, rfl⟩
    | none =>
      unfold SignalGate.checkSequence
      dsimp only
      split_ifs
      · exact Or.inl ⟨_, _, _, rfl, rfl⟩
      · exact Or.inr (Or.inl rfl)
      · exact Or.inl ⟨_, _, _, rfl, rfl⟩
      · exact Or.inr (Or.inr ⟨_, rfl⟩)
      · exact Or.inr (Or.inl rfl)

theorem check_entry : gateEntry (check g msg now).2 producer =
    if Applied (check g msg now).1 then gateEntry (g.accept msg.exact now.toInt) producer
    else gateEntry g producer := by
  obtain ⟨v, level, line, hv, hcheck⟩ | hcheck | ⟨line, hcheck⟩ := @check_cases g msg now
  · rw [hcheck, hv]
    rfl
  · rw [hcheck]
    rfl
  · rw [hcheck]
    rfl

/-- An accepted message leaves the entries of other producers alone. -/
theorem accept_entry_of_ne (h : msg.strategyId ≠ producer) :
    gateEntry (g.accept msg.exact now.toInt) producer = gateEntry g producer := by
  have hlookup := Finmap.lookup_insert_of_ne g.producers (Ne.symm h)
    (b := { seen := true, expectedSeq := (msg.sequence + 1) % g.cfg.seqModulo,
            lastAccept := now.toInt })
  exact congrArg (fun p => (g.cfg, g.tradingEnabled, p)) hlookup

theorem accept_entry_self (h : gateEntry g msg.strategyId = gateEntry g' msg.strategyId) :
    gateEntry (g.accept msg.exact now.toInt) msg.strategyId =
      gateEntry (g'.accept msg.exact now.toInt) msg.strategyId := by
  simp only [gateEntry, Prod.mk.injEq] at h
  simp only [gateEntry, SignalGate.accept, SignalMessage.exact, Finmap.lookup_insert, h.1, h.2.1]

end Entry

/-- The gate as a machine with an entry for each producer. -/
def gateKeyed : Keyed SignalGate GateOp GateAnswer StrategyId
    (SignalGateConfig × Bool × Option Producer) where
  step := GateOp.step
  key := GateOp.producer
  entry := gateEntry
  frame g op producer hne := by
    cases op with
    | check msg now =>
      show gateEntry (check g msg now).2 producer = _
      rw [check_entry, accept_entry_of_ne hne, ite_self]
    | heartbeat _ _ => rfl
  own g g' op h := by
    cases op with
    | check msg now =>
      have hverdict : (check g msg now).1 = (check g' msg now).1 := check_congr h
      refine ⟨congrArg GateAnswer.verdict hverdict, ?_⟩
      show gateEntry (check g msg now).2 msg.strategyId =
        gateEntry (check g' msg now).2 msg.strategyId
      rw [check_entry, check_entry, hverdict, accept_entry_self h]
      exact congrArg _ h
    | heartbeat producer now =>
      simp only [GateOp.producer, gateEntry, Prod.mk.injEq] at h
      obtain ⟨hcfg, -, hlookup⟩ := id h
      refine ⟨congrArg GateAnswer.alive ?_, ?_⟩
      · unfold heartbeatAlive
        rw [hcfg, hlookup]
      · simp only [GateOp.step, GateOp.producer, gateEntry, Prod.mk.injEq]
        exact h

/-- A message of the producer that was not applied. -/
def Dropped (producer : StrategyId) : GateOp × GateAnswer → Bool
  | (.check msg _, .verdict v) => msg.strategyId = producer && !Applied v
  | _ => false

/-- **Producers do not influence each other, and dropped messages leave no trace.** The answers
about a producer are those of the run that keeps only its messages and the questions about it; and
when its dropped messages are deleted from a run, all other calls are answered as before. -/
theorem producers_independent (g : SignalGate) (producer : StrategyId) (ops : List GateOp) :
    (gateKeyed.trace g ops).filter (fun p => p.1.producer = producer) =
      gateKeyed.trace g (ops.filter fun op => op.producer = producer) ∧
    gateKeyed.trace g (((gateKeyed.trace g ops).filter fun p => !Dropped producer p).map Prod.fst) =
      (gateKeyed.trace g ops).filter fun p => !Dropped producer p := by
  refine ⟨gateKeyed.trace_filter_key rfl ops, gateKeyed.trace_delete ?_ (fun _ => rfl) ops⟩
  intro g op hdropped other
  cases op with
  | check msg now =>
    simp only [Dropped, GateOp.step, gateKeyed, Bool.and_eq_true, Bool.not_eq_true'] at hdropped
    show gateEntry (check g msg now).2 other = gateEntry g other
    rw [check_entry, hdropped.2]
    rfl
  | heartbeat _ _ => rfl

end Wire

end Oms
