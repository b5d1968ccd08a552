import Oms.Foundation.Machine
import Oms.OrderManager

/-!
# Runs of the order manager

* `Op`, `State.step`, `machine`: the operations of the manager as one deterministic machine over
  any world;
* `validate_eq_unknown_iff`, `validate_ok_iff`, `validate_fill_ok_iff`: what the shared guard
  sequence lets through;
* `onFill_ok_om`, `onFill_drop`, …: the inbound handlers once validation has decided.
-/

namespace Oms

/-- The operations of the manager: the strategy-facing calls, the inbound events, the failure-mode
hooks and the setters. -/
inductive Op
  | submit (req : OrderRequest)
  | cancel (id : OrderIdRaw)
  | confirm (id : OrderIdRaw) (exchId : ExchangeOrderId) (ts : Timestamp)
  | fill (id : OrderIdRaw) (qty : Quantity) (price : Price) (trade : TradeId) (ts : Timestamp)
  | reject (id : OrderIdRaw) (reason : RejectReason) (ts : Timestamp)
  | cancelAck (id : OrderIdRaw) (ts : Timestamp)
  | unsolicitedCancel (id : OrderIdRaw) (ts : Timestamp)
  | checkAckTimeouts (now timeout : Timestamp)
  | venueDisconnect (venue : VenueId)
  | venueReconnect (venue : VenueId)
  | setUnknownFillHardstopThreshold (n : ℕ)
  | resetRebalanceCycle
  | clearReconcileRequest
  deriving DecidableEq

/-- The id an inbound event carries. -/
def Op.inboundId : Op → Option OrderIdRaw
  | .confirm id _ _ | .fill id _ _ _ _ | .reject id _ _ | .cancelAck id _
  | .unsolicitedCancel id _ => some id
  | _ => none

variable {W : Type} (E : Env W)

def State.step (s : State W) : Op → State W
  | .submit req => (s.submit E req).2
  | .cancel id => (s.cancel E id).2
  | .confirm id exchId ts => s.onConfirm E id exchId ts
  | .fill id qty price trade ts => s.onFill E id qty price trade ts
  | .reject id reason ts => s.onReject E id reason ts
  | .cancelAck id ts => s.onCancelAck E id ts
  | .unsolicitedCancel id ts => s.onUnsolicitedCancel E id ts
  | .checkAckTimeouts now timeout => s.checkAckTimeouts E now timeout
  | .venueDisconnect venue => s.onVenueDisconnect E venue
  | .venueReconnect venue => s.onVenueReconnect E venue
  | .setUnknownFillHardstopThreshold n =>
    { s with om := { s.om with unknownFillHardstopThreshold := n } }
  | .resetRebalanceCycle => { s with om := { s.om with rebalanceIncomplete := false } }
  | .clearReconcileRequest => { s with om := { s.om with reconcileRequested := false } }

/-- The manager and its world as a machine. -/
def machine : Machine (State W) Op where
  step := State.step E

@[simp] theorem machine_step (s : State W) (op : Op) : (machine E).step s op = s.step E op := rfl

/-! ### Validation -/

section Validate

variable {om : OrderManager} {id : OrderIdRaw} {ev : EventContext}

theorem validate_eq_unknown_iff :
    om.validate id ev = .UnknownOrder ↔ om.pool.isCurrent id = false := by
  unfold OrderManager.validate
  cases h : om.pool.isCurrent id
  · simp
  · simp only [Bool.not_true, Bool.false_eq_true, if_false]
    split_ifs <;> simp

/-- Events other than fills pass exactly for the working order of a current id. -/
theorem validate_ok_iff (hkind : ev.kind ≠ .Fill) :
    om.validate id ev = .Ok ↔ om.pool.isCurrent id = true ∧ (om.orderRef id).Open := by
  unfold OrderManager.validate Order.Open
  cases h : om.pool.isCurrent id <;> cases ht : isTerminal (om.orderRef id).status <;>
    simp [hkind, ht]

/-- What an accepted fill has passed. -/
theorem validate_fill_ok_iff {trade : TradeId} {qty : Quantity} {price : Price} :
    om.validate id ⟨.Fill, trade, qty, price⟩ = .Ok ↔
      om.pool.isCurrent id = true ∧ (om.orderRef id).Open ∧ trade ∉ om.tradesOf id ∧ 0 < qty ∧
        0 < price ∧ qty ≤ (om.orderRef id).remaining := by
  unfold OrderManager.validate Order.Open
  cases h : om.pool.isCurrent id
  · simp
  · cases ht : isTerminal (om.orderRef id).status
    · simp only [Bool.not_true, Bool.false_eq_true, if_false, if_true, ht, true_and]
      split_ifs with htrade hsign hsize
      · simp [htrade]
      · refine ⟨fun hf => absurd hf (by simp), ?_⟩
        rintro ⟨-, hq, hp, -⟩
        exact absurd hsign (not_or.2 ⟨not_le.2 hq, not_le.2 hp⟩)
      · refine ⟨fun hf => absurd hf (by simp), ?_⟩
        rintro ⟨-, -, -, hle⟩
        exact absurd hsize (not_lt.2 hle)
      · rw [not_or, not_le, not_le] at hsign
        exact ⟨fun _ => ⟨htrade, hsign.1, hsign.2, not_lt.1 hsize⟩, fun _ => rfl⟩
    · simp [ht]

end Validate

/-! ### The handlers, once validation has decided -/

section Handlers

variable {E} {s : State W} {id : OrderIdRaw} {ts : Timestamp}

@[simp] theorem log_om (level : LogLevel) (line : String) (s : State W) :
    (s.log E level line).om = s.om := rfl

@[simp] theorem dropEvent_om (id : OrderIdRaw) (kind : EventKind) (vr : ValidationResult)
    (ts : Timestamp) (s : State W) : (s.dropEvent E id kind vr ts).om = s.om.dropEvent := rfl

@[simp] theorem tripKillSwitch_om (reason : String) (s : State W) :
    (s.tripKillSwitch E reason).om = s.om.tripKillSwitch reason := by
  unfold State.tripKillSwitch OrderManager.tripKillSwitch
  split_ifs <;> rfl

theorem orderRef_modifyOrder (om : OrderManager) (id : OrderIdRaw) (f : Order → Order) :
    (om.modifyOrder id f).orderRef id = f (om.orderRef id) := by
  simp [OrderManager.modifyOrder, OrderManager.orderRef]

theorem onConfirm_drop {exchId : ExchangeOrderId} {vr : ValidationResult}
    (h : s.om.validate id { kind := .Confirm } = vr) (hvr : vr ≠ .Ok) :
    s.onConfirm E id exchId ts = s.dropEvent E id .Confirm vr ts := by
  unfold State.onConfirm
  rw [h]
  cases vr <;> first | rfl | exact absurd rfl hvr

theorem onFill_ok_om {qty : Quantity} {price : Price} {trade : TradeId}
    (h : s.om.validate id ⟨.Fill, trade, qty, price⟩ = .Ok) :
    (s.onFill E id qty price trade ts).om = s.om.fill id qty price trade ts := by
  unfold State.onFill
  rw [h]

theorem onFill_drop {qty : Quantity} {price : Price} {trade : TradeId} {vr : ValidationResult}
    (h : s.om.validate id ⟨.Fill, trade, qty, price⟩ = vr) (hvr : vr ≠ .Ok)
    (hvr' : vr ≠ .UnknownOrder) :
    s.onFill E id qty price trade ts = s.dropEvent E id .Fill vr ts := by
  unfold State.onFill
  rw [h]
  cases vr <;> first | rfl | exact absurd rfl hvr | exact absurd rfl hvr'

theorem onReject_drop {reason : RejectReason} (hreason : reason ≠ .CancelRejected)
    {vr : ValidationResult} (h : s.om.validate id { kind := .Reject } = vr) (hvr : vr ≠ .Ok) :
    s.onReject E id reason ts = s.dropEvent E id .Reject vr ts := by
  unfold State.onReject
  rw [if_neg hreason, h]
  cases vr <;> first | rfl | exact absurd rfl hvr

theorem onCancelReject_drop (hexp : id ∉ s.om.expectedFalseCancelRejects) {vr : ValidationResult}
    (h : s.om.validate id { kind := .Reject } = vr) (hvr : vr ≠ .Ok) :
    s.onCancelReject E id ts = s.dropEvent E id .Reject vr ts := by
  unfold State.onCancelReject
  rw [if_neg hexp, h]
  cases vr <;> first | rfl | exact absurd rfl hvr

theorem finishCancel_drop {kind : EventKind} {pub : OrderEventKind} {unsolicited : Bool}
    {vr : ValidationResult} (h : s.om.validate id { kind := kind } = vr) (hvr : vr ≠ .Ok) :
    s.finishCancel E id ts kind pub unsolicited = s.dropEvent E id kind vr ts := by
  unfold State.finishCancel
  rw [h]
  cases vr <;> first | rfl | exact absurd rfl hvr

end Handlers

end Oms
