import Oms.ExecutionAlgo
import Oms.OrderManager.World

/-!
# What a listener hears

* `Env.listening`: the environment with one more listener;
* `announced`: the event that an operation announces, and the manager that the listeners see;
* `step_listening`: a listener hears what an operation announces, and nothing else.
-/

namespace Oms

open OrderManager

section Listeners

variable {B C : Type}

/-- The environment with one more listener, which keeps a state of its own. -/
def Env.listening (E : Env B) (f : OrderEvent → OrderManager → C → C) : Env (B × C) :=
  { E.beside with publish := fun e om w => (E.publish e om w.1, f e om w.2) }

/-- The event of a kind about an order, as the manager has the order. -/
def OrderManager.announce (om : OrderManager) (kind : OrderEventKind) (id : OrderIdRaw)
    (ts : Timestamp) : OrderEvent where
  kind := kind
  internalId := id
  instrument := (om.orderRef id).instrument
  side := (om.orderRef id).side
  filledSize := (om.orderRef id).filledSize
  size := (om.orderRef id).size
  status := (om.orderRef id).status
  ts := ts

/-- The event that an operation announces, and the manager that the listeners see. -/
def announced (om : OrderManager) : Op → Option (OrderEvent × OrderManager)
  | .confirm id exchId ts =>
    if om.validate id { kind := .Confirm } = .Ok then
      let om := om.modifyOrder id (Order.confirm exchId ts)
      some (om.announce .Confirmed id ts, om)
    else none
  | .fill id qty price trade ts =>
    if om.validate id ⟨.Fill, trade, qty, price⟩ = .Ok then
      let om := om.applyFill id qty price trade ts
      let final : Bool := (om.orderRef id).filledSize = (om.orderRef id).size
      some ({ om.announce (if final then .Fill else .PartialFill) id ts with
        lastQty := qty, lastPrice := price }, om)
    else none
  | .reject id reason ts =>
    if reason ≠ .CancelRejected ∧ om.validate id { kind := .Reject } = .Ok then
      let om := { om.modifyOrder id (Order.reject ts) with rejectCount := om.rejectCount + 1 }
      some ({ om.announce .Rejected id ts with reason := reason }, om)
    else none
  | .cancelAck id ts =>
    if om.validate id { kind := .CancelAck } = .Ok then
      let om := om.modifyOrder id (Order.cancelled ts)
      some (om.announce .Cancelled id ts, om)
    else none
  | .unsolicitedCancel id ts =>
    if om.validate id { kind := .UnsolicitedCancel } = .Ok then
      let om := { om.modifyOrder id (Order.cancelled ts) with
        unsolicitedCancelCount := om.unsolicitedCancelCount + 1 }
      some (om.announce .UnsolicitedCancel id ts, om)
    else none
  | _ => none

variable {E : Env B} {f : OrderEvent → OrderManager → C → C} {s : State (B × C)} {id : OrderIdRaw}
  {ts : Timestamp}

/-- The state of a listener after an operation that announces `x`. -/
def heardOf (f : OrderEvent → OrderManager → C → C) (c : C) :
    Option (OrderEvent × OrderManager) → C
  | none => c
  | some x => f x.1 x.2 c

theorem onConfirm_listening (exchId : ExchangeOrderId) :
    (s.onConfirm (E.listening f) id exchId ts).world.2 =
      heardOf f s.world.2 (announced s.om (.confirm id exchId ts)) := by
  unfold announced
  dsimp only
  by_cases hok : s.om.validate id { kind := .Confirm } = .Ok
  · rw [if_pos hok]
    unfold State.onConfirm
    rw [hok]
    rfl
  · rw [if_neg hok, onConfirm_drop rfl hok]
    rfl

theorem onFill_listening (qty : Quantity) (price : Price) (trade : TradeId) :
    (s.onFill (E.listening f) id qty price trade ts).world.2 =
      heardOf f s.world.2 (announced s.om (.fill id qty price trade ts)) := by
  unfold announced
  dsimp only
  by_cases hok : s.om.validate id ⟨.Fill, trade, qty, price⟩ = .Ok
  · rw [if_pos hok]
    unfold State.onFill
    rw [hok]
    rfl
  · rw [if_neg hok]
    by_cases hunk : s.om.validate id ⟨.Fill, trade, qty, price⟩ = .UnknownOrder
    · unfold State.onFill State.tripKillSwitch
      rw [hunk]
      dsimp only
      split_ifs <;> rfl
    · rw [onFill_drop rfl hok hunk]
      rfl

theorem onReject_listening (reason : RejectReason) :
    (s.onReject (E.listening f) id reason ts).world.2 =
      heardOf f s.world.2 (announced s.om (.reject id reason ts)) := by
  unfold announced
  dsimp only
  by_cases hreason : reason = .CancelRejected
  · rw [if_neg fun h => h.1 hreason]
    unfold State.onReject State.onCancelReject
    rw [if_pos hreason]
    dsimp only
    split_ifs
    · rfl
    · split <;> rfl
  · by_cases hok : s.om.validate id { kind := .Reject } = .Ok
    · rw [if_pos ⟨hreason, hok⟩]
      unfold State.onReject
      rw [if_neg hreason, hok]
      rfl
    · rw [if_neg fun h => hok h.2, onReject_drop hreason rfl hok]
      rfl

theorem onCancelAck_listening :
    (s.onCancelAck (E.listening f) id ts).world.2 =
      heardOf f s.world.2 (announced s.om (.cancelAck id ts)) := by
  unfold announced
  dsimp only
  by_cases hok : s.om.validate id { kind := .CancelAck } = .Ok
  · rw [if_pos hok]
    unfold State.onCancelAck State.finishCancel
    rw [hok]
    rfl
  · rw [if_neg hok]
    unfold State.onCancelAck
    rw [finishCancel_drop rfl hok]
    rfl

theorem onUnsolicitedCancel_listening :
    (s.onUnsolicitedCancel (E.listening f) id ts).world.2 =
      heardOf f s.world.2 (announced s.om (.unsolicitedCancel id ts)) := by
  unfold announced
  dsimp only
  by_cases hok : s.om.validate id { kind := .UnsolicitedCancel } = .Ok
  · rw [if_pos hok]
    unfold State.onUnsolicitedCancel State.finishCancel
    rw [hok]
    rfl
  · rw [if_neg hok]
    unfold State.onUnsolicitedCancel
    rw [finishCancel_drop rfl hok]
    rfl

/-! ### What an operation does to a listener -/

theorem get_beside {C : Type} (v : VenueId) :
    (Env.beside (A := C) E).registry.get v = (E.registry.get v).map ExchangeClient.beside := by
  unfold ExchangeRegistry.get Env.beside
  rw [List.getElem?_map]
  cases E.registry.byVenue[v.toNat]? <;> rfl

/-- Clients beside the algo leave it alone. -/
theorem registry_beside {C : Type} {v : VenueId} {ex : ExchangeClient (B × C)}
    (h : (Env.beside E).registry.get v = some ex) :
    ∃ ex₀ : ExchangeClient B, ex = ExchangeClient.beside ex₀ := by
  rw [get_beside, Option.map_eq_some_iff] at h
  obtain ⟨ex₀, -, hex⟩ := h
  exact ⟨ex₀, hex.symm⟩

theorem Env.beside_canceller {C : Type} :
    (Env.beside (A := C) E).Canceller fun w w' => w'.2 = w.2 where
  refl := fun _ => rfl
  trans := fun h h' => h'.trans h
  log := fun _ _ _ => rfl
  publish := fun _ _ _ => rfl
  select := fun _ _ _ _ => rfl
  onAck := fun _ _ _ => rfl
  onReject := fun _ _ _ => rfl
  onFill := fun _ _ => rfl
  onTimeout := fun _ _ => rfl
  onDisconnect := fun _ _ => rfl
  onReconnect := fun _ _ => rfl
  cancelOrder := fun hex id exchId w => by
    obtain ⟨ex₀, rfl⟩ := registry_beside hex
    rfl

/-- An operation that is no inbound event publishes nothing. -/
theorem step_other_listening {op : Op} (hop : op.inboundId = none) :
    (s.step (E.listening f) op).world.2 = s.world.2 := by
  have hbeside := Env.beside_canceller (E := E) (C := C)
  cases op with
  | submit req =>
    have heq : s.submit (E.listening f) req = s.submit E.beside req := rfl
    show (s.submit (E.listening f) req).2.world.2 = s.world.2
    rw [heq]
    rcases submit_cases hbeside s req with ⟨-, hworld, -⟩ | ⟨venue, ex, w, hplacing⟩
    · exact hworld
    · have hworld := hplacing.world
      obtain ⟨ex₀, rfl⟩ := registry_beside hplacing.found
      rw [hplacing.place]
      unfold State.place
      dsimp only
      split
      · exact hworld
      · split_ifs
        · exact hworld
        · exact hworld
  | cancel id => exact cancel_world hbeside id s
  | checkAckTimeouts now timeout => exact checkAckTimeouts_world hbeside now timeout s
  | confirm | fill | reject | cancelAck | unsolicitedCancel => cases hop
  | _ => rfl

/-- **A listener hears what an operation announces**, and nothing else touches its state. -/
theorem step_listening (op : Op) :
    (s.step (E.listening f) op).world.2 = heardOf f s.world.2 (announced s.om op) := by
  cases op with
  | confirm id exchId ts => exact onConfirm_listening exchId
  | fill id qty price trade ts => exact onFill_listening qty price trade
  | reject id reason ts => exact onReject_listening reason
  | cancelAck id ts => exact onCancelAck_listening
  | unsolicitedCancel id ts => exact onUnsolicitedCancel_listening
  | _ => exact step_other_listening rfl

end Listeners

end Oms
