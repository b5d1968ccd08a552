import Oms.OrderManager.Effects

/-!
# What moves a position

* `Change.position`: a change that fills nothing leaves every position alone;
* `step_position`: an operation moves a position by the fill it accepts; `OrderManager.traded`,
  `step_net`: so it does the net position.
-/

namespace Oms

open OrderManager

/-- No order is filled. -/
def unfilled : Policy := { addresses := fun _ _ => False }

section Change

variable {P : Policy} {om om' : OrderManager}

theorem Change.position (hchange : Change P om om') (hwf : om.WF)
    (hno : ∀ internalId id, P.moves → ¬ P.addresses internalId id) (inst : InstrumentId) :
    om'.position inst = om.position inst := by
  cases hchange with
  | fill hmoves haddr hok => exact absurd haddr (hno _ _ hmoves)
  | reserve hreq hres =>
    obtain ⟨pool, hacq, hid, rfl⟩ := hwf.reserve_cases hres
    exact (opens_booked hwf hacq hid).position inst
  | _ => rfl

theorem Chain.position (hchain : Chain P om om') (hwf : om.WF)
    (hno : ∀ internalId id, P.moves → ¬ P.addresses internalId id) (inst : InstrumentId) :
    om'.position inst = om.position inst :=
  (Chain.invariant (I := fun om' => om'.position inst = om.position inst)
    (fun _ _ hwf' hpos hchange => (hchange.position hwf' hno inst).trans hpos) hchain hwf rfl).2

end Change

/-! ### Fills -/

/-- What an operation trades on an instrument: the signed quantity of the fill it accepts. -/
def OrderManager.traded (om : OrderManager) (inst : InstrumentId) : Op → Quantity
  | .fill id qty price trade _ =>
    if om.validate id ⟨.Fill, trade, qty, price⟩ = .Ok ∧ (om.orderRef id).instrument = inst then
      signedQty (om.orderRef id).side qty
    else 0
  | _ => 0

/-- The position after an accepted fill. -/
theorem fill_position {om : OrderManager} (hwf : om.WF) {id : OrderIdRaw} {qty : Quantity}
    {price : Price} {trade : TradeId} (ts : Timestamp)
    (hok : om.validate id ⟨.Fill, trade, qty, price⟩ = .Ok) (inst : InstrumentId) :
    (om.fill id qty price trade ts).position inst =
      if inst = (om.orderRef id).instrument then
        (om.position inst).apply (signedQty (om.orderRef id).side qty) price ts
      else om.position inst := by
  have happly : Change {} om (om.applyFill id qty price trade ts) := .fill trivial trivial hok
  have hfinish : Chain still (om.applyFill id qty price trade ts) (om.fill id qty price trade ts) :=
    finish_chain hwf trivial hok
  rw [hfinish.position (happly.wf hwf) (fun _ _ => False.elim) inst]
  show (om.positions.insert _ _).get inst = _
  rw [Finmap.get_insert]
  split_ifs with hinst
  · rw [hinst]
    rfl
  · rfl

section Step

variable {W : Type} {E : Env W} {s : State W}

theorem retire_positions (om : OrderManager) (id : OrderIdRaw) (inst : InstrumentId)
    (rem : Quantity) (side : Side) : (om.retire id inst rem side).positions = om.positions := by
  rw [OrderManager.retire, expire_frame]
  rfl

/-- Retiring an order of which nothing is left to take out. -/
theorem retire_pendingSigned (om : OrderManager) (id : OrderIdRaw) (inst : InstrumentId)
    (side : Side) : (om.retire id inst 0 side).pendingSigned = om.pendingSigned := by
  rw [OrderManager.retire, expire_frame]
  rfl

theorem retire_live (om : OrderManager) (id : OrderIdRaw) (inst : InstrumentId) (rem : Quantity)
    (side : Side) : (om.retire id inst rem side).live = om.live.erase id := by
  rw [OrderManager.retire, expire_frame]
  rfl

theorem onReject_positions (id : OrderIdRaw) (reason : RejectReason) (ts : Timestamp) :
    (s.onReject E id reason ts).om.positions = s.om.positions := by
  unfold State.onReject State.onCancelReject
  dsimp only
  split_ifs
  · rfl
  · split <;> rfl
  · split
    · exact retire_positions _ _ _ _ _
    · rfl

theorem finishCancel_positions (id : OrderIdRaw) (ts : Timestamp) (kind : EventKind)
    (pub : OrderEventKind) (unsolicited : Bool) :
    (s.finishCancel E id ts kind pub unsolicited).om.positions = s.om.positions := by
  unfold State.finishCancel
  split
  · refine (retire_positions _ _ _ _ _).trans ?_
    cases unsolicited <;> rfl
  · rfl

/-- The position on an instrument after an operation: that of the fill it accepts. -/
def OrderManager.positionAfter (om : OrderManager) (inst : InstrumentId) : Op → Position
  | .fill id qty price trade ts =>
    if om.validate id ⟨.Fill, trade, qty, price⟩ = .Ok ∧ (om.orderRef id).instrument = inst then
      (om.position inst).apply (signedQty (om.orderRef id).side qty) price ts
    else om.position inst
  | _ => om.position inst

/-- An operation moves a position by the fill it accepts. -/
theorem step_position (hwf : s.om.WF) (op : Op) (inst : InstrumentId) :
    (s.step E op).om.position inst = s.om.positionAfter inst op := by
  have hstill : ∀ {om'}, Chain unfilled s.om om' → om'.position inst = s.om.position inst :=
    fun hchain => hchain.position hwf (fun _ _ _ => id) inst
  have hsame : ∀ {om' : OrderManager}, om'.positions = s.om.positions →
      om'.position inst = s.om.position inst := fun hpositions => by
    rw [OrderManager.position, hpositions, OrderManager.position]
  cases op with
  | fill id qty price trade ts =>
    show (s.onFill E id qty price trade ts).om.position inst = _
    unfold OrderManager.positionAfter
    dsimp only
    by_cases hok : s.om.validate id ⟨.Fill, trade, qty, price⟩ = .Ok
    · rw [onFill_ok_om hok, fill_position hwf ts hok]
      by_cases hinst : (s.om.orderRef id).instrument = inst
      · rw [if_pos hinst.symm, if_pos ⟨hok, hinst⟩]
      · rw [if_neg (Ne.symm hinst), if_neg fun h => hinst h.2]
    · rw [if_neg fun h => hok h.1, (onFill_not_ok hok).position]
  | submit req => exact hstill (submit_chain trivial hwf trivial)
  | cancel id => exact hstill (cancel_chain id s)
  | confirm id exchId ts => exact hstill (onConfirm_chain exchId)
  | reject id reason ts => exact hsame (onReject_positions id reason ts)
  | cancelAck id ts => exact hsame (finishCancel_positions id ts _ _ _)
  | unsolicitedCancel id ts => exact hsame (finishCancel_positions id ts _ _ _)
  | checkAckTimeouts now timeout => exact hstill (checkAckTimeouts_chain now timeout s)
  | venueDisconnect venue => exact hsame rfl
  | venueReconnect venue => exact hsame rfl
  | setUnknownFillHardstopThreshold n => exact hsame rfl
  | resetRebalanceCycle => exact hsame rfl
  | clearReconcileRequest => exact hsame rfl

/-- An operation moves a net position by what it trades. -/
theorem step_net (hwf : s.om.WF) (op : Op) (inst : InstrumentId) :
    ((s.step E op).om.position inst).net = (s.om.position inst).net + s.om.traded inst op := by
  rw [step_position hwf]
  cases op with
  | fill id qty price trade ts =>
    unfold OrderManager.positionAfter OrderManager.traded
    dsimp only
    split_ifs
    · exact Position.net_apply _ _ _ _ _
    · exact (add_zero _).symm
  | _ => exact (add_zero _).symm

/-- An operation keeps the manager well-formed. -/
theorem step_wf (hwf : s.om.WF) (op : Op) : (s.step E op).om.WF :=
  Change.wf_of_chain (step_chain hwf op) hwf

end Step

end Oms
