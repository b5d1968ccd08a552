import Mathlib.Tactic.Linarith
import Oms.OrderManager.Absorbing
import Oms.OrderManager.Traded

/-!
# A fill against a cancel-ack

* `net_fill_ack`: the fill arrives first, and counts;
* `net_ack_fill`: the ack arrives first, and the fill is dropped;
* `cancel_ack_race`: so the two orders of arrival never agree on the net position.
-/

namespace Oms

open OrderManager

section Race

variable {W : Type} {E : Env W} {s : State W} {id : OrderIdRaw}

/-- After a cancel-ack the order does not work. -/
theorem onCancelAck_not_live (hlive : s.om.Live id) (ts : Timestamp) :
    ¬ (s.onCancelAck E id ts).om.Live id := by
  intro hlive'
  have hopen := hlive'.isOpen
  have hok : s.om.validate id { kind := .CancelAck } = .Ok :=
    (validate_ok_iff (by decide)).2 ⟨hlive.current, hlive.isOpen⟩
  unfold State.onCancelAck State.finishCancel at hopen
  rw [hok] at hopen
  dsimp only at hopen
  rw [retire_orderRef] at hopen
  have href : ((s.om.modifyOrder id (Order.cancelled ts)).orderRef id) =
      (s.om.orderRef id).cancelled ts := orderRef_modifyOrder _ _ _
  exact Order.cancelled_not_open ts _ (href ▸ hopen)

variable {qty : Quantity} {price : Price} {trade : TradeId}

/-- The fill arrives first, and counts. -/
theorem net_fill_ack (hwf : s.om.WF) (hok : s.om.validate id ⟨.Fill, trade, qty, price⟩ = .Ok)
    (ts ts' : Timestamp) :
    (((s.step E (.fill id qty price trade ts)).step E (.cancelAck id ts')).om.position
        (s.om.orderRef id).instrument).net =
      (s.om.position (s.om.orderRef id).instrument).net +
        signedQty (s.om.orderRef id).side qty := by
  have htraded : s.om.traded (s.om.orderRef id).instrument (.fill id qty price trade ts) =
      signedQty (s.om.orderRef id).side qty := if_pos ⟨hok, rfl⟩
  rw [step_net (step_wf hwf _), step_net hwf, htraded]
  exact add_zero _

/-- The ack arrives first, and the fill is dropped. -/
theorem net_ack_fill (hwf : s.om.WF) (hlive : s.om.Live id) (ts ts' : Timestamp)
    (inst : InstrumentId) :
    (((s.step E (.cancelAck id ts')).step E (.fill id qty price trade ts)).om.position inst).net =
      (s.om.position inst).net := by
  have hdropped : SameBooks (s.step E (.cancelAck id ts')).om
      ((s.step E (.cancelAck id ts')).step E (.fill id qty price trade ts)).om :=
    onFill_refused (onCancelAck_not_live hlive ts') qty price trade ts
  rw [OrderManager.position, hdropped.positions]
  exact (step_net hwf _ inst).trans (add_zero _)

/-- **A cancel-ack wins the race with a fill if it arrives first.** In every reachable state, for
every working order with a cancel in flight and every fill that would be accepted for it, the two
orders of arrival leave different net positions. -/
theorem cancel_ack_race (hs : Reached E {} s)
    (_hpending : (s.om.orderRef id).pendingCancel = true)
    (hok : s.om.validate id ⟨.Fill, trade, qty, price⟩ = .Ok) (ts ts' : Timestamp) :
    let a := (s.step E (.fill id qty price trade ts)).step E (.cancelAck id ts')
    let b := (s.step E (.cancelAck id ts')).step E (.fill id qty price trade ts)
    ¬ ((∀ inst, (a.om.position inst).net = (b.om.position inst).net) ∧
      (a.om.orderRef id).filledSize = (b.om.orderRef id).filledSize) := by
  rintro a b ⟨hnet, -⟩
  obtain ⟨hcur, hopen, -, hqty, -⟩ := validate_fill_ok_iff.1 hok
  have hsame := hnet (s.om.orderRef id).instrument
  rw [net_fill_ack hs.wf hok, net_ack_fill hs.wf ⟨hcur, hopen⟩] at hsame
  have hzero : signedQty (s.om.orderRef id).side qty = 0 := by linarith
  exact hqty.ne' (signedQty_eq_zero.1 hzero)

end Race

/-- An order for ten whose cancel is in flight. -/
def inFlight : List Op := [.submit { instrument := 7, size := 10, price := 5 }, .cancel 1]

theorem inFlight_reached : Reached acceptingEnv {} (acceptingRun inFlight) :=
  acceptingRun_reached trivial (fun _ _ => trivial) fun _ _ => trivial

theorem inFlight_disagrees :
    let s := acceptingRun inFlight
    let a := (s.step acceptingEnv (.fill 1 4 5 9 0)).step acceptingEnv (.cancelAck 1 0)
    let b := (s.step acceptingEnv (.cancelAck 1 0)).step acceptingEnv (.fill 1 4 5 9 0)
    ¬ ((∀ inst, (a.om.position inst).net = (b.om.position inst).net) ∧
      (a.om.orderRef 1).filledSize = (b.om.orderRef 1).filledSize) :=
  cancel_ack_race inFlight_reached (by decide) (by decide) 0 0

/-- Four of ten are filled while the cancel is in flight. -/
theorem cancel_ack_race_acceptingRun :
    let s := acceptingRun inFlight
    let a := (s.step acceptingEnv (.fill 1 4 5 9 0)).step acceptingEnv (.cancelAck 1 0)
    let b := (s.step acceptingEnv (.cancelAck 1 0)).step acceptingEnv (.fill 1 4 5 9 0)
    (s.om.orderRef 1).pendingCancel = true ∧ s.om.validate 1 ⟨.Fill, 9, 4, 5⟩ = .Ok ∧
      (a.om.position 7).net = 4 ∧ (b.om.position 7).net = 0 ∧
      (a.om.orderRef 1).filledSize = 4 ∧ (b.om.orderRef 1).filledSize = 0 :=
  ⟨by decide, by decide, by decide, by decide, by decide, by decide⟩

end Oms
