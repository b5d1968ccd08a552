import Oms.OrderManager.Changes

/-!
# Operations as turns

A change takes the manager through states that no caller sees: an order that has ended and is not
yet in its grace window, or a slot that is booked and not yet sent. A turn is one complete thing an
operation does, from one such moment to the next.

* `Turn`: what an operation can do, one constructor for each branch that changes the manager;
* `onFill_turns`, `submit_turns`, …: each operation is a chain of turns;
* `step_turns`: so is every step of the machine, whatever the world answers.
-/

namespace Oms

open Relation OrderManager

/-! ### Writes to an order -/

/-- The writes of the handlers that leave an order working. -/
inductive Order.Working : (Order → Order) → Prop
  | confirm (exchId : ExchangeOrderId) (ts : Timestamp) : Working (confirm exchId ts)
  | markCancelSent : Working markCancelSent
  | rejectCancel : Working rejectCancel
  | markTimedOut : Working markTimedOut

/-- The writes of the handlers that end a working order. -/
inductive Order.Ending : (Order → Order) → Prop
  | reject (ts : Timestamp) : Ending (reject ts)
  | cancelled (ts : Timestamp) : Ending (cancelled ts)

theorem Order.Working.touch {f : Order → Order} (h : Working f) : Touch f := by
  cases h with
  | confirm exchId ts => exact confirm_touch exchId ts
  | markCancelSent => exact markCancelSent_touch
  | rejectCancel => exact rejectCancel_touch
  | markTimedOut => exact markTimedOut_touch

theorem Order.Ending.closing {f : Order → Order} (h : Ending f) : Closing f := by
  cases h with
  | reject ts => exact reject_closing ts
  | cancelled ts => exact cancelled_closing ts

/-! ### Turns -/

/-- Nothing is submitted, filled or closed. -/
def still : Policy := { request := fun _ => False, moves := False }

/-- What an operation does to the manager, from one moment at which it is seen to the next. -/
inductive Turn (P : Policy) : OrderManager → OrderManager → Prop
  /-- flags, counters, texts -/
  | quiet (om d : OrderManager) : Turn P om (om.withDiagnostics d)
  | forgive (om : OrderManager) (id : OrderIdRaw) : Turn P om (om.forgive id)
  | write {om : OrderManager} {id : OrderIdRaw} {f : Order → Order} (hlive : om.Live id)
      (hf : Order.Working f) : Turn P om (om.modifyOrder id f)
  /-- an accepted fill, with what follows a final one -/
  | fill {om : OrderManager} {id : OrderIdRaw} {qty : Quantity} {price : Price} {trade : TradeId}
      {ts : Timestamp} (hmoves : P.moves) (haddr : P.addresses (om.orderRef id).internalId id)
      (hok : om.validate id ⟨.Fill, trade, qty, price⟩ = .Ok) :
      Turn P om (om.fill id qty price trade ts)
  /-- a venue's reject or cancel of a working order -/
  | close {om om' : OrderManager} {id : OrderIdRaw} {f : Order → Order} (hmoves : P.moves)
      (haddr : P.addresses (om.orderRef id).internalId id) (hlive : om.Live id)
      (hf : Order.Ending f) (hwrite : om' = (om.modifyOrder id f).withDiagnostics om') :
      Turn P om (om'.retire id (om'.orderRef id).instrument (om.orderRef id).remaining
        (om'.orderRef id).side)
  /-- an order that the venue took -/
  | place {om om' : OrderManager} {req : OrderRequest} {venue : VenueId} {now : Timestamp}
      {id : OrderIdRaw} (hreq : P.request req) (hres : om.reserve req venue now = some (id, om')) :
      Turn P om (om'.modifyOrder id (Order.markSent now))
  /-- an order whose send failed -/
  | unwind {om om₁ om' : OrderManager} {req : OrderRequest} {venue : VenueId} {now : Timestamp}
      {id : OrderIdRaw} (hmoves : P.moves) (hreq : P.request req)
      (hres : om.reserve req venue now = some (id, om₁))
      (hwrite : om' = (om₁.modifyOrder id Order.failSend).withDiagnostics om') :
      Turn P om (om'.retire id req.instrument req.size req.side)

/-- A chain of turns. -/
abbrev Turns (P : Policy) : OrderManager → OrderManager → Prop := ReflTransGen (Turn P)

/-- Only flags, counters and texts differ. -/
theorem quiet_turns {P : Policy} {om om' : OrderManager} (h : om' = om.withDiagnostics om') :
    Turns P om om' :=
  .single (h ▸ .quiet om om')

/-! ### Operations -/

section Operations

variable {W : Type} {E : Env W} {P : Policy} {s : State W} {id : OrderIdRaw} {ts : Timestamp}

theorem tripKillSwitch_turns (reason : String) : Turns P s.om (s.tripKillSwitch E reason).om := by
  rw [tripKillSwitch_om]
  unfold OrderManager.tripKillSwitch
  split_ifs
  · exact .refl
  · exact quiet_turns rfl

/-- A sweep is a chain if it is one for each id of the snapshot. -/
theorem foldl_turns {sweep : State W → OrderIdRaw → State W}
    (hsweep : ∀ s id, Turns P s.om (sweep s id).om) (ids : List OrderIdRaw) (s : State W) :
    Turns P s.om (ids.foldl sweep s).om := by
  induction ids generalizing s with
  | nil => exact .refl
  | cons id ids ih => exact (hsweep s id).trans (ih _)

theorem cancelWorkingOrder_turns (s : State W) (id : OrderIdRaw) :
    Turns P s.om (s.cancelWorkingOrder E id).om := by
  unfold State.cancelWorkingOrder
  split_ifs with hcur
  · exact .refl
  dsimp only
  split_ifs with hterm
  · exact .refl
  split
  · exact .refl
  · split_ifs
    · simp only [Bool.or_eq_true, not_or, Bool.not_eq_true] at hterm
      exact .single (.write ⟨by simpa using hcur, hterm.1⟩ .markCancelSent)
    · exact .refl
    · exact .refl

theorem cancelWorkingOrders_turns (s : State W) : Turns P s.om (s.cancelWorkingOrders E).om :=
  foldl_turns cancelWorkingOrder_turns _ s

theorem checkAckTimeout_turns (now timeout : Timestamp) (s : State W) (id : OrderIdRaw) :
    Turns P s.om (s.checkAckTimeout E now timeout id).om := by
  unfold State.checkAckTimeout
  split_ifs with hcur
  · exact .refl
  dsimp only
  split_ifs with htimed hsent hlate
  · exact .refl
  · exact .refl
  · exact .refl
  have hopen : (s.om.orderRef id).Open := by
    rw [Order.Open, not_not.1 hsent]
    rfl
  have hlive : s.om.Live id := ⟨by simpa using hcur, hopen⟩
  have hmarked : Turns P s.om { s.om.modifyOrder id Order.markTimedOut with
      ackTimeoutCount := s.om.ackTimeoutCount + 1 } :=
    .trans (.single (.write hlive .markTimedOut)) (quiet_turns rfl)
  have hopen' : ((s.om.modifyOrder id Order.markTimedOut).orderRef id).Open := by
    rw [orderRef_modifyOrder]
    exact Order.markTimedOut_open hopen
  split
  · exact hmarked
  · split_ifs
    · exact hmarked.tail (.write ⟨hlive.current, hopen'⟩ .markCancelSent)
    · exact hmarked
    · exact hmarked

theorem checkAckTimeouts_turns (now timeout : Timestamp) (s : State W) :
    Turns P s.om (s.checkAckTimeouts E now timeout).om :=
  foldl_turns (checkAckTimeout_turns now timeout) _ s

theorem cancel_turns (id : OrderIdRaw) (s : State W) : Turns P s.om (s.cancel E id).2.om := by
  unfold State.cancel
  split_ifs with hcur
  · exact .refl
  dsimp only
  split_ifs with hterm
  · exact .refl
  split
  · exact .refl
  · split_ifs
    · have hopen : (s.om.orderRef id).Open := by
        rw [Order.Open]
        simpa using hterm
      exact .single (.write ⟨by simpa using hcur, hopen⟩ .markCancelSent)
    · exact .refl

theorem place_turns (hmoves : P.moves) {req : OrderRequest} (hreq : P.request req) (venue : VenueId)
    (ex : ExchangeClient W) : Turns P s.om (s.place E req venue ex).2.om := by
  unfold State.place
  dsimp only
  split
  · exact .refl
  · rename_i id om' hres
    split_ifs
    · exact .single (.place hreq hres)
    · exact .single (.unwind hmoves hreq hres rfl)

/-- A submit that gets as far as a client for the chosen venue. -/
theorem submit_routed {req : OrderRequest} {venue : VenueId} {w : W} {ex : ExchangeClient W}
    (hon : s.om.killed = false)
    (hselect : E.router.select req.instrument req.side req.size s.world = (some venue, w))
    (hex : E.registry.get venue = some ex) : s.submit E req =
      if s.om.pool.capacity ≤ s.om.pool.inUse then
        (0, State.tripKillSwitch E
          ("ORDER_POOL_EXHAUSTED in_use=" ++ toString s.om.pool.inUse ++ " capacity=" ++
            toString s.om.pool.capacity) { s with world := w })
      else State.place E req venue ex { s with world := w } := by
  unfold State.submit
  rw [hon, if_neg Bool.false_ne_true, hselect]
  dsimp only
  rw [hex]

theorem submit_turns (hmoves : P.moves) {req : OrderRequest} (hreq : P.request req) :
    Turns P s.om (s.submit E req).2.om := by
  fun_cases State.submit E req s with
  | case1 hkilled => exact .refl
  | case2 hon w hselect => exact .trans (quiet_turns rfl) (cancelWorkingOrders_turns _)
  | case3 hon venue w hselect s' hget => exact .refl
  | case4 hon venue w hselect s' ex hget hfull => exact tripKillSwitch_turns (s := s') _
  | case5 hon venue w hselect s' ex hget hfree =>
    exact place_turns (s := s') hmoves hreq venue ex

theorem onConfirm_turns (exchId : ExchangeOrderId) :
    Turns P s.om (s.onConfirm E id exchId ts).om := by
  unfold State.onConfirm
  split
  · rename_i hok
    obtain ⟨hcur, hopen⟩ := (validate_ok_iff (by decide)).1 hok
    exact .single (.write ⟨hcur, hopen⟩ (.confirm exchId ts))
  · exact quiet_turns rfl

section Inbound

variable (hmoves : P.moves)
  (haddr : s.om.pool.isCurrent id = true → P.addresses (s.om.orderRef id).internalId id)
include hmoves haddr

theorem onFill_turns {qty : Quantity} {price : Price} {trade : TradeId} :
    Turns P s.om (s.onFill E id qty price trade ts).om := by
  unfold State.onFill
  split
  · rename_i hok
    exact .single (.fill hmoves (haddr (validate_fill_ok_iff.1 hok).1) hok)
  · dsimp only
    split_ifs
    · exact .trans (quiet_turns rfl) (tripKillSwitch_turns _)
    · exact quiet_turns rfl
  · exact quiet_turns rfl

theorem finishCancel_turns {kind : EventKind} (hkind : kind ≠ .Fill) (pub : OrderEventKind)
    (unsolicited : Bool) : Turns P s.om (s.finishCancel E id ts kind pub unsolicited).om := by
  unfold State.finishCancel
  split
  · rename_i hok
    obtain ⟨hcur, hopen⟩ := (validate_ok_iff hkind).1 hok
    cases unsolicited
    · exact .single (.close hmoves (haddr hcur) ⟨hcur, hopen⟩ (.cancelled ts) rfl)
    · exact .single (.close hmoves (haddr hcur) ⟨hcur, hopen⟩ (.cancelled ts) rfl)
  · exact quiet_turns rfl

end Inbound

theorem onCancelReject_turns : Turns P s.om (s.onCancelReject E id ts).om := by
  unfold State.onCancelReject
  dsimp only
  split_ifs
  · exact .single (.forgive s.om id)
  · split
    · rename_i hok
      obtain ⟨hcur, hopen⟩ := (validate_ok_iff (by decide)).1 hok
      exact .trans (.single (.write ⟨hcur, hopen⟩ .rejectCancel)) (quiet_turns rfl)
    · exact quiet_turns rfl

theorem onReject_turns (hmoves : P.moves)
    (haddr : s.om.pool.isCurrent id = true → P.addresses (s.om.orderRef id).internalId id)
    (reason : RejectReason) : Turns P s.om (s.onReject E id reason ts).om := by
  unfold State.onReject
  split_ifs
  · exact onCancelReject_turns
  · split
    · rename_i hok
      obtain ⟨hcur, hopen⟩ := (validate_ok_iff (by decide)).1 hok
      exact .single (.close hmoves (haddr hcur) ⟨hcur, hopen⟩ (.reject ts) rfl)
    · exact quiet_turns rfl

/-- An operation keeps a policy: its request is allowed, or the order its event reaches is. -/
def Policy.Allows (P : Policy) (s : State W) (op : Op) : Prop :=
  (∀ req, op = .submit req → P.moves ∧ P.request req) ∧
    ∀ id, op.inboundId = some id → P.moves ∧
      (s.om.pool.isCurrent id = true → P.addresses (s.om.orderRef id).internalId id)

/-- **Every operation is a chain of turns**, whatever the world behind the interfaces answers. -/
theorem step_turns {op : Op} (hop : P.Allows s op) : Turns P s.om (s.step E op).om := by
  cases op with
  | submit req => exact submit_turns (hop.1 req rfl).1 (hop.1 req rfl).2
  | cancel id => exact cancel_turns id s
  | confirm id exchId ts => exact onConfirm_turns exchId
  | fill id qty price trade ts => exact onFill_turns (hop.2 id rfl).1 (hop.2 id rfl).2
  | reject id reason ts => exact onReject_turns (hop.2 id rfl).1 (hop.2 id rfl).2 reason
  | cancelAck id ts =>
    exact finishCancel_turns (hop.2 id rfl).1 (hop.2 id rfl).2 (by decide) .Cancelled false
  | unsolicitedCancel id ts =>
    exact finishCancel_turns (hop.2 id rfl).1 (hop.2 id rfl).2 (by decide) .UnsolicitedCancel true
  | checkAckTimeouts now timeout => exact checkAckTimeouts_turns now timeout s
  | venueDisconnect venue => exact .refl
  | venueReconnect venue => exact quiet_turns rfl
  | setUnknownFillHardstopThreshold n => exact quiet_turns rfl
  | resetRebalanceCycle => exact quiet_turns rfl
  | clearReconcileRequest => exact quiet_turns rfl

end Operations

end Oms
