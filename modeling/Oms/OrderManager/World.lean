import Oms.OrderManager.Runs

/-!
# What an operation does to the world

* `Env.Bystander`: a relation between worlds that logging, health reports, listeners and routing
  keep; `step_inbound_world`: so does every inbound event;
* `Env.Canceller`: cancels keep it too; `cancel_world`, `checkAckTimeouts_world`,
  `cancelWorkingOrders_world`: so does every operation that sends no order;
* `submit_cases`: a submit sends no order, or it places one at the venue the router chose.
-/

namespace Oms

open OrderManager

section World

variable {W : Type}

/-- Worlds before and after what is not sent to a venue are related. -/
structure Env.Bystander (E : Env W) (R : W → W → Prop) : Prop where
  refl : ∀ w, R w w
  trans : ∀ {w w' w''}, R w w' → R w' w'' → R w w''
  log : ∀ level line w, R w (E.log level line w)
  publish : ∀ e om w, R w (E.publish e om w)
  select : ∀ inst side qty w, R w (E.router.select inst side qty w).2
  onAck : ∀ venue latency w, R w (E.health.onAck venue latency w)
  onReject : ∀ venue benign w, R w (E.health.onReject venue benign w)
  onFill : ∀ venue w, R w (E.health.onFill venue w)
  onTimeout : ∀ venue w, R w (E.health.onTimeout venue w)
  onDisconnect : ∀ venue w, R w (E.health.onDisconnect venue w)
  onReconnect : ∀ venue w, R w (E.health.onReconnect venue w)

/-- Worlds before and after a cancel are related as well. -/
structure Env.Canceller (E : Env W) (R : W → W → Prop) : Prop extends E.Bystander R where
  cancelOrder : ∀ {venue ex}, E.registry.get venue = some ex →
    ∀ id exchId w, R w (ex.cancelOrder id exchId w).2

/-- Any two worlds are related. -/
theorem Env.canceller_true (E : Env W) : E.Canceller fun _ _ => True where
  refl := fun _ => trivial
  trans := fun _ _ => trivial
  log := fun _ _ _ => trivial
  publish := fun _ _ _ => trivial
  select := fun _ _ _ _ => trivial
  onAck := fun _ _ _ => trivial
  onReject := fun _ _ _ => trivial
  onFill := fun _ _ => trivial
  onTimeout := fun _ _ => trivial
  onDisconnect := fun _ _ => trivial
  onReconnect := fun _ _ => trivial
  cancelOrder := fun _ _ _ _ => trivial

variable {E : Env W} {R : W → W → Prop} {s : State W} {id : OrderIdRaw} {ts : Timestamp}

/-! ### Inbound events -/

section Inbound

variable (h : E.Bystander R)
include h

theorem tripKillSwitch_world (reason : String) (s : State W) :
    R s.world (s.tripKillSwitch E reason).world := by
  unfold State.tripKillSwitch
  split_ifs
  · exact h.refl _
  · exact h.log _ _ _

theorem onFill_world (qty : Quantity) (price : Price) (trade : TradeId) :
    R s.world (s.onFill E id qty price trade ts).world := by
  unfold State.onFill
  split
  · exact h.trans (h.onFill _ _) (h.publish _ _ _)
  · dsimp only
    split_ifs
    · refine h.trans ?_ (tripKillSwitch_world h _ _)
      exact h.log _ _ _
    · exact h.log _ _ _
  · exact h.log _ _ _

theorem onCancelReject_world : R s.world (s.onCancelReject E id ts).world := by
  unfold State.onCancelReject
  dsimp only
  split_ifs
  · exact h.trans (h.onReject _ _ _) (h.log _ _ _)
  · split
    · exact h.onReject _ _ _
    · exact h.log _ _ _

theorem finishCancel_world (kind : EventKind) (pub : OrderEventKind) (unsolicited : Bool) :
    R s.world (s.finishCancel E id ts kind pub unsolicited).world := by
  unfold State.finishCancel
  split
  · cases unsolicited
    · exact h.publish _ _ _
    · exact h.trans (h.log _ _ _) (h.publish _ _ _)
  · exact h.log _ _ _

/-- An inbound event keeps what logging, health reports and listeners keep. -/
theorem step_inbound_world {op : Op} (hop : op.inboundId = some id) :
    R s.world (s.step E op).world := by
  cases op with
  | confirm id exchId ts =>
    show R s.world (s.onConfirm E id exchId ts).world
    unfold State.onConfirm
    split
    · exact h.trans (h.onAck _ _ _) (h.publish _ _ _)
    · exact h.log _ _ _
  | fill id qty price trade ts => exact onFill_world h qty price trade
  | reject id reason ts =>
    show R s.world (s.onReject E id reason ts).world
    unfold State.onReject
    split_ifs
    · exact onCancelReject_world h
    · split
      · exact h.trans (h.onReject _ _ _) (h.publish _ _ _)
      · exact h.log _ _ _
  | cancelAck id ts => exact finishCancel_world h _ _ _
  | unsolicitedCancel id ts => exact finishCancel_world h _ _ _
  | _ => cases hop

end Inbound

/-! ### Operations that send no order -/

section Outbound

variable (h : E.Canceller R)
include h

theorem cancel_world (id : OrderIdRaw) (s : State W) : R s.world (s.cancel E id).2.world := by
  unfold State.cancel
  split_ifs
  · exact h.log _ _ _
  dsimp only
  split_ifs
  · exact h.log _ _ _
  split
  · exact h.refl _
  · rename_i ex hex
    split_ifs
    · exact h.cancelOrder hex _ _ _
    · exact h.trans (h.cancelOrder hex _ _ _) (h.log _ _ _)

/-- A sweep keeps what it keeps for each id of the snapshot. -/
theorem foldl_world {sweep : State W → OrderIdRaw → State W}
    (hsweep : ∀ s id, R s.world (sweep s id).world) (ids : List OrderIdRaw) (s : State W) :
    R s.world (ids.foldl sweep s).world := by
  induction ids generalizing s with
  | nil => exact h.refl _
  | cons id ids ih => exact h.trans (hsweep s id) (ih _)

theorem cancelWorkingOrders_world (s : State W) : R s.world (s.cancelWorkingOrders E).world := by
  refine foldl_world h (fun s id => ?_) _ s
  unfold State.cancelWorkingOrder
  split_ifs
  · exact h.refl _
  dsimp only
  split_ifs
  · exact h.refl _
  split
  · exact h.refl _
  · rename_i ex hex
    split_ifs
    · exact h.cancelOrder hex _ _ _
    · exact h.cancelOrder hex _ _ _
    · exact h.refl _

theorem checkAckTimeouts_world (now timeout : Timestamp) (s : State W) :
    R s.world (s.checkAckTimeouts E now timeout).world := by
  refine foldl_world h (fun s id => ?_) _ s
  unfold State.checkAckTimeout
  split_ifs
  · exact h.refl _
  dsimp only
  split_ifs
  · exact h.refl _
  · exact h.refl _
  · exact h.refl _
  have hreport : ∀ line, R s.world (E.log .Warn line
      (E.health.onTimeout (decodeOrderId id).venue s.world)) := fun line =>
    h.trans (h.onTimeout _ _) (h.log _ _ _)
  split
  · exact hreport _
  · rename_i ex hex
    split_ifs
    · exact h.trans (hreport _) (h.cancelOrder hex _ _ _)
    · exact h.trans (hreport _) (h.cancelOrder hex _ _ _)
    · exact hreport _

/-- A submit that gets as far as reserving a slot. -/
structure Placing (E : Env W) (R : W → W → Prop) (s : State W) (req : OrderRequest)
    (venue : VenueId) (ex : ExchangeClient W) (w : W) : Prop where
  found : E.registry.get venue = some ex
  world : R s.world w
  free : s.om.pool.inUse < s.om.pool.capacity
  place : s.submit E req = State.place E req venue ex { s with world := w }

/-- A submit returns no id and sends no order, or it places one at the venue the router chose. -/
theorem submit_cases (s : State W) (req : OrderRequest) :
    (s.submit E req).1 = 0 ∧ R s.world (s.submit E req).2.world ∧
        (∀ P, Chain P s.om (s.submit E req).2.om) ∨
      ∃ venue ex w, Placing E R s req venue ex w := by
  have hworld := h.select req.instrument req.side req.size s.world
  fun_cases State.submit E req s with
  | case1 hkilled => exact Or.inl ⟨rfl, h.log _ _ _, fun _ => .refl⟩
  | case2 hon w hselect =>
    rw [hselect] at hworld
    refine Or.inl ⟨rfl, ?_, fun P => ?_⟩
    · refine h.trans (h.trans hworld ?_) (cancelWorkingOrders_world h _)
      exact h.log _ _ _
    · exact .trans (quiet_chain rfl) (cancelWorkingOrders_chain _)
  | case3 hon venue w hselect s' hget =>
    rw [hselect] at hworld
    exact Or.inl ⟨rfl, h.trans hworld (h.log _ _ _), fun _ => .refl⟩
  | case4 hon venue w hselect s' ex hget hfull =>
    rw [hselect] at hworld
    refine Or.inl ⟨rfl, h.trans hworld (tripKillSwitch_world h.toBystander _ s'), fun P => ?_⟩
    rw [tripKillSwitch_om]
    unfold OrderManager.tripKillSwitch
    split_ifs <;> exact quiet_chain rfl
  | case5 hon venue w hselect s' ex hget hfree =>
    rw [hselect] at hworld
    refine Or.inr ⟨venue, ex, w, hget, hworld, not_le.1 hfree, ?_⟩
    rw [submit_routed (Bool.eq_false_of_not_eq_true hon) hselect hget]
    exact if_neg hfree

end Outbound

end World

end Oms
