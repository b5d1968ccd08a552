import Oms.ExecutionAlgo.Ownership
import Oms.Metrics.ArrivalMids
import Oms.OrderPool.Sums

/-!
# The figures of the collector

The collector learns of the orders from events only. Here its figures are read off the orders.

* `OfFilled`: a figure that is zero for an order that is not filled;
* `OfFilled.step_other`, `OfFilled.onFill`: only a final fill moves its sum over all orders;
* `Order.Scored`: the orders that the collector counts; `Figures`: its figures are their sums;
* `SamplesOnce`: an order that is counted, and its slippage; `step_samplesOnce`, `step_figures`: one
  operation;
* `metrics_account`: every run.
-/

namespace Oms

open OrderManager Relation

/-! ### Figures of filled orders -/

/-- A figure that is zero for every order that is not filled. -/
def OfFilled (φ : Order → ℤ) : Prop := ∀ o : Order, o.status ≠ .Filled → φ o = 0

section Figure

variable {φ : Order → ℤ} {om om' : OrderManager} {id : OrderIdRaw} {f : Order → Order}

theorem OfFilled.of_open (hφ : OfFilled φ) {o : Order} (ho : o.Open) : φ o = 0 := by
  refine hφ o fun hstatus => ?_
  rw [Order.Open, hstatus] at ho
  cases ho

theorem retire_everSum (om : OrderManager) (id : OrderIdRaw) (inst : InstrumentId)
    (rem : Quantity) (side : Side) :
    (om.retire id inst rem side).pool.everSum φ = om.pool.everSum φ := by
  unfold OrderPool.everSum
  rcases retire_pool om id inst rem side with hpool | ⟨slot, hpool⟩
  · rw [hpool]
  · rw [hpool, OrderPool.created_release]

/-- A write to a working order that does not fill it. -/
theorem OfFilled.write (hφ : OfFilled φ) (hwf : om.WF) (hlive : om.Live id)
    (hf : (f (om.orderRef id)).status ≠ .Filled) :
    (om.modifyOrder id f).pool.everSum φ = om.pool.everSum φ := by
  show (om.pool.modify (slotOf id) f).everSum φ = _
  rw [hwf.everSum_write hlive.current, hφ.of_open hlive.isOpen, hφ _ hf, sub_zero, add_zero]

theorem OfFilled.touch (hφ : OfFilled φ) (hwf : om.WF) (hlive : om.Live id)
    (hf : Order.Touch f) : (om.modifyOrder id f).pool.everSum φ = om.pool.everSum φ := by
  refine hφ.write hwf hlive fun hstatus => ?_
  have hopen := hf.stays_open _ hlive.isOpen
  rw [Order.Open, hstatus] at hopen
  cases hopen

/-- The end of an order that is not filled. -/
theorem OfFilled.close (hφ : OfFilled φ) (hwf : om.WF) (hlive : om.Live id)
    (hf : (f (om.orderRef id)).status ≠ .Filled)
    (hwrite : om' = (om.modifyOrder id f).withDiagnostics om') (inst : InstrumentId)
    (rem : Quantity) (side : Side) :
    (om'.retire id inst rem side).pool.everSum φ = om.pool.everSum φ := by
  have hpool : om'.pool = (om.modifyOrder id f).pool :=
    (congrArg OrderManager.pool hwrite).trans rfl
  rw [retire_everSum, hpool, hφ.write hwf hlive hf]

theorem OfFilled.reserve (hφ : OfFilled φ) (hwf : om.WF) {req : OrderRequest} {venue : VenueId}
    {now : Timestamp} (hres : om.reserve req venue now = some (id, om')) :
    om'.pool.everSum φ = om.pool.everSum φ ∧ om'.WF ∧ om'.Live id := by
  obtain ⟨pool, hacq, hid, rfl⟩ := hwf.reserve_cases hres
  refine ⟨?_, hwf.booked hacq, hwf.booked_live hacq hid⟩
  have hnew : φ (req.stamp id now {}) = 0 := hφ _ OrderStatus.noConfusion
  show (pool.modify (slotOf id) (req.stamp id now)).everSum φ = _
  rw [OrderPool.everSum_acquire_modify _ hacq, hnew, add_zero]

/-- A turn that reaches no order by an event. -/
theorem OfFilled.turn (hφ : OfFilled φ) (hwf : om.WF)
    (hturn : Turn { addresses := fun _ _ => False } om om') :
    om'.pool.everSum φ = om.pool.everSum φ := by
  cases hturn with
  | quiet => rfl
  | forgive => rfl
  | write hlive hf => exact hφ.touch hwf hlive hf.touch
  | fill hmoves haddr => exact haddr.elim
  | close hmoves haddr => exact haddr.elim
  | place hreq hres =>
    obtain ⟨hbooked, hwf', hlive⟩ := hφ.reserve hwf hres
    exact (hφ.touch hwf' hlive (Order.markSent_touch _)).trans hbooked
  | unwind hmoves hreq hres hwrite =>
    obtain ⟨hbooked, hwf', hlive⟩ := hφ.reserve hwf hres
    exact (hφ.close hwf' hlive OrderStatus.noConfusion hwrite _ _ _).trans hbooked

theorem OfFilled.turns (hφ : OfFilled φ) (hwf : om.WF)
    (hturns : Turns { addresses := fun _ _ => False } om om') :
    om'.pool.everSum φ = om.pool.everSum φ := by
  induction hturns with
  | refl => rfl
  | tail hturns hturn ih =>
    exact (hφ.turn (Change.wf_of_chain (Turns.chain hturns hwf) hwf) hturn).trans ih

end Figure

section Operations

variable {φ : Order → ℤ} {B : Type} {F : Env B} {t : State B} {id : OrderIdRaw} {ts : Timestamp}

theorem OfFilled.finishCancel (hφ : OfFilled φ) (hwf : t.om.WF) {kind : EventKind}
    (hkind : kind ≠ .Fill) (pub : OrderEventKind) (unsolicited : Bool) :
    (t.finishCancel F id ts kind pub unsolicited).om.pool.everSum φ = t.om.pool.everSum φ := by
  unfold State.finishCancel
  split
  · rename_i hok
    obtain ⟨hcur, hopen⟩ := (validate_ok_iff hkind).1 hok
    cases unsolicited
    · exact hφ.close hwf ⟨hcur, hopen⟩ OrderStatus.noConfusion rfl _ _ _
    · exact hφ.close hwf ⟨hcur, hopen⟩ OrderStatus.noConfusion rfl _ _ _
  · rfl

theorem OfFilled.onReject (hφ : OfFilled φ) (hwf : t.om.WF) (reason : RejectReason) :
    (t.onReject F id reason ts).om.pool.everSum φ = t.om.pool.everSum φ := by
  unfold State.onReject
  split_ifs
  · exact hφ.turns hwf onCancelReject_turns
  · split
    · rename_i hok
      obtain ⟨hcur, hopen⟩ := (validate_ok_iff (by decide)).1 hok
      exact hφ.close hwf ⟨hcur, hopen⟩ OrderStatus.noConfusion rfl _ _ _
    · rfl

/-- **What is no fill** leaves the figure. -/
theorem OfFilled.step_other (hφ : OfFilled φ) (hwf : t.om.WF) {op : Op}
    (hop : ∀ id qty price trade ts, op ≠ .fill id qty price trade ts) :
    (t.step F op).om.pool.everSum φ = t.om.pool.everSum φ := by
  cases op with
  | fill id qty price trade ts => exact absurd rfl (hop id qty price trade ts)
  | confirm id exchId ts => exact hφ.turns hwf (onConfirm_turns exchId)
  | reject id reason ts => exact hφ.onReject hwf reason
  | cancelAck id ts => exact hφ.finishCancel hwf (by decide) _ _
  | unsolicitedCancel id ts => exact hφ.finishCancel hwf (by decide) _ _
  | submit req => exact hφ.turns hwf (submit_turns trivial trivial)
  | cancel id => exact hφ.turns hwf (cancel_turns id t)
  | checkAckTimeouts now timeout => exact hφ.turns hwf (checkAckTimeouts_turns now timeout t)
  | _ => rfl

/-- **A fill** adds the figure of the order, if it completes it. -/
theorem OfFilled.onFill (hφ : OfFilled φ) (hwf : t.om.WF) (qty : Quantity) (price : Price)
    (trade : TradeId) :
    (t.onFill F id qty price trade ts).om.pool.everSum φ = t.om.pool.everSum φ +
      if t.om.validate id ⟨.Fill, trade, qty, price⟩ = .Ok then
        φ ((t.om.orderRef id).addFill qty price ts) else 0 := by
  by_cases hok : t.om.validate id ⟨.Fill, trade, qty, price⟩ = .Ok
  · obtain ⟨hcur, hopen, -⟩ := validate_fill_ok_iff.1 hok
    have happly : (t.om.applyFill id qty price trade ts).pool.everSum φ = t.om.pool.everSum φ +
        φ ((t.om.orderRef id).addFill qty price ts) := by
      show (t.om.pool.modify (slotOf id) (Order.addFill qty price ts)).everSum φ = _
      rw [hwf.everSum_write hcur, hφ.of_open hopen, sub_zero]
    rw [if_pos hok, onFill_ok_om hok, ← happly]
    rcases fill_cases t.om id qty price trade ts with ⟨-, hfill⟩ | ⟨-, om₂, hexpect, hfill⟩
    · rw [hfill]
    · rw [hfill, retire_everSum]
      rcases hexpect with rfl | rfl <;> rfl
  · rw [if_neg hok, add_zero]
    have hturns : Turns { addresses := fun _ _ => False } t.om
        (t.onFill F id qty price trade ts).om := by
      unfold State.onFill
      split
      · rename_i hok'
        exact absurd hok' hok
      · dsimp only
        split_ifs
        · exact .trans (quiet_turns rfl) (tripKillSwitch_turns _)
        · exact quiet_turns rfl
      · exact quiet_turns rfl
    exact hφ.turns hwf hturns

end Operations

/-! ### The figures -/

/-- The orders that the collector counts: those that are filled, corrective ones excluded. -/
def Order.Scored (o : Order) : Prop := o.status = .Filled ∧ o.reconciliation = false

instance (o : Order) : Decidable o.Scored := inferInstanceAs (Decidable (_ ∧ _))

/-- The orders whose time to fill is sampled. -/
def Order.Timed (o : Order) : Prop := o.Scored ∧ o.ts.created ≤ o.ts.terminal

instance (o : Order) : Decidable o.Timed := inferInstanceAs (Decidable (_ ∧ _))

def Order.timeToFill (o : Order) : Timestamp := o.ts.terminal - o.ts.created

/-- A figure that is zero for every order that does not count. -/
def OfScored (φ : Order → ℤ) : Prop := ∀ o : Order, ¬ o.Scored → φ o = 0

theorem OfScored.ofFilled {φ : Order → ℤ} (hφ : OfScored φ) : OfFilled φ :=
  fun o hstatus => hφ o fun h => hstatus h.1

theorem ofScored_scored (φ : Order → ℤ) : OfScored fun o => if o.Scored then φ o else 0 :=
  fun _ h => if_neg h

theorem ofScored_timed (φ : Order → ℤ) : OfScored fun o => if o.Timed then φ o else 0 :=
  fun _ h => if_neg fun htimed => h htimed.1

/-- The figures of the collector are those of the orders. -/
structure Figures {V : Type} (m : MetricsCollector V) (om : OrderManager) : Prop where
  filled : (m.filledOrders : ℤ) = om.pool.everSum fun o => if o.Scored then 1 else 0
  timed : (m.ttf.countAll : ℤ) = om.pool.everSum fun o => if o.Timed then 1 else 0
  timeToFill : m.ttf.sum = om.pool.everSum fun o => if o.Timed then o.timeToFill else 0

/-- The collector counted no order and sampled no slippage, or it counted one order and sampled its
slippage at most once against each reference. -/
def SamplesOnce {V : Type} (m m' : MetricsCollector V) : Prop :=
  m'.filledOrders = m.filledOrders ∧ m'.slipArrival = m.slipArrival ∧ m'.slipVwap = m.slipVwap ∨
    m'.filledOrders = m.filledOrders + 1 ∧
      m'.slipArrival.countAll ≤ m.slipArrival.countAll + 1 ∧
      m'.slipVwap.countAll ≤ m.slipVwap.countAll + 1

/-- No slippage was sampled more often than orders were counted. -/
structure Outnumbered {V : Type} (m : MetricsCollector V) : Prop where
  arrivals : m.slipArrival.countAll ≤ m.filledOrders
  vwaps : m.slipVwap.countAll ≤ m.filledOrders

section Listener

variable {V : Type} {rnd : ℚ → ℚ} {m m' : MetricsCollector V} {e : OrderEvent}
  {om om' : OrderManager} {v : V} {o : Order}

theorem SamplesOnce.outnumbered (h : SamplesOnce m m') (hm : Outnumbered m) : Outnumbered m' := by
  obtain ⟨harrivals, hvwaps⟩ := hm
  rcases h with ⟨hcount, harrival, hvwap⟩ | ⟨hcount, harrival, hvwap⟩
  · constructor
    · rw [harrival, hcount]
      exact harrivals
    · rw [hvwap, hcount]
      exact hvwaps
  · constructor <;> omega

theorem countAll_ite_add_le (c : Prop) [Decidable c] (d : Distribution) (x : ℤ) :
    (if c then d.add x else d).countAll ≤ d.countAll + 1 := by
  split_ifs
  · exact le_refl _
  · exact Nat.le_succ _

theorem onFilled_samplesOnce : SamplesOnce m (m.onFilled rnd e o) :=
  Or.inr ⟨rfl, countAll_ite_add_le _ _ _, countAll_ite_add_le _ _ _⟩

theorem onOrderEvent_samplesOnce (e : OrderEvent) (om : OrderManager) (v : V) :
    SamplesOnce m (m.onOrderEvent rnd e om v) := by
  have hnone : SamplesOnce m m := Or.inl ⟨rfl, rfl, rfl⟩
  unfold MetricsCollector.onOrderEvent
  split
  · exact hnone
  · split_ifs
    · exact hnone
    split
    · unfold MetricsCollector.onConfirmed MetricsCollector.captureArrival
      dsimp only
      split
      · exact hnone
      · split_ifs <;> exact hnone
    · exact onFilled_samplesOnce
    · exact hnone

/-- What an event that completes no order leaves alone. -/
theorem onOrderEvent_not_fill (h : Figures m om) (hkind : e.kind ≠ .Fill) :
    Figures (m.onOrderEvent rnd e om' v) om := by
  obtain ⟨hfilled, htimed, htotal⟩ := h
  unfold MetricsCollector.onOrderEvent
  split
  · exact ⟨hfilled, htimed, htotal⟩
  · split_ifs
    · exact ⟨hfilled, htimed, htotal⟩
    split
    · unfold MetricsCollector.onConfirmed MetricsCollector.captureArrival
      dsimp only
      split
      · exact ⟨hfilled, htimed, htotal⟩
      · split_ifs <;> exact ⟨hfilled, htimed, htotal⟩
    · rename_i hfill
      exact absurd hfill hkind
    · exact ⟨hfilled, htimed, htotal⟩

/-- The samples of an order that is fully filled. -/
theorem onFilled_figures (h : Figures m om) (ho : o.Scored)
    (hsum : ∀ φ, OfScored φ → om'.pool.everSum φ = om.pool.everSum φ + φ o) :
    Figures (m.onFilled rnd e o) om' := by
  obtain ⟨hfilled, htimed, htotal⟩ := h
  have htimes : ∀ x : ℤ, (if o.Timed then x else 0) =
      if o.ts.created ≤ o.ts.terminal then x else 0 := fun x =>
    if_congr (and_iff_right ho) rfl rfl
  refine ⟨?_, ?_, ?_⟩
  · rw [hsum _ (ofScored_scored _), ← hfilled, if_pos ho]
    exact Nat.cast_succ _
  · rw [hsum _ (ofScored_timed _), ← htimed, htimes]
    unfold MetricsCollector.onFilled
    dsimp only
    split_ifs
    · exact Nat.cast_succ _
    · exact (add_zero _).symm
  · rw [hsum _ (ofScored_timed _), ← htotal, htimes]
    unfold MetricsCollector.onFilled
    dsimp only
    split_ifs
    · rfl
    · exact (add_zero _).symm

/-- Figures follow sums that do not change. -/
theorem Figures.of_sums (h : Figures m om)
    (hsum : ∀ φ, OfScored φ → om'.pool.everSum φ = om.pool.everSum φ) : Figures m om' where
  filled := h.filled.trans (hsum _ (ofScored_scored _)).symm
  timed := h.timed.trans (hsum _ (ofScored_timed _)).symm
  timeToFill := h.timeToFill.trans (hsum _ (ofScored_timed _)).symm

end Listener

/-! ### Every run -/

section Runs

variable {W V : Type} {rnd : ℚ → ℚ} {E : Env W} {s : MeteredState W V}

/-- **An accepted fill** is scored if it completes an order, and no corrective one. -/
theorem finalFill_figures (hwf : s.om.WF) (h : Figures s.metrics s.om) {id : OrderIdRaw}
    {qty : Quantity} {price : Price} {trade : TradeId} (ts : Timestamp)
    (hok : s.om.validate id ⟨.Fill, trade, qty, price⟩ = .Ok) :
    Figures (s.step (E.listening (hearMetrics rnd)) (.fill id qty price trade ts)).metrics
      (s.step (E.listening (hearMetrics rnd)) (.fill id qty price trade ts)).om := by
  have hsum : ∀ φ, OfScored φ →
      (s.step (E.listening (hearMetrics rnd)) (.fill id qty price trade ts)).om.pool.everSum φ =
        s.om.pool.everSum φ + φ ((s.om.orderRef id).addFill qty price ts) := by
    intro φ hφ
    refine (hφ.ofFilled.onFill hwf qty price trade).trans ?_
    rw [if_pos hok]
  obtain ⟨e, hannounced, rfl, hkind⟩ := announced_fill hok ts
  have hcur : (s.om.applyFill e.internalId qty price trade ts).pool.isCurrent e.internalId =
      true := (OrderPool.isCurrent_modify _).trans (validate_fill_ok_iff.1 hok).1
  rw [metrics_step, hannounced]
  dsimp only
  by_cases hqty : qty = (s.om.orderRef e.internalId).remaining
  · rw [if_pos hqty] at hkind
    have hfilled : ((s.om.orderRef e.internalId).addFill qty price ts).status = .Filled := by
      refine if_pos ?_
      rw [Order.filledSize_add_eq_size_iff]
      exact hqty
    have hheard : s.metrics.onOrderEvent rnd e
        (s.om.applyFill e.internalId qty price trade ts) s.world.2.1 =
          if ((s.om.orderRef e.internalId).addFill qty price ts).reconciliation then s.metrics
          else s.metrics.onFilled rnd e ((s.om.orderRef e.internalId).addFill qty price ts) := by
      unfold MetricsCollector.onOrderEvent OrderManager.find
      rw [if_pos hcur, hkind, applyFill_orderRef]
    rw [hheard]
    split_ifs with hrecon
    · refine h.of_sums fun φ hφ => ?_
      have hnot : ¬ ((s.om.orderRef e.internalId).addFill qty price ts).Scored := by
        rintro ⟨-, hplain⟩
        rw [hrecon] at hplain
        cases hplain
      rw [hsum φ hφ, hφ _ hnot, add_zero]
    · exact onFilled_figures h ⟨hfilled, Bool.eq_false_of_not_eq_true hrecon⟩ hsum
  · rw [if_neg hqty] at hkind
    have hopen : ((s.om.orderRef e.internalId).addFill qty price ts).Open := by
      rw [Order.addFill_open_iff, Ne, Order.filledSize_add_eq_size_iff]
      exact hqty
    refine onOrderEvent_not_fill (h.of_sums fun φ hφ => ?_) ?_
    · rw [hsum φ hφ, hφ.ofFilled.of_open hopen, add_zero]
    · rw [hkind]
      exact OrderEventKind.noConfusion

/-- **One operation.** -/
theorem step_figures (hwf : s.om.WF) (h : Figures s.metrics s.om) (op : Op) :
    Figures (s.step (E.listening (hearMetrics rnd)) op).metrics
      (s.step (E.listening (hearMetrics rnd)) op).om := by
  rcases noFill_or s.om op with hno | ⟨id, qty, price, trade, ts, rfl, hok⟩
  · have hsum : ∀ φ, OfScored φ →
        (s.step (E.listening (hearMetrics rnd)) op).om.pool.everSum φ =
          s.om.pool.everSum φ := by
      intro φ hφ
      cases op with
      | fill id qty price trade ts =>
        refine (hφ.ofFilled.onFill hwf qty price trade).trans ?_
        rw [if_neg (hno id qty price trade ts rfl), add_zero]
      | _ => exact hφ.ofFilled.step_other hwf fun _ _ _ _ _ => Op.noConfusion
    refine Figures.of_sums ?_ hsum
    rw [metrics_step]
    cases hannounced : announced s.om op with
    | none => exact h
    | some x => exact onOrderEvent_not_fill h (announced_kind hannounced hno).1
  · exact finalFill_figures hwf h ts hok

/-- **One operation** samples the slippage of the order that it completes, at most once. -/
theorem step_samplesOnce (s : MeteredState W V) (op : MetricsOp V) :
    SamplesOnce s.metrics ((metricsMachine rnd E).step s op).metrics := by
  cases op with
  | oms op =>
    show SamplesOnce _ (s.step (E.listening (hearMetrics rnd)) op).metrics
    rw [metrics_step]
    cases announced s.om op with
    | none => exact Or.inl ⟨rfl, rfl, rfl⟩
    | some x => exact onOrderEvent_samplesOnce x.1 x.2 s.world.2.1
  | market v => exact Or.inl ⟨rfl, rfl, rfl⟩
  | referenceVwap inst vwap => exact Or.inl ⟨rfl, rfl, rfl⟩

theorem figures_fresh (capacity : PoolCapacity) (w : W) (v : V)
    (mds : Option (MarketDataSource V)) :
    Figures (MeteredState.fresh capacity w v mds).metrics
      (MeteredState.fresh capacity w v mds).om where
  filled := (OrderPool.everSum_init _ capacity).symm
  timed := (OrderPool.everSum_init _ capacity).symm
  timeToFill := (OrderPool.everSum_init _ capacity).symm

theorem run_figures (capacity : PoolCapacity) (w : W) (v : V)
    (mds : Option (MarketDataSource V)) (ops : List (MetricsOp V)) :
    let s' := (metricsMachine rnd E).run (.fresh capacity w v mds) ops
    s'.om.WF ∧ Figures s'.metrics s'.om := by
  intro s'
  refine Machine.run_invariant (M := metricsMachine rnd E) (G := fun _ _ => True)
    (I := fun s'' : MeteredState W V => s''.om.WF ∧ Figures s''.metrics s''.om)
    (fun s'' op h _ => ?_) ⟨wf_init capacity, figures_fresh capacity w v mds⟩
    (Machine.admits_true _ _ _)
  cases op with
  | oms op =>
    exact ⟨Change.wf_of_chain (step_chain h.1 op) h.1, step_figures h.1 h.2 op⟩
  | market v => exact h
  | referenceVwap inst vwap => exact ⟨h.1, h.2.filled, h.2.timed, h.2.timeToFill⟩

theorem run_outnumbered (capacity : PoolCapacity) (w : W) (v : V)
    (mds : Option (MarketDataSource V)) (ops : List (MetricsOp V)) :
    Outnumbered ((metricsMachine rnd E).run (.fresh capacity w v mds) ops).metrics :=
  Machine.run_invariant (M := metricsMachine rnd E) (G := fun _ _ => True)
    (I := fun s => Outnumbered s.metrics)
    (fun s op h _ => (step_samplesOnce s op).outnumbered h) ⟨le_refl _, le_refl _⟩
    (Machine.admits_true _ _ _)

/-- **The collector accounts for every order.** In every run of a manager with a collector that is
subscribed from the start, whatever the events and the market: the orders that it counts as filled
are the filled ones among all that were ever created, corrective ones excluded, each once; its times
to fill are theirs, for those whose timestamps are in order. Slippage is sampled at most once
against each reference by an operation that counts an order, and by no other operation, so no more
often than orders are counted. -/
theorem metrics_account (rnd : ℚ → ℚ) (E : Env W) (capacity : PoolCapacity) (w : W) (v : V)
    (mds : Option (MarketDataSource V)) (ops : List (MetricsOp V)) :
    let s := (metricsMachine rnd E).run (.fresh capacity w v mds) ops
    let created := s.om.pool.created
    s.metrics.filledOrders = (created.filter Order.Scored).card ∧
      s.metrics.ttf.countAll = (created.filter Order.Timed).card ∧
      s.metrics.ttf.sum = ((created.filter Order.Timed).map Order.timeToFill).sum ∧
      s.metrics.slipArrival.countAll ≤ s.metrics.filledOrders ∧
      s.metrics.slipVwap.countAll ≤ s.metrics.filledOrders ∧
      ∀ op, SamplesOnce s.metrics ((metricsMachine rnd E).step s op).metrics := by
  intro s created
  have hfigures : Figures s.metrics s.om := (run_figures capacity w v mds ops).2
  have hslips : Outnumbered s.metrics := run_outnumbered capacity w v mds ops
  have hcount : ∀ q : Order → Prop, ∀ [DecidablePred q],
      (s.om.pool.everSum fun o => if q o then (1 : ℤ) else 0) = (created.filter q).card := by
    intro q _
    rw [OrderPool.everSum_ite (fun _ => 1) q, Multiset.map_const', Multiset.sum_replicate,
      nsmul_eq_mul, mul_one]
  refine ⟨?_, ?_, ?_, hslips.arrivals, hslips.vwaps, step_samplesOnce s⟩
  · exact_mod_cast hfigures.filled.trans (hcount Order.Scored)
  · exact_mod_cast hfigures.timed.trans (hcount Order.Timed)
  · rw [hfigures.timeToFill, OrderPool.everSum_ite]

end Runs

end Oms
