import Oms.OrderManager.Records
import Oms.OrderManager.World

/-!
# What listeners see

* `Env.recording`: a world with a listener that keeps the managers it was shown;
* `published`, `step_record`: the managers that an operation shows to the listeners;
* `ExactBooks`: the books of a manager agree with its orders; `published_step_iff`: they do whenever
  an operation runs the listeners, unless it is the venue's end of a working order;
* `published_exact_iff`: the same for whole runs.
-/

namespace Oms

open OrderManager

/-! ### A listener that remembers -/

section Recording

variable {W : Type}

/-- Act on the world, and leave the record alone. -/
def unrecorded {α : Type} (f : W → α × W) (w : W × List OrderManager) :
    α × (W × List OrderManager) :=
  ((f w.1).1, (f w.1).2, w.2)

def ExchangeClient.recording (ex : ExchangeClient W) : ExchangeClient (W × List OrderManager) where
  placeOrder := fun o => unrecorded (ex.placeOrder o)
  cancelOrder := fun id exchId => unrecorded (ex.cancelOrder id exchId)
  getPositions := unrecorded ex.getPositions
  getOrderBook := fun inst => unrecorded (ex.getOrderBook inst)
  isConnected := fun w => ex.isConnected w.1

/-- The same world, with one more listener. It records the manager at every event. -/
def Env.recording (E : Env W) : Env (W × List OrderManager) where
  registry := ⟨E.registry.byVenue.map (Option.map .recording)⟩
  router := ⟨fun inst side qty => unrecorded (E.router.select inst side qty)⟩
  health :=
    { onOrderSent := fun venue now w => (E.health.onOrderSent venue now w.1, w.2)
      onAck := fun venue latency w => (E.health.onAck venue latency w.1, w.2)
      onReject := fun venue benign w => (E.health.onReject venue benign w.1, w.2)
      onFill := fun venue w => (E.health.onFill venue w.1, w.2)
      onTimeout := fun venue w => (E.health.onTimeout venue w.1, w.2)
      onDisconnect := fun venue w => (E.health.onDisconnect venue w.1, w.2)
      onReconnect := fun venue w => (E.health.onReconnect venue w.1, w.2) }
  log := fun level line w => (E.log level line w.1, w.2)
  clock := fun w => E.clock w.1
  publish := fun e om w => (E.publish e om w.1, w.2 ++ [om])
  liveOrder := fun w => E.liveOrder w.1
  mem_liveOrder := fun w => E.mem_liveOrder w.1
  nodup_liveOrder := fun w => E.nodup_liveOrder w.1

/-- The world without listeners. -/
def Env.unheard (E : Env W) : Env W := { E with publish := fun _ _ w => w }

/-- The worlds have the same record. -/
abbrev SameRecord (w w' : W × List OrderManager) : Prop := w'.2 = w.2

/-- Every client of the recording world leaves the record alone. -/
theorem recording_get {E : Env W} {venue : VenueId} {ex : ExchangeClient (W × List OrderManager)}
    (h : E.recording.registry.get venue = some ex) : ∃ ex', ex = ExchangeClient.recording ex' := by
  change ((E.registry.byVenue.map (Option.map ExchangeClient.recording))[venue.toNat]?).join =
    some ex at h
  rw [List.getElem?_map] at h
  cases hget : E.registry.byVenue[venue.toNat]? with
  | none => simp [hget] at h
  | some client =>
    cases client with
    | none => simp [hget] at h
    | some ex' =>
      rw [hget] at h
      exact ⟨ex', (Option.some.inj h).symm⟩

/-- Without listeners nothing is recorded. -/
theorem unheard_canceller (E : Env W) : E.recording.unheard.Canceller SameRecord where
  refl := fun _ => rfl
  trans := fun h h' => h'.trans h
  log := fun _ _ _ => rfl
  publish := fun _ _ _ => rfl
  select := fun _ _ _ _ => rfl
  onAck := fun _ _ _ => rfl
  onReject := fun _ _ _ => rfl
  onFill := fun _ _ => rfl
  onTimeout := fun _ _ => rfl
  onDisconnect := fun _ _ => rfl
  onReconnect := fun _ _ => rfl
  cancelOrder := by
    intro venue ex hex id exchId w
    obtain ⟨ex', rfl⟩ := recording_get hex
    rfl

end Recording

/-! ### What an operation publishes -/

/-- The managers that an operation shows to the listeners. -/
def published (om : OrderManager) : Op → List OrderManager
  | .confirm id exchId ts =>
    if om.validate id { kind := .Confirm } = .Ok then [om.modifyOrder id (Order.confirm exchId ts)]
    else []
  | .fill id qty price trade ts =>
    if om.validate id ⟨.Fill, trade, qty, price⟩ = .Ok then [om.applyFill id qty price trade ts]
    else []
  | .reject id reason ts =>
    if reason ≠ .CancelRejected ∧ om.validate id { kind := .Reject } = .Ok then
      [{ om.modifyOrder id (Order.reject ts) with rejectCount := om.rejectCount + 1 }]
    else []
  | .cancelAck id ts =>
    if om.validate id { kind := .CancelAck } = .Ok then [om.modifyOrder id (Order.cancelled ts)]
    else []
  | .unsolicitedCancel id ts =>
    if om.validate id { kind := .UnsolicitedCancel } = .Ok then
      [{ om.modifyOrder id (Order.cancelled ts) with
        unsolicitedCancelCount := om.unsolicitedCancelCount + 1 }]
    else []
  | _ => []

section Record

variable {W : Type} {E : Env W} {s : State (W × List OrderManager)} {id : OrderIdRaw}
  {ts : Timestamp}

/-- A submit runs no listeners. -/
theorem submit_record (req : OrderRequest) :
    (s.submit E.recording req).2.world.2 = s.world.2 := by
  show (s.submit E.recording.unheard req).2.world.2 = s.world.2
  rcases submit_cases (unheard_canceller E) s req with ⟨-, hworld, -⟩ | ⟨venue, ex, w, hplacing⟩
  · exact hworld
  · obtain ⟨ex', rfl⟩ := recording_get hplacing.found
    rw [hplacing.place]
    unfold State.place
    dsimp only
    split
    · exact hplacing.world
    · split_ifs
      · exact hplacing.world
      · exact hplacing.world

theorem onConfirm_record (exchId : ExchangeOrderId) :
    (s.onConfirm E.recording id exchId ts).world.2 =
      s.world.2 ++ published s.om (.confirm id exchId ts) := by
  unfold State.onConfirm published
  dsimp only
  split
  · rename_i hok
    rw [if_pos hok]
    rfl
  · rename_i hok
    rw [if_neg hok, List.append_nil]
    rfl

theorem onFill_record (qty : Quantity) (price : Price) (trade : TradeId) :
    (s.onFill E.recording id qty price trade ts).world.2 =
      s.world.2 ++ published s.om (.fill id qty price trade ts) := by
  unfold published
  dsimp only
  split_ifs with hok
  · unfold State.onFill
    rw [hok]
    rfl
  · have hunheard : s.onFill E.recording id qty price trade ts =
        s.onFill E.recording.unheard id qty price trade ts := by
      unfold State.onFill
      split
      · rename_i hok'
        exact absurd hok' hok
      · rfl
      · rfl
    rw [hunheard, List.append_nil]
    exact onFill_world (unheard_canceller E).toBystander qty price trade

theorem onReject_record (reason : RejectReason) :
    (s.onReject E.recording id reason ts).world.2 =
      s.world.2 ++ published s.om (.reject id reason ts) := by
  unfold State.onReject published
  dsimp only
  by_cases hreason : reason = .CancelRejected
  · rw [if_pos hreason, if_neg fun h => h.1 hreason, List.append_nil]
    exact onCancelReject_world (E := E.recording.unheard) (unheard_canceller E).toBystander
  · rw [if_neg hreason]
    split
    · rename_i hok
      rw [if_pos ⟨hreason, hok⟩]
      rfl
    · rename_i hok
      rw [if_neg fun h => hok h.2, List.append_nil]
      rfl

theorem finishCancel_record (kind : EventKind) (pub : OrderEventKind) :
    ((s.finishCancel E.recording id ts kind pub false).world.2 = s.world.2 ++
        if s.om.validate id { kind := kind } = .Ok then [s.om.modifyOrder id (Order.cancelled ts)]
        else []) ∧
      (s.finishCancel E.recording id ts kind pub true).world.2 = s.world.2 ++
        if s.om.validate id { kind := kind } = .Ok then
          [{ s.om.modifyOrder id (Order.cancelled ts) with
            unsolicitedCancelCount := s.om.unsolicitedCancelCount + 1 }]
        else [] := by
  unfold State.finishCancel
  split
  · rename_i hok
    rw [if_pos hok, if_pos hok]
    exact ⟨rfl, rfl⟩
  · rename_i hok
    rw [if_neg hok, if_neg hok, List.append_nil]
    exact ⟨rfl, rfl⟩

/-- An operation shows the listeners what it publishes. -/
theorem step_record (op : Op) :
    (s.step E.recording op).world.2 = s.world.2 ++ published s.om op := by
  have hnone : ∀ {s' : State (W × List OrderManager)}, s'.world.2 = s.world.2 →
      s'.world.2 = s.world.2 ++ [] := fun h => h.trans (List.append_nil _).symm
  cases op with
  | submit req => exact hnone (submit_record req)
  | cancel id => exact hnone (cancel_world (unheard_canceller E) id s)
  | confirm id exchId ts => exact onConfirm_record exchId
  | fill id qty price trade ts => exact onFill_record qty price trade
  | reject id reason ts => exact onReject_record reason
  | cancelAck id ts => exact (finishCancel_record .CancelAck .Cancelled).1
  | unsolicitedCancel id ts => exact (finishCancel_record .UnsolicitedCancel .UnsolicitedCancel).2
  | checkAckTimeouts now timeout =>
    exact hnone (checkAckTimeouts_world (unheard_canceller E) now timeout s)
  | venueDisconnect venue => exact hnone rfl
  | venueReconnect venue => exact hnone rfl
  | setUnknownFillHardstopThreshold n => exact hnone rfl
  | resetRebalanceCycle => exact hnone rfl
  | clearReconcileRequest => exact hnone rfl

end Record

/-! ### Exact books -/

/-- What all orders ever created have filled on an instrument. -/
def OrderManager.filledOn (om : OrderManager) (inst : InstrumentId) : Quantity :=
  ((om.pool.created.filter fun o => o.instrument = inst).map
    fun o => signedQty o.side o.filledSize).sum

/-- What the orders without a terminal status have open on an instrument. -/
def OrderManager.openOn (om : OrderManager) (inst : InstrumentId) : Quantity :=
  ∑ slot ∈ om.pool.workingOn inst,
    signedQty (om.pool.slots slot).side (om.pool.slots slot).remaining

/-- The books of a manager agree with its orders. -/
structure ExactBooks (om : OrderManager) : Prop where
  net : ∀ inst, (om.position inst).net = om.filledOn inst
  pending : ∀ inst, om.pendingQuantity inst = om.openOn inst

section ExactBooks

variable {om om' : OrderManager} {id : OrderIdRaw} {f : Order → Order}

theorem exact_iff : ExactBooks om ↔ ∀ inst, NetBalanced om inst ∧ PendingBalanced om inst := by
  have hfilled : ∀ inst, om.pool.everSum (filledQty inst) = om.filledOn inst := fun inst =>
    OrderPool.everSum_ite _ _
  have hopen : ∀ inst, om.pool.openSum (openQty inst) = om.openOn inst := fun inst =>
    OrderPool.openSum_openQty _ _
  constructor
  · intro h inst
    exact ⟨(h.net inst).trans (hfilled inst).symm, (h.pending inst).trans (hopen inst).symm⟩
  · intro h
    exact ⟨fun inst => (h inst).1.trans (hfilled inst), fun inst => (h inst).2.trans (hopen inst)⟩

/-- With exact books, what is left to execute is exact. -/
theorem ExactBooks.executionDelta (h : ExactBooks om) (inst : InstrumentId) (target : Quantity) :
    om.executionDelta inst target = target - (om.filledOn inst + om.openOn inst) := by
  rw [OrderManager.executionDelta, h.net, h.pending]

theorem ExactBooks.change (h : ExactBooks om) (hwf : om.WF) (hbound : Bounded om)
    (hchange : Change sized om om') : ExactBooks om' := by
  rw [exact_iff] at h ⊢
  intro inst
  exact ⟨netBalanced_step hwf (h inst).1 hchange,
    pendingBalanced_step hwf hbound (h inst).2 hchange⟩

/-- A working order that has just ended is still in the pending quantity. -/
theorem ExactBooks.not_ended (h : ExactBooks om) (hwf : om.WF) (hrecords : Records om)
    (hlive : om.Live id) (hf : Order.Closing f) (hpool : om'.pool = om.pool.modify (slotOf id) f)
    (hpending : om'.pendingSigned = om.pendingSigned) : ¬ ExactBooks om' := by
  intro h'
  have hbefore : om.pendingQuantity (om.orderRef id).instrument = _ := (exact_iff.1 h _).2
  have hafter : om'.pendingQuantity (om.orderRef id).instrument = _ := (exact_iff.1 h' _).2
  rw [hpool, hlive.openSum_write hwf, if_neg (hf.not_open _), add_zero, pendingQuantity, hpending]
    at hafter
  have hzero : openQty (om.orderRef id).instrument (om.orderRef id) = 0 :=
    sub_eq_self.1 (hafter.symm.trans hbefore)
  rw [openQty, if_pos rfl, signedQty_eq_zero] at hzero
  have hrecord : (om.orderRef id).Consistent := hrecords _ hlive.allocated
  exact (sub_pos.2 (hrecord.filled_lt hlive.isOpen)).ne' hzero

end ExactBooks

/-! ### Runs -/

/-- The operation is the venue's end of a working order: a reject, a cancel-ack or an unsolicited
cancel that passes validation. -/
def Ends (om : OrderManager) : Op → Prop
  | .reject id reason _ => reason ≠ .CancelRejected ∧ om.Live id
  | .cancelAck id _ => om.Live id
  | .unsolicitedCancel id _ => om.Live id
  | _ => False

section Runs

variable {W : Type} {E : Env W} {s : State W}

theorem Reached.exact (hs : Reached E sized s) : ExactBooks s.om :=
  exact_iff.2 fun inst => ⟨hs.netBalanced inst, hs.pendingBalanced inst⟩

theorem Reached.records (hs : Reached E sized s) : Records s.om :=
  (hs.turn_invariant records_init fun _ _ => records_turn).2

theorem validate_ok_iff_live {id : OrderIdRaw} {ev : EventContext} {om : OrderManager}
    (hkind : ev.kind ≠ .Fill) : om.validate id ev = .Ok ↔ om.Live id :=
  (validate_ok_iff hkind).trans ⟨fun h => ⟨h.1, h.2⟩, fun h => ⟨h.current, h.isOpen⟩⟩

theorem forall_mem_ite {p : Prop} [Decidable p] {om : OrderManager} {Q : OrderManager → Prop} :
    (∀ om' ∈ if p then [om] else [], Q om') ↔ (p → Q om) := by
  split_ifs with hp <;> simp [hp]

/-- What is shown at the venue's end of a working order is not exact. -/
theorem Reached.exact_end_iff (hs : Reached E sized s) {p : Prop} [Decidable p] {id : OrderIdRaw}
    {f : Order → Order} {om : OrderManager} (hlive : p → s.om.Live id) (hf : Order.Closing f)
    (hpool : om.pool = s.om.pool.modify (slotOf id) f)
    (hpending : om.pendingSigned = s.om.pendingSigned) :
    (∀ om' ∈ if p then [om] else [], ExactBooks om') ↔ ¬ p := by
  rw [forall_mem_ite]
  constructor
  · intro h hp
    exact hs.exact.not_ended hs.wf hs.records (hlive hp) hf hpool hpending (h hp)
  · exact fun hp hp' => absurd hp' hp

/-- The listeners see exact books, unless the operation is the venue's end of a working order. -/
theorem published_step_iff (hs : Reached E sized s) (op : Op) :
    (∀ om ∈ published s.om op, ExactBooks om) ↔ ¬ Ends s.om op := by
  have hstep : ∀ {om}, Change sized s.om om → ExactBooks om := fun hchange =>
    hs.exact.change hs.wf hs.bounded hchange
  have hlive : ∀ (id : OrderIdRaw) (kind : EventKind), kind ≠ .Fill →
      (s.om.validate id { kind := kind } = .Ok ↔ s.om.Live id) := fun _ _ hkind =>
    validate_ok_iff_live hkind
  cases op with
  | confirm id exchId ts =>
    refine iff_of_true (forall_mem_ite.2 fun hok => ?_) not_false
    exact hstep (.touch ((hlive id .Confirm (by decide)).1 hok) (Order.confirm_touch exchId ts))
  | fill id qty price trade ts =>
    exact iff_of_true (forall_mem_ite.2 fun hok => hstep (.fill trivial trivial hok)) not_false
  | reject id reason ts =>
    have hok := hlive id .Reject (by decide)
    have hended : reason ≠ .CancelRejected ∧ s.om.validate id { kind := .Reject } = .Ok →
        s.om.Live id := fun h => hok.1 h.2
    refine (hs.exact_end_iff hended (Order.reject_closing ts) ?_ ?_).trans ?_
    · rfl
    · rfl
    · exact not_congr (and_congr_right fun _ => hok)
  | cancelAck id ts =>
    have hok := hlive id .CancelAck (by decide)
    refine (hs.exact_end_iff hok.1 (Order.cancelled_closing ts) ?_ ?_).trans (not_congr hok)
    · rfl
    · rfl
  | unsolicitedCancel id ts =>
    have hok := hlive id .UnsolicitedCancel (by decide)
    refine (hs.exact_end_iff hok.1 (Order.cancelled_closing ts) ?_ ?_).trans (not_congr hok)
    · rfl
    · rfl
  | _ => exact iff_of_true (fun om hom => nomatch hom) not_false

/-- **Listeners see exact books exactly as long as no venue ends an order.** In every run with
requests of positive size, the net position, the pending quantity and the execution delta of every
instrument agree with the orders whenever the listeners run, if and only if no reject, cancel-ack or
unsolicited cancel of the run reaches a working order. -/
theorem published_exact_iff (E : Env W) (capacity : PoolCapacity) (w : W) {ops : List Op}
    (hsize : ∀ req, Op.submit req ∈ ops → 0 < req.size) :
    (∀ om ∈ ((machine E.recording).run ⟨.init capacity, w, []⟩ ops).world.2, ∀ inst,
        (om.position inst).net = om.filledOn inst ∧ om.pendingQuantity inst = om.openOn inst ∧
          ∀ target, om.executionDelta inst target =
            target - (om.filledOn inst + om.openOn inst)) ↔
      (machine E.recording).Admits (fun s op => ¬ Ends s.om op) ⟨.init capacity, w, []⟩ ops := by
  have hstart : Reached E.recording sized ⟨.init capacity, w, []⟩ :=
    ⟨capacity, (w, []), [], trivial, rfl⟩
  have hstep : ∀ s op, Reached E.recording sized s → (∀ req, op = .submit req → 0 < req.size) →
      Reached E.recording sized (s.step E.recording op) := by
    rintro s op ⟨capacity', w', hreach⟩ hop
    exact ⟨capacity', w', hreach.tail ⟨fun req hreq => ⟨trivial, hop req hreq⟩,
      fun _ _ => ⟨trivial, fun _ => trivial⟩⟩⟩
  have hlog : ∀ s op, Reached E.recording sized s →
      (s.step E.recording op).world.2 = s.world.2 ++ published s.om op := fun _ op _ =>
    step_record op
  have hemit : ∀ s op, Reached E.recording sized s → (∀ req, op = .submit req → 0 < req.size) →
      ((∀ om ∈ published s.om op, ExactBooks om) ↔ ¬ Ends s.om op) := fun _ op hs _ =>
    published_step_iff hs op
  have hops : ∀ op ∈ ops, ∀ req, op = .submit req → 0 < req.size := by
    rintro _ hop req rfl
    exact hsize req hop
  have hrun := Machine.forall_log_iff (M := machine E.recording) (f := fun s => s.world.2) hstep
    hlog
    hemit hstart hops
  rw [and_iff_right (fun om hom => nomatch hom)] at hrun
  refine Iff.trans ?_ hrun
  refine forall₂_congr fun om _ => ⟨fun h => ?_, fun h inst => ?_⟩
  · exact ⟨fun inst => (h inst).1, fun inst => (h inst).2.1⟩
  · exact ⟨h.net inst, h.pending inst, h.executionDelta inst⟩

end Runs

/-- The managers shown to the listeners in the run of `acceptingRun`. -/
def acceptingRecord (ops : List Op) : List OrderManager :=
  ((machine acceptingEnv.recording).run ⟨.init twoSlots, (), []⟩ ops).world.2

/-- A confirm and two fills. -/
theorem published_exact_acceptingRecord :
    (acceptingRecord [.submit { instrument := 7, size := 10, price := 5 }, .confirm 1 "x" 0,
        .fill 1 4 5 9 0, .fill 1 6 5 10 0]).Forall fun om =>
      (om.position 7).net = om.filledOn 7 ∧ om.pendingQuantity 7 = om.openOn 7 := by
  refine List.forall_iff_forall_mem.2 fun om hom => ?_
  have h := (published_exact_iff acceptingEnv twoSlots ()
    (by simp : ∀ req, Op.submit req ∈ [.submit { instrument := 7, size := 10, price := 5 },
      .confirm 1 "x" 0, .fill 1 4 5 9 0, .fill 1 6 5 10 0] → 0 < req.size)).2
    ⟨id, id, id, id, trivial⟩ om hom 7
  exact ⟨h.1, h.2.1⟩

/-- A listener that hears of a cancel finds the ten of the cancelled order still pending. -/
theorem cancel_shows_pending :
    ∃ om ∈ acceptingRecord [.submit { instrument := 7, size := 10, price := 5 }, .cancelAck 1 0],
      om.pendingQuantity 7 = 10 ∧ om.openOn 7 = 0 ∧
        om.executionDelta 7 10 ≠ 10 - (om.filledOn 7 + om.openOn 7) := by
  decide

end Oms
