import Oms.OrderManager.Stored

/-!
# What is heard of each order

* `News`, `State.told`: what an accepted confirm or fill, or the ack watchdog, tells of an order;
* `chronicle`: the manager with what was told of the order in each slot, from the moment the slot
  was taken;
* `SlotStep`, `step_slot`: everything an operation can do to the order in a slot;
* `Told`, `told_step`: the rule for what relates every stored order to its story.
-/

namespace Oms

open OrderManager

/-! ### Stories -/

/-- What is told of an order. -/
inductive News
  | confirm
  | fill (qty : Quantity) (price : Price)
  /-- the ack watchdog flags the order and counts it -/
  | timedOut
  deriving DecidableEq, Repr

/-- The venue has answered. -/
def News.isAck : News → Bool
  | .confirm | .fill _ _ => true
  | .timedOut => false

/-- What an operation tells the manager of the order in a slot: its event, if that is accepted. -/
def OrderManager.heard (om : OrderManager) (op : Op) (slot : ℕ) : List News :=
  match op with
  | .confirm id _ _ =>
    if slot = slotOf id ∧ om.validate id { kind := .Confirm } = .Ok then [.confirm] else []
  | .fill id qty price trade _ =>
    if slot = slotOf id ∧ om.validate id ⟨.Fill, trade, qty, price⟩ = .Ok then [.fill qty price]
    else []
  | _ => []

namespace OrderManager

/-- A sent order that nobody has acked for too long, and that is not yet flagged. -/
structure Overdue (om : OrderManager) (now timeout : Timestamp) (id : OrderIdRaw) : Prop where
  current : om.pool.isCurrent id = true
  unflagged : (om.orderRef id).ackTimedOut = false
  sent : (om.orderRef id).status = .Sent
  late : timeout ≤ now - (om.orderRef id).ts.sent

theorem overdue_iff {om : OrderManager} {now timeout : Timestamp} {id : OrderIdRaw} :
    om.Overdue now timeout id ↔ om.pool.isCurrent id = true ∧
      (om.orderRef id).ackTimedOut = false ∧ (om.orderRef id).status = .Sent ∧
        timeout ≤ now - (om.orderRef id).ts.sent :=
  ⟨fun h => ⟨h.current, h.unflagged, h.sent, h.late⟩, fun h => ⟨h.1, h.2.1, h.2.2.1, h.2.2.2⟩⟩

instance (om : OrderManager) (now timeout : Timestamp) (id : OrderIdRaw) :
    Decidable (om.Overdue now timeout id) := decidable_of_iff _ overdue_iff.symm

end OrderManager

section Counted

variable {W : Type} (E : Env W)

/-- The ids among `ids` whose orders a scan over them counts as timed out. -/
def State.overdue (now timeout : Timestamp) : State W → List OrderIdRaw → List OrderIdRaw
  | _, [] => []
  | s, id :: ids =>
    (if s.om.Overdue now timeout id then [id] else []) ++
      State.overdue now timeout (s.checkAckTimeout E now timeout id) ids

/-- The ids whose orders an operation counts as timed out. -/
def State.counted (s : State W) : Op → List OrderIdRaw
  | .checkAckTimeouts now timeout => s.overdue E now timeout (E.liveOrder s.world s.om.live)
  | _ => []

/-- The timeouts among `ids` of the order in a slot. -/
def timeoutsIn (slot : ℕ) (ids : List OrderIdRaw) : List News :=
  (ids.filter fun id => slotOf id = slot).map fun _ => .timedOut

/-- What an operation tells of the order in a slot. -/
def State.told (s : State W) (op : Op) (slot : ℕ) : List News :=
  s.om.heard op slot ++ timeoutsIn slot (s.counted E op)

end Counted

/-- The manager and its world, with a story of the order in each slot. -/
structure Chronicle (W A : Type) where
  state : State W
  story : ℕ → List A

section Chronicle

variable {W A : Type}

/-- The machine of the manager. Beside it, the story of a slot begins when the slot is taken, and
goes on with what each operation tells of it. -/
def chronicle (E : Env W) (tell : State W → Op → ℕ → List A) : Machine (Chronicle W A) Op where
  step c op :=
    { state := c.state.step E op
      story := fun slot =>
        if c.state.om.pool.allocated slot then c.story slot ++ tell c.state op slot else [] }

/-- A fresh manager, of which nothing is told. -/
def Chronicle.blank (capacity : PoolCapacity) (w : W) : Chronicle W A :=
  ⟨⟨.init capacity, w⟩, fun _ => []⟩

/-- The stories leave the manager and its world alone. -/
theorem chronicle_run_state (E : Env W) (tell : State W → Op → ℕ → List A) (c : Chronicle W A)
    (ops : List Op) : ((chronicle E tell).run c ops).state = (machine E).run c.state ops :=
  Machine.run_map (fun _ _ => rfl) c ops

/-- Two stories of one run, if one gets an entry whenever the other gets one that satisfies `p`. -/
theorem length_story_eq_countP {B : Type} {E : Env W} {tell : State W → Op → ℕ → List A}
    {count : State W → Op → ℕ → List B} {p : A → Bool}
    (h : ∀ s op slot, (count s op slot).length = (tell s op slot).countP p) {c : Chronicle W A}
    {c' : Chronicle W B} (hstate : c'.state = c.state)
    (hstory : ∀ slot, (c'.story slot).length = (c.story slot).countP p) (ops : List Op)
    (slot : ℕ) : (((chronicle E count).run c' ops).story slot).length =
      (((chronicle E tell).run c ops).story slot).countP p := by
  induction ops generalizing c c' with
  | nil => exact hstory slot
  | cons op ops ih =>
    refine ih (congrArg (fun s : State W => s.step E op) hstate) fun i => ?_
    show (if c'.state.om.pool.allocated i then c'.story i ++ count c'.state op i else []).length =
      (if c.state.om.pool.allocated i then c.story i ++ tell c.state op i else []).countP p
    rw [hstate]
    split_ifs
    · rw [List.length_append, List.countP_append, hstory, h]
    · rfl

end Chronicle

/-! ### Cancels that go out -/

section Cancels

variable {W : Type} (E : Env W)

/-- The client of an order's venue takes a cancel for it. -/
def State.cancelGoesOut (s : State W) (id : OrderIdRaw) : Bool :=
  match E.registry.get (decodeOrderId id).venue with
  | none => false
  | some ex => (ex.cancelOrder id (s.om.orderRef id).exchangeId s.world).1 = .Ok

/-- The client of an order's venue is connected. -/
def State.venueConnected (s : State W) (id : OrderIdRaw) : Bool :=
  match E.registry.get (decodeOrderId id).venue with
  | none => false
  | some ex => ex.isConnected s.world

/-- The all-down sweep gets a cancel out for the order of an id. -/
def State.sweeps (s : State W) (id : OrderIdRaw) : Bool :=
  s.om.pool.isCurrent id && !(isTerminal (s.om.orderRef id).status) &&
    !(s.om.orderRef id).pendingCancel && s.venueConnected E id && s.cancelGoesOut E id

/-- The ids among `ids` for which a sweep over them gets a cancel out. -/
def State.swept : State W → List OrderIdRaw → List OrderIdRaw
  | _, [] => []
  | s, id :: ids =>
    (if s.sweeps E id then [id] else []) ++ State.swept (s.cancelWorkingOrder E id) ids

/-- A state in which a submit has found all venues down, before its sweep. -/
def State.allDown (s : State W) (req : OrderRequest) (w : W) : State W :=
  State.log E .Error
    ("ALL-DOWN: no tradeable venue for instrument=" ++ toString req.instrument ++
      "; not submitting, cancelling working orders, cycle marked incomplete")
    { om := { s.om with rebalanceIncomplete := true }, world := w }

/-- The ids for which a submit gets a cancel out, because all venues are down. -/
def State.sweptBy (s : State W) (req : OrderRequest) : List OrderIdRaw :=
  if s.om.killed then []
  else
    match E.router.select req.instrument req.side req.size s.world with
    | (some _, _) => []
    | (none, w) =>
      let s := s.allDown E req w
      s.swept E (E.liveOrder s.world s.om.live)

end Cancels

/-! ### What an operation does to the order in a slot -/

/-- What the watchdog writes to an order it flags. -/
inductive Order.Flagging : (Order → Order) → Prop
  | mark : Flagging markTimedOut
  | markAndCancel : Flagging (markCancelSent ∘ markTimedOut)

theorem Order.Flagging.flags {f : Order → Order} (h : Flagging f) (o : Order) :
    (f o).ackTimedOut = true := by
  cases h <;> rfl

/-- What an operation can make of the order in an allocated slot, with what it tells of it. -/
inductive SlotStep {W : Type} (E : Env W) (s : State W) (op : Op) (slot : ℕ) :
    List News → Order → Prop
  | same : SlotStep E s op slot [] (s.om.pool.slots slot)
  | confirm {id : OrderIdRaw} {exchId : ExchangeOrderId} {ts : Timestamp}
      (hop : op = .confirm id exchId ts) (hslot : slot = slotOf id) (hlive : s.om.Live id) :
      SlotStep E s op slot [.confirm] ((s.om.pool.slots slot).confirm exchId ts)
  | fill {id : OrderIdRaw} {qty : Quantity} {price : Price} {trade : TradeId} {ts : Timestamp}
      (hop : op = .fill id qty price trade ts) (hslot : slot = slotOf id)
      (hok : s.om.validate id ⟨.Fill, trade, qty, price⟩ = .Ok) :
      SlotStep E s op slot [.fill qty price] ((s.om.pool.slots slot).addFill qty price ts)
  | cancel {id : OrderIdRaw} (hop : op = .cancel id) (hslot : slot = slotOf id)
      (hlive : s.om.Live id) (hout : s.cancelGoesOut E id = true) :
      SlotStep E s op slot [] (s.om.pool.slots slot).markCancelSent
  | sweep {req : OrderRequest} {id : OrderIdRaw} (hop : op = .submit req)
      (hslot : slot = slotOf id) (hid : id ∈ s.sweptBy E req) :
      SlotStep E s op slot [] (s.om.pool.slots slot).markCancelSent
  | rejectCancel {id : OrderIdRaw} {ts : Timestamp} (hop : op = .reject id .CancelRejected ts)
      (hslot : slot = slotOf id) (hexp : id ∉ s.om.expectedFalseCancelRejects)
      (hlive : s.om.Live id) : SlotStep E s op slot [] (s.om.pool.slots slot).rejectCancel
  | close {id : OrderIdRaw} {f : Order → Order} (hslot : slot = slotOf id) (hlive : s.om.Live id)
      (hf : Order.Ending f) : SlotStep E s op slot [] (f (s.om.pool.slots slot))
  | timeOut {f : Order → Order} (hf : Order.Flagging f)
      (hunflagged : (s.om.pool.slots slot).ackTimedOut = false) :
      SlotStep E s op slot [.timedOut] (f (s.om.pool.slots slot))

/-- What a submit can put into a free slot: an order that is sent, or one whose send failed. -/
inductive SlotNew (req : OrderRequest) : Order → Prop
  | sent (id : OrderIdRaw) (now : Timestamp) : SlotNew req ((req.stamp id now {}).markSent now)
  | failed (id : OrderIdRaw) (now : Timestamp) : SlotNew req (req.stamp id now {}).failSend

/-! ### Every operation -/

section Steps

variable {W : Type} {E : Env W} {s : State W} {op : Op} {slot : ℕ} {id : OrderIdRaw}

/-- What an operation makes of an allocated slot: a step of the order that was in it, or a new
order. -/
def SlotSpec (E : Env W) (s : State W) (op : Op) (om' : OrderManager) : Prop :=
  ∀ slot, om'.pool.allocated slot = true →
    s.om.pool.allocated slot = true ∧
        SlotStep E s op slot (s.told E op slot) (om'.pool.slots slot) ∨
      s.om.pool.allocated slot = false ∧ ∃ req, op = .submit req ∧ SlotNew req (om'.pool.slots slot)

theorem SlotsKept.spec {om' : OrderManager} (h : SlotsKept s.om om')
    (htold : ∀ slot, s.told E op slot = []) : SlotSpec E s op om' := by
  intro slot halloc
  obtain ⟨hbefore, heq⟩ := h slot halloc
  rw [heq, htold]
  exact Or.inl ⟨hbefore, .same⟩

/-- A write is a step of the order it writes, if nothing is told of the others. -/
theorem SlotWritten.spec {om' : OrderManager} {f : Order → Order} (h : SlotWritten s.om om' id f)
    (htold : ∀ slot, slot ≠ slotOf id → s.told E op slot = [])
    (hstep : SlotStep E s op (slotOf id) (s.told E op (slotOf id))
      (f (s.om.pool.slots (slotOf id)))) :
    SlotSpec E s op om' := by
  intro slot halloc
  obtain ⟨hbefore, heq⟩ := h slot halloc
  rw [heq]
  by_cases hslot : slot = slotOf id
  · subst hslot
    rw [if_pos rfl]
    exact Or.inl ⟨hbefore, hstep⟩
  · rw [if_neg hslot, htold slot hslot]
    exact Or.inl ⟨hbefore, .same⟩

section Told

variable {exchId : ExchangeOrderId} {qty : Quantity} {price : Price} {trade : TradeId}
  {ts : Timestamp}

theorem told_confirm (slot : ℕ) : s.told E (.confirm id exchId ts) slot =
    if slot = slotOf id ∧ s.om.validate id { kind := .Confirm } = .Ok then [.confirm] else [] :=
  List.append_nil _

theorem told_fill (slot : ℕ) : s.told E (.fill id qty price trade ts) slot =
    if slot = slotOf id ∧ s.om.validate id ⟨.Fill, trade, qty, price⟩ = .Ok then
      [.fill qty price] else [] :=
  List.append_nil _

end Told

theorem onConfirm_spec (id : OrderIdRaw) (exchId : ExchangeOrderId) (ts : Timestamp) :
    SlotSpec E s (.confirm id exchId ts) (s.onConfirm E id exchId ts).om := by
  by_cases hok : s.om.validate id { kind := .Confirm } = .Ok
  · have hwritten : SlotWritten s.om (s.onConfirm E id exchId ts).om id
        (Order.confirm exchId ts) := by
      unfold State.onConfirm
      rw [hok]
      exact .of_pool rfl
    obtain ⟨hcur, hopen⟩ := (validate_ok_iff (by decide)).1 hok
    refine hwritten.spec (fun slot hslot => ?_) ?_
    · rw [told_confirm, if_neg fun h => hslot h.1]
    · rw [told_confirm, if_pos ⟨rfl, hok⟩]
      exact .confirm rfl rfl ⟨hcur, hopen⟩
  · have hkept : SlotsKept s.om (s.onConfirm E id exchId ts).om := by
      rw [onConfirm_drop rfl hok]
      exact .of_pool rfl
    refine hkept.spec fun slot => ?_
    rw [told_confirm, if_neg fun h => hok h.2]

theorem onFill_spec (id : OrderIdRaw) (qty : Quantity) (price : Price) (trade : TradeId)
    (ts : Timestamp) :
    SlotSpec E s (.fill id qty price trade ts) (s.onFill E id qty price trade ts).om := by
  by_cases hok : s.om.validate id ⟨.Fill, trade, qty, price⟩ = .Ok
  · rw [onFill_ok_om hok]
    refine (slotWritten_fill s.om id qty price trade ts).spec (fun slot hslot => ?_) ?_
    · rw [told_fill, if_neg fun h => hslot h.1]
    · rw [told_fill, if_pos ⟨rfl, hok⟩]
      exact .fill rfl rfl hok
  · have hkept : SlotsKept s.om (s.onFill E id qty price trade ts).om := by
      by_cases hunk : s.om.validate id ⟨.Fill, trade, qty, price⟩ = .UnknownOrder
      · unfold State.onFill
        rw [hunk]
        dsimp only
        split_ifs
        · rw [tripKillSwitch_om]
          unfold OrderManager.tripKillSwitch
          split_ifs <;> exact .of_pool rfl
        · exact .of_pool rfl
      · rw [onFill_drop rfl hok hunk]
        exact .of_pool rfl
    refine hkept.spec fun slot => ?_
    rw [told_fill, if_neg fun h => hok h.2]

/-- A cancel-reject that is not an expected one writes a working order. -/
theorem onCancelReject_cases (s : State W) (id : OrderIdRaw) (ts : Timestamp) :
    (id ∉ s.om.expectedFalseCancelRejects ∧ s.om.Live id) ∧
        (s.onCancelReject E id ts).om.pool = s.om.pool.modify (slotOf id) Order.rejectCancel ∨
      ¬ (id ∉ s.om.expectedFalseCancelRejects ∧ s.om.Live id) ∧
        (s.onCancelReject E id ts).om.pool = s.om.pool := by
  unfold State.onCancelReject
  dsimp only
  split_ifs with hexp
  · exact Or.inr ⟨fun h => h.1 hexp, rfl⟩
  · split
    · rename_i hok
      obtain ⟨hcur, hopen⟩ := (validate_ok_iff (by decide)).1 hok
      exact Or.inl ⟨⟨hexp, hcur, hopen⟩, rfl⟩
    · rename_i hok
      exact Or.inr ⟨fun h => hok ((validate_ok_iff (by decide)).2 ⟨h.2.current, h.2.isOpen⟩), rfl⟩

theorem onReject_spec (id : OrderIdRaw) (reason : RejectReason) (ts : Timestamp) :
    SlotSpec E s (.reject id reason ts) (s.onReject E id reason ts).om := by
  have htold : ∀ slot, s.told E (.reject id reason ts) slot = [] := fun _ => rfl
  unfold State.onReject
  split_ifs with hreason
  · subst hreason
    rcases onCancelReject_cases (E := E) s id ts with ⟨⟨hexp, hlive⟩, hpool⟩ | ⟨-, hpool⟩
    · exact (SlotWritten.of_pool hpool).spec (fun slot _ => htold slot)
        (.rejectCancel rfl rfl hexp hlive)
    · exact (SlotsKept.of_pool hpool).spec htold
  · split
    · rename_i hok
      obtain ⟨hcur, hopen⟩ := (validate_ok_iff (by decide)).1 hok
      have hwritten : SlotWritten s.om { s.om.modifyOrder id (Order.reject ts) with
          rejectCount := s.om.rejectCount + 1 } id (Order.reject ts) := .of_pool rfl
      exact (hwritten.kept (slotsKept_retire _ _ _ _ _)).spec (fun slot _ => htold slot)
        (.close rfl ⟨hcur, hopen⟩ (.reject ts))
    · exact (SlotsKept.of_pool rfl).spec htold

theorem finishCancel_spec (htold : ∀ slot, s.told E op slot = []) (id : OrderIdRaw)
    (ts : Timestamp) {kind : EventKind} (hkind : kind ≠ .Fill) (pub : OrderEventKind)
    (unsolicited : Bool) :
    SlotSpec E s op (s.finishCancel E id ts kind pub unsolicited).om := by
  unfold State.finishCancel
  split
  · rename_i hok
    obtain ⟨hcur, hopen⟩ := (validate_ok_iff hkind).1 hok
    have hstep : SlotStep E s op (slotOf id) (s.told E op (slotOf id))
        (Order.cancelled ts (s.om.pool.slots (slotOf id))) := by
      rw [htold]
      exact .close rfl ⟨hcur, hopen⟩ (.cancelled ts)
    cases unsolicited
    · have hwritten : SlotWritten s.om (s.om.modifyOrder id (Order.cancelled ts)) id
          (Order.cancelled ts) := .of_pool rfl
      exact (hwritten.kept (slotsKept_retire _ _ _ _ _)).spec (fun slot _ => htold slot) hstep
    · have hwritten : SlotWritten s.om { s.om.modifyOrder id (Order.cancelled ts) with
          unsolicitedCancelCount := s.om.unsolicitedCancelCount + 1 } id (Order.cancelled ts) :=
        .of_pool rfl
      exact (hwritten.kept (slotsKept_retire _ _ _ _ _)).spec (fun slot _ => htold slot) hstep
  · exact (SlotsKept.of_pool rfl).spec htold

/-- A cancel marks a working order if it goes out, and does nothing otherwise. -/
theorem cancel_cases (s : State W) (id : OrderIdRaw) :
    (s.om.Live id ∧ s.cancelGoesOut E id = true) ∧
        (s.cancel E id).2.om = s.om.modifyOrder id Order.markCancelSent ∨
      ¬ (s.om.Live id ∧ s.cancelGoesOut E id = true) ∧ (s.cancel E id).2.om = s.om := by
  unfold State.cancel
  split_ifs with hcur
  · exact Or.inr ⟨fun h => by simp [h.1.current] at hcur, rfl⟩
  dsimp only
  split_ifs with hterm
  · refine Or.inr ⟨fun h => ?_, rfl⟩
    have hopen : isTerminal (s.om.orderRef id).status = false := h.1.isOpen
    rw [hopen] at hterm
    cases hterm
  have hlive : s.om.Live id := by
    refine ⟨by simpa using hcur, ?_⟩
    rw [Order.Open]
    simpa using hterm
  unfold State.cancelGoesOut
  cases hget : E.registry.get (decodeOrderId id).venue with
  | none => exact Or.inr ⟨fun h => Bool.noConfusion h.2, rfl⟩
  | some ex =>
    dsimp only
    split_ifs with hr
    · exact Or.inl ⟨⟨hlive, decide_eq_true hr⟩, rfl⟩
    · exact Or.inr ⟨fun h => hr (of_decide_eq_true h.2), rfl⟩

theorem cancel_spec (id : OrderIdRaw) : SlotSpec E s (.cancel id) (s.cancel E id).2.om := by
  have htold : ∀ slot, s.told E (.cancel id) slot = [] := fun _ => rfl
  rcases cancel_cases (E := E) s id with ⟨⟨hlive, hout⟩, heq⟩ | ⟨-, heq⟩
  · rw [heq]
    have hwritten : SlotWritten s.om (s.om.modifyOrder id Order.markCancelSent) id
        Order.markCancelSent := .of_pool rfl
    exact hwritten.spec (fun slot _ => htold slot) (.cancel rfl rfl hlive hout)
  · rw [heq]
    exact (SlotsKept.of_pool rfl).spec htold

end Steps

/-! ### Sweeps -/

section Sweeps

variable {W : Type} {E : Env W} {s : State W} {id : OrderIdRaw}

theorem cancelWorkingOrder_om (s : State W) (id : OrderIdRaw) :
    (s.cancelWorkingOrder E id).om =
      if s.sweeps E id then s.om.modifyOrder id Order.markCancelSent else s.om := by
  unfold State.cancelWorkingOrder State.sweeps State.venueConnected State.cancelGoesOut
  dsimp only
  cases hcur : s.om.pool.isCurrent id
  · rfl
  cases hterm : isTerminal (s.om.orderRef id).status
  · cases hpending : (s.om.orderRef id).pendingCancel
    · cases hget : E.registry.get (decodeOrderId id).venue with
      | none => simp
      | some ex =>
        cases hconn : ex.isConnected s.world
        · simp [hconn]
        · by_cases hr : (ex.cancelOrder id (s.om.orderRef id).exchangeId s.world).1 = .Ok
          · simp [hconn, hr]
          · simp [hconn, hr]
    · simp
  · simp

/-- A sweep over ids marks the orders for which it gets a cancel out. -/
theorem sweep_slots (ids : List OrderIdRaw) (s : State W) :
    (ids.foldl (State.cancelWorkingOrder E) s).om.pool.allocated = s.om.pool.allocated ∧
      ∀ slot, (ids.foldl (State.cancelWorkingOrder E) s).om.pool.slots slot =
        if slot ∈ (s.swept E ids).map slotOf then (s.om.pool.slots slot).markCancelSent
        else s.om.pool.slots slot := by
  induction ids generalizing s with
  | nil => simp [State.swept]
  | cons id ids ih =>
    obtain ⟨halloc, hslots⟩ := ih (s.cancelWorkingOrder E id)
    rw [List.foldl_cons, halloc, cancelWorkingOrder_om]
    by_cases hsweep : s.sweeps E id = true
    · rw [if_pos hsweep]
      refine ⟨rfl, fun slot => ?_⟩
      rw [hslots slot, cancelWorkingOrder_om, if_pos hsweep]
      simp only [State.swept, if_pos hsweep, List.map_append, List.mem_append, List.map_cons,
        List.map_nil, List.mem_singleton]
      by_cases hslot : slot = slotOf id
      · subst hslot
        have hown : (s.om.modifyOrder id Order.markCancelSent).pool.slots (slotOf id) =
            (s.om.pool.slots (slotOf id)).markCancelSent := OrderPool.modify_slots_self
        rw [hown, if_pos (Or.inl rfl)]
        -- a second cancel leaves the mark of the first
        exact ite_self _
      · have hother : (s.om.modifyOrder id Order.markCancelSent).pool.slots slot =
            s.om.pool.slots slot := OrderPool.modify_slots_of_ne hslot
        rw [hother]
        simp [hslot]
    · rw [if_neg hsweep]
      refine ⟨rfl, fun slot => ?_⟩
      rw [hslots slot, cancelWorkingOrder_om, if_neg hsweep, State.swept, if_neg hsweep,
        List.nil_append]

/-- A sweep gets cancels out for current ids only. -/
theorem swept_current {ids : List OrderIdRaw} (h : id ∈ s.swept E ids) :
    s.om.pool.isCurrent id = true := by
  induction ids generalizing s with
  | nil => cases h
  | cons k ids ih =>
    rcases List.mem_append.1 h with hhead | hrest
    · by_cases hsweep : s.sweeps E k = true
      · rw [if_pos hsweep, List.mem_singleton] at hhead
        subst hhead
        simp only [State.sweeps, Bool.and_eq_true] at hsweep
        exact hsweep.1.1.1.1
      · rw [if_neg hsweep] at hhead
        cases hhead
    · have hcur := ih hrest
      rw [cancelWorkingOrder_om] at hcur
      split_ifs at hcur
      · exact (OrderPool.isCurrent_modify _).symm.trans hcur
      · exact hcur

/-- The watchdog flags an overdue order and counts it, and leaves the others alone. -/
theorem checkAckTimeout_cases (now timeout : Timestamp) (s : State W) (id : OrderIdRaw) :
    ¬ s.om.Overdue now timeout id ∧ s.checkAckTimeout E now timeout id = s ∨
      s.om.Overdue now timeout id ∧ ∃ f, Order.Flagging f ∧
        (s.checkAckTimeout E now timeout id).om =
          { s.om.modifyOrder id f with ackTimeoutCount := s.om.ackTimeoutCount + 1 } := by
  unfold State.checkAckTimeout
  split_ifs with hcur
  · exact Or.inl ⟨fun h => by simp [h.current] at hcur, rfl⟩
  dsimp only
  split_ifs with hflag hsent hlate
  · exact Or.inl ⟨fun h => by simp [h.unflagged] at hflag, rfl⟩
  · exact Or.inl ⟨fun h => hsent h.sent, rfl⟩
  · exact Or.inl ⟨fun h => absurd h.late (not_le.2 hlate), rfl⟩
  refine Or.inr ⟨⟨by simpa using hcur, by simpa using hflag, not_not.1 hsent, not_lt.1 hlate⟩, ?_⟩
  have htwice : ∀ d : OrderManager, OrderManager.modifyOrder
      { s.om.modifyOrder id Order.markTimedOut with ackTimeoutCount := d.ackTimeoutCount } id
        Order.markCancelSent =
      { s.om.modifyOrder id (Order.markCancelSent ∘ Order.markTimedOut) with
        ackTimeoutCount := d.ackTimeoutCount } := by
    intro d
    simp [OrderManager.modifyOrder, OrderPool.modify]
  split
  · exact ⟨_, .mark, rfl⟩
  · split_ifs
    · exact ⟨_, .markAndCancel, htwice { s.om with ackTimeoutCount := s.om.ackTimeoutCount + 1 }⟩
    · exact ⟨_, .mark, rfl⟩
    · exact ⟨_, .mark, rfl⟩

/-- A scan keeps the slots. It flags and counts some of the overdue orders in them. -/
theorem scan_slots (now timeout : Timestamp) (ids : List OrderIdRaw) (s : State W) :
    let om' := (ids.foldl (State.checkAckTimeout E now timeout) s).om
    om'.pool.allocated = s.om.pool.allocated ∧ ∀ slot,
      timeoutsIn slot (s.overdue E now timeout ids) = [] ∧
          om'.pool.slots slot = s.om.pool.slots slot ∨
        timeoutsIn slot (s.overdue E now timeout ids) = [.timedOut] ∧
          (s.om.pool.slots slot).ackTimedOut = false ∧ (s.om.pool.slots slot).status = .Sent ∧
            ∃ f, Order.Flagging f ∧ om'.pool.slots slot = f (s.om.pool.slots slot) := by
  induction ids generalizing s with
  | nil => exact ⟨rfl, fun _ => Or.inl ⟨rfl, rfl⟩⟩
  | cons id ids ih =>
    obtain ⟨halloc, hslots⟩ := ih (s.checkAckTimeout E now timeout id)
    dsimp only at halloc hslots ⊢
    rw [List.foldl_cons]
    rcases checkAckTimeout_cases (E := E) now timeout s id with ⟨hnot, heq⟩ | ⟨hover, f, hf, heq⟩
    · rw [State.overdue, if_neg hnot, List.nil_append]
      rw [heq] at halloc hslots ⊢
      exact ⟨halloc, hslots⟩
    · rw [State.overdue, if_pos hover]
      rw [heq] at halloc hslots
      refine ⟨halloc, fun slot => ?_⟩
      by_cases hslot : slotOf id = slot
      · -- once flagged, an order is passed over
        subst hslot
        have hown : (s.om.modifyOrder id f).pool.slots (slotOf id) =
            f (s.om.pool.slots (slotOf id)) := OrderPool.modify_slots_self
        have hrest := hslots (slotOf id)
        rw [hown] at hrest
        rcases hrest with ⟨hnone, hsame⟩ | ⟨-, hunflagged, -⟩
        · refine Or.inr ⟨?_, hover.unflagged, hover.sent, f, hf, hsame⟩
          rw [timeoutsIn] at hnone ⊢
          simpa using hnone
        · rw [hf.flags] at hunflagged
          cases hunflagged
      · have hother : (s.om.modifyOrder id f).pool.slots slot = s.om.pool.slots slot :=
          OrderPool.modify_slots_of_ne (Ne.symm hslot)
        have hrest := hslots slot
        rw [hother] at hrest
        have hskip : ∀ rest, timeoutsIn slot ([id] ++ rest) = timeoutsIn slot rest := fun rest => by
          simp [timeoutsIn, hslot]
        rwa [hskip]

end Sweeps

/-! ### Submitting -/

section Submit

variable {W : Type} {E : Env W} {s : State W}

theorem place_spec (hwf : s.om.WF) (req : OrderRequest) (venue : VenueId)
    (ex : ExchangeClient W) (w : W) :
    SlotSpec E s (.submit req) (State.place E req venue ex ⟨s.om, w⟩).2.om := by
  have htold : ∀ slot, s.told E (.submit req) slot = [] := fun _ => rfl
  unfold State.place
  dsimp only
  split
  · exact (SlotsKept.of_pool rfl).spec htold
  · rename_i id om₁ hres
    split_ifs
    · intro slot halloc
      rcases booked_slots hwf hres (.of_pool rfl) slot halloc with
        ⟨-, hfree, heq⟩ | ⟨-, hbefore, heq⟩
      · rw [heq]
        exact Or.inr ⟨hfree, req, rfl, .sent id _⟩
      · rw [heq]
        exact Or.inl ⟨hbefore, .same⟩
    · intro slot halloc
      have hkept : SlotsKept (om₁.modifyOrder id Order.failSend)
          (OrderManager.retire { om₁.modifyOrder id Order.failSend with
            rejectCount := om₁.rejectCount + 1 } id req.instrument req.size req.side) :=
        slotsKept_retire { om₁.modifyOrder id Order.failSend with
          rejectCount := om₁.rejectCount + 1 } id req.instrument req.size req.side
      rcases booked_slots hwf hres hkept slot halloc with ⟨-, hfree, heq⟩ | ⟨-, hbefore, heq⟩
      · refine Or.inr ⟨hfree, req, rfl, ?_⟩
        refine Eq.mpr (congrArg _ heq) ?_
        exact .failed id _
      · refine Or.inl ⟨hbefore, ?_⟩
        refine Eq.mpr (congrArg _ heq) ?_
        exact .same

/-- A submit that finds all venues down sweeps the working orders. -/
theorem submit_of_allDown {req : OrderRequest} {w : W} (hkilled : ¬ s.om.killed = true)
    (hselect : E.router.select req.instrument req.side req.size s.world = (none, w)) :
    s.submit E req = (0, (s.allDown E req w).cancelWorkingOrders E) := by
  unfold State.submit
  rw [if_neg hkilled, hselect]
  rfl

/-- It marks the orders for which its sweep gets a cancel out. -/
theorem submit_allDown {req : OrderRequest} {w : W} (hkilled : ¬ s.om.killed = true)
    (hselect : E.router.select req.instrument req.side req.size s.world = (none, w)) :
    (s.submit E req).2.om.pool.allocated = s.om.pool.allocated ∧
      ∀ slot, (s.submit E req).2.om.pool.slots slot =
        if slot ∈ (s.sweptBy E req).map slotOf then (s.om.pool.slots slot).markCancelSent
        else s.om.pool.slots slot := by
  have hswept : s.sweptBy E req =
      (s.allDown E req w).swept E (E.liveOrder (s.allDown E req w).world s.om.live) := by
    unfold State.sweptBy
    rw [if_neg hkilled, hselect]
    rfl
  rw [submit_of_allDown hkilled hselect, hswept]
  exact sweep_slots _ _

/-- Without all venues down, nothing is swept. -/
theorem mem_sweptBy {req : OrderRequest} {id : OrderIdRaw} (h : id ∈ s.sweptBy E req) :
    ¬ s.om.killed = true ∧ s.om.pool.isCurrent id = true ∧
      ∃ w, E.router.select req.instrument req.side req.size s.world = (none, w) := by
  unfold State.sweptBy at h
  split_ifs at h with hkilled
  · cases h
  split at h
  · cases h
  · rename_i w hselect
    exact ⟨hkilled, swept_current (s := s.allDown E req w) h, w, hselect⟩

theorem submit_spec (hwf : s.om.WF) (req : OrderRequest) :
    SlotSpec E s (.submit req) (s.submit E req).2.om := by
  have htold : ∀ slot, s.told E (.submit req) slot = [] := fun _ => rfl
  fun_cases State.submit E req s with
  | case1 hkilled => exact (SlotsKept.of_pool rfl).spec htold
  | case2 hon w hselect =>
    intro slot halloc
    obtain ⟨hbefore, hslots⟩ := submit_allDown hon hselect
    rw [submit_of_allDown hon hselect] at hbefore hslots
    refine Or.inl ⟨(congrFun hbefore slot).symm.trans halloc, ?_⟩
    refine Eq.mpr (congrArg _ (hslots slot)) ?_
    split_ifs with hmem
    · obtain ⟨id, hid, rfl⟩ := List.mem_map.1 hmem
      exact .sweep rfl rfl hid
    · exact .same
  | case3 hon venue w hselect s' hget => exact (SlotsKept.of_pool rfl).spec htold
  | case4 hon venue w hselect s' ex hget hfull =>
    refine SlotsKept.spec ?_ htold
    rw [tripKillSwitch_om]
    unfold OrderManager.tripKillSwitch
    split_ifs <;> exact .of_pool rfl
  | case5 hon venue w hselect s' ex hget hfree => exact place_spec hwf req venue ex w

end Submit

/-! ### The rule -/

section Rule

variable {W : Type} {E : Env W} {s : State W}

/-- **Everything an operation can do to the order in a slot.** -/
theorem step_slot (hwf : s.om.WF) (op : Op) : SlotSpec E s op (s.step E op).om := by
  have hkept : ∀ {om'}, om'.pool = s.om.pool → (∀ slot, s.told E op slot = []) →
      SlotSpec E s op om' := fun hpool htold => (SlotsKept.of_pool hpool).spec htold
  cases op with
  | submit req => exact submit_spec hwf req
  | cancel id => exact cancel_spec id
  | confirm id exchId ts => exact onConfirm_spec id exchId ts
  | fill id qty price trade ts => exact onFill_spec id qty price trade ts
  | reject id reason ts => exact onReject_spec id reason ts
  | cancelAck id ts => exact finishCancel_spec (fun _ => rfl) id ts (by decide) .Cancelled false
  | unsolicitedCancel id ts =>
    exact finishCancel_spec (fun _ => rfl) id ts (by decide) .UnsolicitedCancel true
  | checkAckTimeouts now timeout =>
    intro slot halloc
    obtain ⟨hbefore, hslots⟩ :=
      scan_slots (E := E) now timeout (E.liveOrder s.world s.om.live) s
    refine Or.inl ⟨(congrFun hbefore slot).symm.trans halloc, ?_⟩
    rcases hslots slot with ⟨htold, heq⟩ | ⟨htold, hunflagged, -, f, hf, heq⟩
    · exact Eq.mpr (congr (congrArg _ htold) heq) .same
    · exact Eq.mpr (congr (congrArg _ htold) heq) (.timeOut hf hunflagged)
  | venueDisconnect venue => exact hkept rfl fun _ => rfl
  | venueReconnect venue => exact hkept rfl fun _ => rfl
  | setUnknownFillHardstopThreshold n => exact hkept rfl fun _ => rfl
  | resetRebalanceCycle => exact hkept rfl fun _ => rfl
  | clearReconcileRequest => exact hkept rfl fun _ => rfl

/-- Whether an order is a corrective one is fixed. -/
theorem SlotStep.reconciliation {op : Op} {slot : ℕ} {news : List News} {o : Order}
    (h : SlotStep E s op slot news o) :
    o.reconciliation = (s.om.pool.slots slot).reconciliation := by
  cases h with
  | close hslot hlive hf => cases hf <;> rfl
  | timeOut hf => cases hf <;> rfl
  | _ => rfl

theorem step_reconciliation (hwf : s.om.WF) {op : Op} {id : OrderIdRaw}
    (h : s.om.pool.allocated (slotOf id) = true)
    (h' : (s.step E op).om.pool.allocated (slotOf id) = true) :
    ((s.step E op).om.orderRef id).reconciliation = (s.om.orderRef id).reconciliation := by
  rcases step_slot hwf op (slotOf id) h' with ⟨-, hstep⟩ | ⟨hfree, -⟩
  · exact hstep.reconciliation
  · rw [hfree] at h
    cases h

/-- Every stored order is in a relation to its story. -/
def Told {A : Type} (P : List A → Order → Prop) (c : Chronicle W A) : Prop :=
  ∀ slot, c.state.om.pool.allocated slot = true → P (c.story slot) (c.state.om.pool.slots slot)

theorem told_blank {A : Type} {P : List A → Order → Prop} (capacity : PoolCapacity) (w : W) :
    Told P (Chronicle.blank capacity w : Chronicle W A) := fun _ halloc => Bool.noConfusion halloc

/-- What every step of an order keeps, with what it tells of the order, every operation keeps of
every order. -/
theorem told_step {P : List News → Order → Prop} {c : Chronicle W News} {op : Op}
    (hwf : c.state.om.WF) (h : Told P c)
    (hnew : ∀ req o, op = .submit req → SlotNew req o → P [] o)
    (hstep : ∀ slot news o, c.state.om.pool.allocated slot = true →
      P (c.story slot) (c.state.om.pool.slots slot) → SlotStep E c.state op slot news o →
        P (c.story slot ++ news) o) :
    Told P ((chronicle E (State.told E)).step c op) := by
  intro slot halloc
  show P (if c.state.om.pool.allocated slot then c.story slot ++ c.state.told E op slot else []) _
  rcases step_slot hwf op slot halloc with ⟨hbefore, hslot⟩ | ⟨hfree, req, hop, hslot⟩
  · rw [if_pos hbefore]
    exact hstep slot _ _ hbefore (h slot hbefore) hslot
  · rw [hfree]
    exact hnew req _ hop hslot

end Rule

end Oms
