import Oms.ExecutionAlgo.Listening
import Oms.OrderManager.Marks

/-!
# The children of an algo, as the manager has them

The tag on an order says which algo it belongs to. `ChildBook` is what the manager knows of the
orders with a tag; every operation of the manager either leaves it alone or tells the algo.

* `OrderManager.childBook`: the book; `ChildBook.set`: it changes at one id;
* `childBook_idle`, `childBook_fills`, `childBook_closes`, `childBook_opens`: what the handlers do;
* `Heard`: a change of the book, and what the algo hears of it;
* `step_heard`: every operation that submits no child is heard; `HeardFill`, `step_heardFill`: the
  same, for operations that end no child.
-/

namespace Oms

open OrderManager

/-- The tag of an order, and what remains of it. -/
def tagged (offset : ScratchOffset) : Observation (ℤ × Quantity) where
  see := fun o _ => (o.retrieveIntData offset, o.remaining)
  keeps := fun _ h => by
    rw [Order.retrieveIntData, Order.retrieveIntData, h.intData, h.remaining]

/-- What remains of each working child, and what all children together filled. -/
@[ext]
structure ChildBook where
  working : OrderIdRaw → Option Quantity
  executed : Quantity

/-- Write what remains of a child, and add what it filled. -/
def ChildBook.set (c : ChildBook) (id : OrderIdRaw) (rest : Option Quantity) (qty : Quantity) :
    ChildBook where
  working := Function.update c.working id rest
  executed := c.executed + qty

theorem ChildBook.working_set (c : ChildBook) (id : OrderIdRaw) (rest : Option Quantity)
    (qty : Quantity) (k : OrderIdRaw) :
    (c.set id rest qty).working k = if k = id then rest else c.working k :=
  Function.update_apply ..

theorem ChildBook.set_none {c : ChildBook} {id : OrderIdRaw} (h : c.working id = none) :
    c.set id none 0 = c := by
  ext1
  · exact Function.update_eq_self_iff.2 h.symm
  · exact add_zero _

/-- The remaining quantity, if the tag is that of the algo. -/
def ownRest (index : ℤ) (t : ℤ × Quantity) : Option Quantity :=
  if t.1 = index then some t.2 else none

/-- What the manager knows of the orders with a tag. -/
def OrderManager.childBook (om : OrderManager) (offset : ScratchOffset) (index : ℤ) :
    ChildBook where
  working := fun id => (om.view (tagged offset) id).bind (ownRest index)
  executed := om.executed offset index

section Effects

variable {om om' : OrderManager} {id : OrderIdRaw} {offset : ScratchOffset} {index : ℤ}

theorem childBook_idle (h : Idle om om') :
    om'.childBook offset index = om.childBook offset index := by
  rw [childBook, h.view, h.executed, childBook]

/-- A change of the view at one id. -/
theorem childBook_update {t : Option (ℤ × Quantity)} {qty : Quantity}
    (hview : om'.view (tagged offset) = Function.update (om.view (tagged offset)) id t)
    (hexecuted : om'.executed offset index = om.executed offset index + qty) :
    om'.childBook offset index =
      (om.childBook offset index).set id (t.bind (ownRest index)) qty := by
  ext1
  · funext k
    unfold childBook ChildBook.set
    dsimp only
    rw [hview]
    by_cases hk : k = id
    · rw [hk, Function.update_self, Function.update_self]
    · rw [Function.update_of_ne hk, Function.update_of_ne hk]
  · exact hexecuted

theorem childBook_closes (h : Closes om om' id) :
    om'.childBook offset index = (om.childBook offset index).set id none 0 :=
  childBook_update (h.view _) ((h.executed offset index).trans (add_zero _).symm)

/-- What the book holds for a working order. -/
theorem working_of_live (h : Stamped om) (hlive : om.Live id) :
    (om.childBook offset index).working (om.orderRef id).internalId =
      ownRest index ((om.orderRef id).retrieveIntData offset, (om.orderRef id).remaining) := by
  show (om.view (tagged offset) _).bind _ = _
  rw [view_of_works _ (h.works hlive), h.orderRef_internalId hlive]
  rfl

/-- An order of another component, where it works, is not in the book. -/
theorem working_of_foreign (h : Stamped om) (hlive : om.Live id)
    (hown : (om.orderRef id).retrieveIntData offset ≠ index) :
    (om.childBook offset index).working (om.orderRef id).internalId = none := by
  rw [working_of_live h hlive]
  exact if_neg hown

theorem working_of_own (h : Stamped om) (hlive : om.Live id)
    (hown : (om.orderRef id).retrieveIntData offset = index) :
    (om.childBook offset index).working (om.orderRef id).internalId =
      some (om.orderRef id).remaining := by
  rw [working_of_live h hlive]
  exact if_pos hown

/-- The end of an order of another component is not in the book. -/
theorem childBook_closes_foreign (h : Stamped om) (hlive : om.Live id)
    (hcloses : Closes om om' (om.orderRef id).internalId)
    (hown : (om.orderRef id).retrieveIntData offset ≠ index) :
    om'.childBook offset index = om.childBook offset index := by
  rw [childBook_closes hcloses]
  exact ChildBook.set_none (working_of_foreign h hlive hown)

section Fills

variable {qty : Quantity} {price : Price} {trade : TradeId} {ts : Timestamp}
variable (hfills : Fills om om' id qty price trade ts)
include hfills

theorem childBook_fills (hown : (om.orderRef id).retrieveIntData offset = index) :
    om'.childBook offset index =
      (om.childBook offset index).set (om.orderRef id).internalId
        (if qty = (om.orderRef id).remaining then none
          else some ((om.orderRef id).remaining - qty)) qty := by
  rw [childBook_update (hfills.view (tagged offset))
    (by rw [hfills.executed, if_pos hown])]
  congr 1
  split_ifs
  · rfl
  · rw [Option.bind_some, tagged, ← Order.addFill_remaining qty price ts]
    exact if_pos hown

/-- A fill of an order of another component. -/
theorem childBook_fills_foreign (h : Stamped om) (hlive : om.Live id)
    (hown : (om.orderRef id).retrieveIntData offset ≠ index) :
    om'.childBook offset index = om.childBook offset index := by
  rw [childBook_update (hfills.view (tagged offset))
    (by rw [hfills.executed, if_neg hown])]
  refine Eq.trans ?_ (ChildBook.set_none (working_of_foreign h hlive hown))
  congr 1
  split_ifs
  · rfl
  · exact if_neg hown

end Fills

theorem childBook_opens {o : Order} (h : Opens om om' id o)
    (hown : o.retrieveIntData offset = index) :
    om'.childBook offset index = (om.childBook offset index).set id (some o.remaining) 0 := by
  rw [childBook_update (h.view (tagged offset))
    ((h.executed offset index).trans (add_zero _).symm)]
  congr 1
  exact if_pos hown

/-- An order of another component is opened. -/
theorem childBook_opens_foreign {o : Order} (h : Opens om om' id o) (hfresh : ¬ om.Works id)
    (hown : o.retrieveIntData offset ≠ index) :
    om'.childBook offset index = om.childBook offset index := by
  have hnone : (om.childBook offset index).working id = none := by
    show (om.view (tagged offset) id).bind _ = none
    rw [view_of_not_works _ hfresh]
    rfl
  rw [childBook_update (h.view (tagged offset))
    ((h.executed offset index).trans (add_zero _).symm)]
  refine Eq.trans ?_ (ChildBook.set_none hnone)
  congr 1
  exact if_neg hown

end Effects

/-! ### What an algo hears -/

section Heard

variable {A : Type → Type} [ExecutionAlgo A] {B : Type}

/-- The book and an algo, before and after an operation that submits no child. -/
inductive Heard (c : ChildBook) (a : A B) : ChildBook → A B → Prop
  | nothing : Heard c a c a
  /-- a fill of `qty`, after which the order is `o` -/
  | fill {o : Order} {qty : Quantity} {price : Price} (hqty : 0 < qty) (hrem : 0 ≤ o.remaining)
      (hchild : c.working o.internalId = some (o.remaining + qty))
      (hstatus : o.status = .Filled ↔ o.remaining = 0) :
      Heard c a (c.set o.internalId (if o.remaining = 0 then none else some o.remaining) qty)
        (ExecutionAlgo.onFill o qty price a)
  | reject {o : Order} {reason : RejectReason} :
      Heard c a (c.set o.internalId none 0) (ExecutionAlgo.onReject o reason a)
  | cancel {o : Order} : Heard c a (c.set o.internalId none 0) (ExecutionAlgo.onCancel o a)

/-- The same, for an operation that ends no child. -/
inductive HeardFill (c : ChildBook) (a : A B) : ChildBook → A B → Prop
  | nothing : HeardFill c a c a
  | fill {o : Order} {qty : Quantity} {price : Price} (hqty : 0 < qty) (hrem : 0 ≤ o.remaining)
      (hchild : c.working o.internalId = some (o.remaining + qty))
      (hstatus : o.status = .Filled ↔ o.remaining = 0) :
      HeardFill c a (c.set o.internalId (if o.remaining = 0 then none else some o.remaining) qty)
        (ExecutionAlgo.onFill o qty price a)

theorem HeardFill.heard {c c' : ChildBook} {a a' : A B} (h : HeardFill c a c' a') :
    Heard c a c' a' := by
  cases h with
  | nothing => exact .nothing
  | fill hqty hrem hchild hstatus => exact .fill hqty hrem hchild hstatus

variable {E : Env B} {offset : ScratchOffset} {index : ℤ} {s : State (B × A B)} {id : OrderIdRaw}
  {ts : Timestamp}

theorem onOrderEvent_of_current {e : OrderEvent} {om : OrderManager} (a : A B)
    (hcur : om.pool.isCurrent e.internalId = true) :
    AlgoDispatcher.onOrderEvent offset index e om a =
      AlgoDispatcher.notify offset index (om.orderRef e.internalId) e a := by
  unfold AlgoDispatcher.onOrderEvent
  rw [OrderManager.find, if_pos hcur]

section Notify

variable {o : Order} {e : OrderEvent} (a : A B)

theorem notify_fill (hkind : e.kind = .Fill ∨ e.kind = .PartialFill) :
    AlgoDispatcher.notify offset index o e a =
      if o.retrieveIntData offset = index then ExecutionAlgo.onFill o e.lastQty e.lastPrice a
      else a := by
  unfold AlgoDispatcher.notify
  rw [ite_not]
  rcases hkind with hkind | hkind <;> rw [hkind]

theorem notify_reject (hkind : e.kind = .Rejected) :
    AlgoDispatcher.notify offset index o e a =
      if o.retrieveIntData offset = index then ExecutionAlgo.onReject o e.reason a else a := by
  unfold AlgoDispatcher.notify
  rw [ite_not, hkind]

theorem notify_cancel (hkind : e.kind = .Cancelled ∨ e.kind = .UnsolicitedCancel) :
    AlgoDispatcher.notify offset index o e a =
      if o.retrieveIntData offset = index then ExecutionAlgo.onCancel o a else a := by
  unfold AlgoDispatcher.notify
  rw [ite_not]
  rcases hkind with hkind | hkind <;> rw [hkind]

theorem notify_confirm (hkind : e.kind = .Confirmed) :
    AlgoDispatcher.notify offset index o e a = a := by
  unfold AlgoDispatcher.notify
  rw [hkind]
  exact ite_self _

end Notify

/-! ### Inbound events -/

/-- An accepted fill is announced after the accounting. -/
theorem heardOf_fill {om : OrderManager} {qty : Quantity} {price : Price} {trade : TradeId}
    (hok : om.validate id ⟨.Fill, trade, qty, price⟩ = .Ok) (a : A B) :
    heardOf (AlgoDispatcher.onOrderEvent offset index) a
        (announced om (.fill id qty price trade ts)) =
      if (om.orderRef id).retrieveIntData offset = index then
        ExecutionAlgo.onFill ((om.orderRef id).addFill qty price ts) qty price a
      else a := by
  have hcur := (validate_fill_ok_iff.1 hok).1
  have href : (om.applyFill id qty price trade ts).orderRef id =
      (om.orderRef id).addFill qty price ts := orderRef_modifyOrder _ _ _
  rw [announced, if_pos hok]
  show AlgoDispatcher.onOrderEvent offset index _ (om.applyFill id qty price trade ts) a = _
  rw [onOrderEvent_of_current, notify_fill]
  · show (if ((om.applyFill id qty price trade ts).orderRef id).retrieveIntData offset = index then
        ExecutionAlgo.onFill ((om.applyFill id qty price trade ts).orderRef id) qty price a
      else a) = _
    rw [href]
    rfl
  · dsimp only [OrderManager.announce]
    split_ifs
    · exact Or.inl rfl
    · exact Or.inr rfl
  · exact hcur

theorem onFill_algo {qty : Quantity} {price : Price} {trade : TradeId}
    (hok : s.om.validate id ⟨.Fill, trade, qty, price⟩ = .Ok) :
    (s.onFill (E.withAlgo offset index) id qty price trade ts).world.2 =
      if (s.om.orderRef id).retrieveIntData offset = index then
        ExecutionAlgo.onFill ((s.om.orderRef id).addFill qty price ts) qty price s.world.2
      else s.world.2 :=
  (onFill_listening qty price trade).trans (heardOf_fill hok _)

theorem onReject_algo {reason : RejectReason} (hreason : reason ≠ .CancelRejected)
    (hlive : s.om.Live id) :
    (s.onReject (E.withAlgo offset index) id reason ts).world.2 =
      if (s.om.orderRef id).retrieveIntData offset = index then
        ExecutionAlgo.onReject ((s.om.orderRef id).reject ts) reason s.world.2
      else s.world.2 := by
  have hok : s.om.validate id { kind := .Reject } = .Ok :=
    (validate_ok_iff (by decide)).2 ⟨hlive.current, hlive.isOpen⟩
  have href : (s.om.modifyOrder id (Order.reject ts)).orderRef id =
      (s.om.orderRef id).reject ts := orderRef_modifyOrder _ _ _
  unfold State.onReject
  rw [if_neg hreason, hok]
  show AlgoDispatcher.onOrderEvent offset index _ { s.om.modifyOrder id (Order.reject ts) with
    rejectCount := s.om.rejectCount + 1 } s.world.2 = _
  rw [onOrderEvent_of_current, notify_reject]
  · show (if ((s.om.modifyOrder id (Order.reject ts)).orderRef id).retrieveIntData offset = index
      then ExecutionAlgo.onReject ((s.om.modifyOrder id (Order.reject ts)).orderRef id) reason
        s.world.2
      else s.world.2) = _
    rw [href]
    rfl
  · rfl
  · exact hlive.current

theorem finishCancel_algo {kind : EventKind} (hkind : kind ≠ .Fill) {pub : OrderEventKind}
    (hpub : pub = .Cancelled ∨ pub = .UnsolicitedCancel) (unsolicited : Bool)
    (hlive : s.om.Live id) :
    (s.finishCancel (E.withAlgo offset index) id ts kind pub unsolicited).world.2 =
      if (s.om.orderRef id).retrieveIntData offset = index then
        ExecutionAlgo.onCancel ((s.om.orderRef id).cancelled ts) s.world.2
      else s.world.2 := by
  have hok : s.om.validate id { kind := kind } = .Ok :=
    (validate_ok_iff hkind).2 ⟨hlive.current, hlive.isOpen⟩
  have href : (s.om.modifyOrder id (Order.cancelled ts)).orderRef id =
      (s.om.orderRef id).cancelled ts := orderRef_modifyOrder _ _ _
  unfold State.finishCancel
  rw [hok]
  cases unsolicited
  all_goals
    refine (onOrderEvent_of_current _ ?_).trans ((notify_cancel _ ?_).trans ?_)
    · exact hlive.current
    · exact hpub
    · show (if ((s.om.modifyOrder id (Order.cancelled ts)).orderRef id).retrieveIntData offset =
          index
        then ExecutionAlgo.onCancel ((s.om.modifyOrder id (Order.cancelled ts)).orderRef id)
          s.world.2
        else s.world.2) = _
      rw [href]
      rfl

/-- A reject of an order that is not open is not dispatched. -/
theorem onReject_dropped_algo {reason : RejectReason} (hreason : reason ≠ .CancelRejected)
    (hlive : ¬ s.om.Live id) :
    (s.onReject (E.withAlgo offset index) id reason ts).world.2 = s.world.2 := by
  have hok : s.om.validate id { kind := .Reject } ≠ .Ok := fun hok => by
    obtain ⟨hcur, hopen⟩ := (validate_ok_iff (by decide)).1 hok
    exact hlive ⟨hcur, hopen⟩
  rw [onReject_drop hreason rfl hok]
  rfl

/-- A cancel of an order that is not open is not dispatched. -/
theorem finishCancel_dropped_algo {kind : EventKind} (hkind : kind ≠ .Fill) {pub : OrderEventKind}
    {unsolicited : Bool} (hlive : ¬ s.om.Live id) :
    (s.finishCancel (E.withAlgo offset index) id ts kind pub unsolicited).world.2 =
      s.world.2 := by
  have hok : s.om.validate id { kind := kind } ≠ .Ok := fun hok => by
    obtain ⟨hcur, hopen⟩ := (validate_ok_iff hkind).1 hok
    exact hlive ⟨hcur, hopen⟩
  rw [finishCancel_drop rfl hok]
  rfl

/-- A fill that is refused is not dispatched. -/
theorem onFill_refused_algo {qty : Quantity} {price : Price} {trade : TradeId}
    (hok : s.om.validate id ⟨.Fill, trade, qty, price⟩ ≠ .Ok) :
    (s.onFill (E.withAlgo offset index) id qty price trade ts).world.2 = s.world.2 := by
  refine (onFill_listening (f := AlgoDispatcher.onOrderEvent offset index) qty price trade).trans ?_
  rw [announced, if_neg hok]
  rfl

/-- A confirmation is dispatched, and ignored. -/
theorem onConfirm_algo (exchId : ExchangeOrderId) :
    (s.onConfirm (E.withAlgo offset index) id exchId ts).world.2 = s.world.2 := by
  by_cases hok : s.om.validate id { kind := .Confirm } = .Ok
  · have hcur := ((validate_ok_iff (by decide)).1 hok).1
    unfold State.onConfirm
    rw [hok]
    refine (onOrderEvent_of_current _ ?_).trans (notify_confirm _ rfl)
    exact hcur
  · rw [onConfirm_drop rfl hok]
    rfl

theorem onCancelReject_algo :
    (s.onCancelReject (E.withAlgo offset index) id ts).world.2 = s.world.2 :=
  onReject_listening (f := AlgoDispatcher.onOrderEvent offset index) .CancelRejected

theorem heardFill_nothing {c c' : ChildBook} {a a' : A B} (hc : c' = c) (ha : a' = a) :
    HeardFill c a c' a' := by
  subst hc ha
  exact .nothing

theorem heard_nothing {c c' : ChildBook} {a a' : A B} (hc : c' = c) (ha : a' = a) :
    Heard c a c' a' := (heardFill_nothing hc ha).heard

/-- A child that is closed is heard of, and the order of somebody else is not. -/
theorem heard_closes {om om' : OrderManager} {a a' b : A B} (hreg : om.Regular)
    (hlive : om.Live id) (hcloses : Closes om om' (om.orderRef id).internalId)
    (halgo : a' = if (om.orderRef id).retrieveIntData offset = index then b else a)
    (hheard : Heard (om.childBook offset index) a
      ((om.childBook offset index).set (om.orderRef id).internalId none 0) b) :
    Heard (om.childBook offset index) a (om'.childBook offset index) a' := by
  by_cases hown : (om.orderRef id).retrieveIntData offset = index
  · rw [if_pos hown] at halgo
    rw [halgo, childBook_closes hcloses]
    exact hheard
  · rw [if_neg hown] at halgo
    exact heard_nothing (childBook_closes_foreign hreg.stamped hlive hcloses hown) halgo

/-- The algo hears of every fill of a child. -/
theorem onFill_heard (hreg : s.om.Regular) (qty : Quantity) (price : Price) (trade : TradeId) :
    HeardFill (s.om.childBook offset index) s.world.2
      ((s.onFill (E.withAlgo offset index) id qty price trade ts).om.childBook offset index)
      (s.onFill (E.withAlgo offset index) id qty price trade ts).world.2 := by
  rcases onFill_cases (E := E.withAlgo offset index) hreg.wf hreg.stamped id qty price trade ts
    with ⟨hok, hfills⟩ | ⟨hok, hidle⟩
  · obtain ⟨hcur, hopen, -, hqty, -, hle⟩ := validate_fill_ok_iff.1 hok
    have hlive : s.om.Live id := ⟨hcur, hopen⟩
    have halgo : (s.onFill (E.withAlgo offset index) id qty price trade ts).world.2 = _ :=
      onFill_algo hok
    by_cases hown : (s.om.orderRef id).retrieveIntData offset = index
    · rw [if_pos hown] at halgo
      have hrem := Order.addFill_remaining qty price ts (s.om.orderRef id)
      have hbook := childBook_fills hfills hown
      have hzero : ((s.om.orderRef id).addFill qty price ts).remaining = 0 ↔
          qty = (s.om.orderRef id).remaining := by
        rw [hrem, sub_eq_zero, eq_comm]
      rw [halgo, hbook, ← hrem, ← if_congr hzero rfl rfl]
      refine HeardFill.fill (A := A) hqty (by rw [hrem]; exact sub_nonneg.2 hle) ?_ ?_
      · rw [hrem, sub_add_cancel]
        exact working_of_own hreg.stamped hlive hown
      · show (if _ = _ then OrderStatus.Filled else OrderStatus.PartiallyFilled) = _ ↔ _
        rw [Order.remaining, sub_eq_zero, eq_comm (a := Order.size _)]
        split_ifs with hfull
        · exact iff_of_true rfl hfull
        · exact iff_of_false (by decide) hfull
    · rw [if_neg hown] at halgo
      exact heardFill_nothing (childBook_fills_foreign hfills hreg.stamped hlive hown) halgo
  · exact heardFill_nothing (childBook_idle hidle) (onFill_refused_algo hok)

/-- The algo hears of every child that the venue rejects. -/
theorem onReject_heard (hreg : s.om.Regular) (reason : RejectReason) :
    Heard (s.om.childBook offset index) s.world.2
      ((s.onReject (E.withAlgo offset index) id reason ts).om.childBook offset index)
      (s.onReject (E.withAlgo offset index) id reason ts).world.2 := by
  by_cases hreason : reason = .CancelRejected
  · subst hreason
    refine heard_nothing (childBook_idle (onCancelReject_idle hreg.wf hreg.stamped)) ?_
    exact onCancelReject_algo
  rcases onReject_cases (E := E.withAlgo offset index) hreg.wf hreg.stamped id hreason ts
    with ⟨hlive, hcloses⟩ | ⟨hlive, hidle⟩
  · exact heard_closes hreg hlive hcloses (onReject_algo hreason hlive)
      (Heard.reject (A := A) (o := (s.om.orderRef id).reject ts))
  · exact heard_nothing (childBook_idle hidle) (onReject_dropped_algo hreason hlive)

/-- The reject of an order that is no child changes nothing for the algo. -/
theorem onReject_other (hreg : s.om.Regular) {reason : RejectReason}
    (hreason : reason ≠ .CancelRejected)
    (hother : s.om.Live id → (s.om.orderRef id).retrieveIntData offset ≠ index) :
    (s.onReject (E.withAlgo offset index) id reason ts).om.childBook offset index =
        s.om.childBook offset index ∧
      (s.onReject (E.withAlgo offset index) id reason ts).world.2 = s.world.2 := by
  rcases onReject_cases (E := E.withAlgo offset index) hreg.wf hreg.stamped id hreason ts
    with ⟨hlive, hcloses⟩ | ⟨hlive, hidle⟩
  · exact ⟨childBook_closes_foreign hreg.stamped hlive hcloses (hother hlive),
      (onReject_algo hreason hlive).trans (if_neg (hother hlive))⟩
  · exact ⟨childBook_idle hidle, onReject_dropped_algo hreason hlive⟩

/-- The algo hears of every child that is cancelled. -/
theorem finishCancel_heard (hreg : s.om.Regular) {kind : EventKind} (hkind : kind ≠ .Fill)
    {pub : OrderEventKind} (hpub : pub = .Cancelled ∨ pub = .UnsolicitedCancel)
    (unsolicited : Bool) :
    Heard (s.om.childBook offset index) s.world.2
      ((s.finishCancel (E.withAlgo offset index) id ts kind pub unsolicited).om.childBook offset
        index)
      (s.finishCancel (E.withAlgo offset index) id ts kind pub unsolicited).world.2 := by
  rcases finishCancel_cases (E := E.withAlgo offset index) hreg.wf hreg.stamped id hkind pub
    unsolicited ts with ⟨hlive, hcloses⟩ | ⟨hlive, hidle⟩
  · exact heard_closes hreg hlive hcloses (finishCancel_algo hkind hpub unsolicited hlive)
      (Heard.cancel (A := A) (o := (s.om.orderRef id).cancelled ts))
  · exact heard_nothing (childBook_idle hidle) (finishCancel_dropped_algo hkind hlive)

/-- The cancel of an order that is no child changes nothing for the algo. -/
theorem finishCancel_other (hreg : s.om.Regular) {kind : EventKind} (hkind : kind ≠ .Fill)
    {pub : OrderEventKind} (hpub : pub = .Cancelled ∨ pub = .UnsolicitedCancel)
    (unsolicited : Bool)
    (hother : s.om.Live id → (s.om.orderRef id).retrieveIntData offset ≠ index) :
    (s.finishCancel (E.withAlgo offset index) id ts kind pub unsolicited).om.childBook offset
        index = s.om.childBook offset index ∧
      (s.finishCancel (E.withAlgo offset index) id ts kind pub unsolicited).world.2 =
        s.world.2 := by
  rcases finishCancel_cases (E := E.withAlgo offset index) hreg.wf hreg.stamped id hkind pub
    unsolicited ts with ⟨hlive, hcloses⟩ | ⟨hlive, hidle⟩
  · exact ⟨childBook_closes_foreign hreg.stamped hlive hcloses (hother hlive),
      (finishCancel_algo hkind hpub unsolicited hlive).trans (if_neg (hother hlive))⟩
  · exact ⟨childBook_idle hidle, finishCancel_dropped_algo hkind hlive⟩

/-! ### Operations of other components -/

/-- An operation that is no inbound event publishes nothing. -/
theorem step_other_algo {op : Op} (hop : op.inboundId = none) :
    (s.step (E.withAlgo offset index) op).world.2 = s.world.2 := step_other_listening hop

/-- An order of another component is submitted. -/
theorem submit_foreign {W : Type} {E : Env W} {s : State W} (hreg : s.om.Regular)
    {req : OrderRequest}
    (hforeign : ∀ id now, (req.stamp id now {}).retrieveIntData offset ≠ index) :
    (s.submit E req).2.om.childBook offset index = s.om.childBook offset index := by
  rcases submit_cases (Env.canceller_true E) s req with ⟨-, -, hchain⟩ | ⟨venue, ex, w, hplacing⟩
  · exact childBook_idle ((hchain still).idle hreg.wf hreg.stamped)
  · rw [hplacing.place]
    obtain ⟨id, pool, hacq, -, hcases⟩ := place_cases (s := { s with world := w }) (E := E)
      hreg.wf hreg.stamped req venue ex hplacing.free
    rcases hcases with ⟨-, -, hopens, -⟩ | ⟨-, -, hidle, -⟩
    · exact childBook_opens_foreign hopens (not_works_of_acquire hreg.wf hacq rfl) (hforeign _ _)
    · exact childBook_idle hidle

/-- An operation that is no inbound event changes nothing for the algo. -/
theorem step_other (hreg : s.om.Regular) {op : Op} (hop : op.inboundId = none)
    (hforeign : (AlgoOp.oms op).Foreign offset index) :
    (s.step (E.withAlgo offset index) op).om.childBook offset index =
        s.om.childBook offset index ∧
      (s.step (E.withAlgo offset index) op).world.2 = s.world.2 := by
  refine ⟨?_, step_other_algo hop⟩
  by_cases hsubmit : ∃ req, op = .submit req
  · obtain ⟨req, rfl⟩ := hsubmit
    exact submit_foreign hreg (hforeign req rfl)
  · exact childBook_idle (step_idle hreg.wf hreg.stamped hop fun req heq => hsubmit ⟨req, heq⟩)

/-- Whatever the manager does for others, the algo hears what happens to its children. -/
theorem step_heard (hreg : s.om.Regular) {op : Op}
    (hforeign : (AlgoOp.oms op).Foreign offset index) :
    Heard (s.om.childBook offset index) s.world.2
      ((s.step (E.withAlgo offset index) op).om.childBook offset index)
      (s.step (E.withAlgo offset index) op).world.2 := by
  cases hop : op.inboundId with
  | some id =>
    cases op with
    | confirm id exchId ts =>
      exact heard_nothing (childBook_idle (onConfirm_idle hreg.wf hreg.stamped exchId))
        (onConfirm_algo exchId)
    | fill id qty price trade ts => exact (onFill_heard hreg qty price trade).heard
    | reject id reason ts => exact onReject_heard hreg reason
    | cancelAck id ts => exact finishCancel_heard hreg (by decide) (Or.inl rfl) false
    | unsolicitedCancel id ts => exact finishCancel_heard hreg (by decide) (Or.inr rfl) true
    | _ => cases hop
  | none =>
    obtain ⟨hbook, halgo⟩ := step_other (E := E) hreg hop hforeign
    exact heard_nothing hbook halgo

/-- The order that an operation of the venue ends without filling it. -/
def Op.ends : Op → Option OrderIdRaw
  | .reject id reason _ => if reason = .CancelRejected then none else some id
  | .cancelAck id _ => some id
  | .unsolicitedCancel id _ => some id
  | _ => none

/-- An operation that ends no child. -/
theorem step_heardFill (hreg : s.om.Regular) {op : Op}
    (hforeign : (AlgoOp.oms op).Foreign offset index)
    (hends : ∀ id, op.ends = some id → s.om.Live id →
      (s.om.orderRef id).retrieveIntData offset ≠ index) :
    HeardFill (s.om.childBook offset index) s.world.2
      ((s.step (E.withAlgo offset index) op).om.childBook offset index)
      (s.step (E.withAlgo offset index) op).world.2 := by
  cases hop : op.inboundId with
  | some id =>
    cases op with
    | confirm id exchId ts =>
      exact heardFill_nothing (childBook_idle (onConfirm_idle hreg.wf hreg.stamped exchId))
        (onConfirm_algo exchId)
    | fill id qty price trade ts => exact onFill_heard hreg qty price trade
    | reject id reason ts =>
      by_cases hreason : reason = .CancelRejected
      · subst hreason
        exact heardFill_nothing (childBook_idle (onCancelReject_idle hreg.wf hreg.stamped))
          onCancelReject_algo
      · obtain ⟨hbook, halgo⟩ :=
          onReject_other (E := E) hreg hreason (hends id (if_neg hreason))
        exact heardFill_nothing hbook halgo
    | cancelAck id ts =>
      obtain ⟨hbook, halgo⟩ :=
        finishCancel_other (E := E) hreg (show EventKind.CancelAck ≠ .Fill by decide)
        (Or.inl rfl) false (hends id rfl)
      exact heardFill_nothing hbook halgo
    | unsolicitedCancel id ts =>
      obtain ⟨hbook, halgo⟩ := finishCancel_other (E := E) hreg
        (show EventKind.UnsolicitedCancel ≠ .Fill by decide) (Or.inr rfl) true (hends id rfl)
      exact heardFill_nothing hbook halgo
    | _ => cases hop
  | none =>
    obtain ⟨hbook, halgo⟩ := step_other (E := E) hreg hop hforeign
    exact heardFill_nothing hbook halgo

end Heard

end Oms
