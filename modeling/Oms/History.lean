import Oms.ExecutionAlgo.Ownership
import Oms.Foundation.Acceptor
import Oms.OrderManager.Effects
import Oms.OrderManager.Slots

/-!
# The history of the manager

A caller sees the ids that submits return, and a listener the events that are published. From these
notes alone a shadow of the manager can be kept.

* `Note`, `notesOf`: what is seen of an operation;
* `Life`, `lifeOf`: the notes about one order, in the order in which they may come;
* `Mirrors`: the shadow has the working orders and the positions of the manager;
  `mirrors_step`: so it is after every operation;
* `history_replays`: a run leaves the manager with exactly the orders and positions of its history;
* `life_told`: the history of an order is its placing, events that add up to what it filled, and at
  most one end, after which nothing follows.
-/

namespace Oms

open OrderManager

/-! ### Notes -/

/-- What is seen of an operation: a submit that returned an id, or a published event. -/
inductive Note
  | placed (id : OrderIdRaw) (req : OrderRequest)
  | event (e : OrderEvent)

/-- The order a note is about. -/
def Note.id : Note → OrderIdRaw
  | .placed id _ => id
  | .event e => e.internalId

section Notes

variable {W : Type}

/-- What is seen of an operation. -/
def notesOf (E : Env W) (s : State W) (op : Op) : List Note :=
  match op with
  | .submit req =>
    let id := (s.submit E req).1
    if id = 0 then [] else [.placed id req]
  | op => (announced s.om op).toList.map fun x => .event x.1

end Notes

/-! ### The life of an order -/

/-- What is known of a working order. -/
structure Entry where
  instrument : InstrumentId
  side : Side
  size : Quantity
  filled : Quantity := 0
  deriving DecidableEq, Repr

/-- What is known of an id. -/
inductive Life
  | unknown
  | working (o : Entry)
  | ended (o : Entry)
  deriving DecidableEq, Repr

/-- What an event tells of a working order, if it may come at this point. -/
def Entry.hear (o : Entry) (e : OrderEvent) : Option Life :=
  match e.kind with
  | .Confirmed => if e.lastQty = 0 ∧ e.filledSize = o.filled then some (.working o) else none
  | .PartialFill =>
    if 0 < e.lastQty ∧ e.filledSize = o.filled + e.lastQty ∧ e.filledSize < o.size ∧
        e.status = .PartiallyFilled then
      some (.working { o with filled := e.filledSize })
    else none
  | .Fill =>
    if 0 < e.lastQty ∧ e.filledSize = o.filled + e.lastQty ∧ e.filledSize = o.size ∧
        e.status = .Filled then
      some (.ended { o with filled := e.filledSize })
    else none
  | .Rejected =>
    if e.lastQty = 0 ∧ e.filledSize = o.filled ∧ e.status = .Rejected then some (.ended o)
    else none
  | .Cancelled | .UnsolicitedCancel =>
    if e.lastQty = 0 ∧ e.filledSize = o.filled ∧ e.status = .Cancelled then some (.ended o)
    else none

/-- The notes about one order: it is placed once, then told of with its own terms, until it ends. -/
def lifeOf : Acceptor Life Note where
  next
    | .unknown, .placed _ req => some (.working ⟨req.instrument, req.side, req.size, 0⟩)
    | .working o, .event e =>
      if e.instrument = o.instrument ∧ e.side = o.side ∧ e.size = o.size then o.hear e else none
    | _, _ => none

/-- The working order of a life. -/
def Life.entry : Life → Option Entry
  | .working o => some o
  | _ => none

/-- What a note does to the position on an instrument. -/
def Note.applyTo (inst : InstrumentId) (p : Position) : Note → Position
  | .event e =>
    if (e.kind = .PartialFill ∨ e.kind = .Fill) ∧ inst = e.instrument then
      p.apply (signedQty e.side e.lastQty) e.lastPrice e.ts
    else p
  | .placed _ _ => p

/-- The position on an instrument that a history leaves. -/
def replayed (inst : InstrumentId) (notes : List Note) : Position :=
  notes.foldl (Note.applyTo inst) {}

/-- What a listener knows of a stored order. -/
def terms : Observation Entry where
  see := fun o _ => ⟨o.instrument, o.side, o.size, o.filledSize⟩
  keeps := fun _ h => by rw [h.instrument, h.side, h.size, h.filledSize]

/-- The lives are those of the manager's orders. -/
structure Mirrors (lives : OrderIdRaw → Life) (om : OrderManager) : Prop where
  working : ∀ id, (lives id).entry = om.view terms id
  issued : ∀ id, lives id ≠ .unknown → Issued om id

section Mirrors

variable {lives : OrderIdRaw → Life} {om om' : OrderManager} {id : OrderIdRaw}

/-- What is not seen leaves the lives as they were. -/
theorem Mirrors.idle (h : Mirrors lives om) (hidle : Idle om om')
    (hissued : ∀ id, Issued om id → Issued om' id) : Mirrors lives om' where
  working := fun id => by rw [hidle.view, h.working]
  issued := fun id hid => hissued id (h.issued id hid)

/-- The life of a working order. -/
theorem Mirrors.of_works (h : Mirrors lives om) (hworks : om.Works id) :
    lives id = .working (terms.see (om.orderRef id) (om.tradesOf id)) := by
  have hview := h.working id
  rw [view_of_works terms hworks] at hview
  cases hlife : lives id with
  | working o =>
    rw [hlife] at hview
    cases hview
    rfl
  | unknown | ended =>
    rw [hlife] at hview
    cases hview

/-- A note that changes the view of one order as it changes its life. -/
theorem Mirrors.update (h : Mirrors lives om) {life : Life}
    (hview : om'.view terms = Function.update (om.view terms) id life.entry)
    (hissued : ∀ id, Issued om id → Issued om' id) (hid : Issued om' id) :
    Mirrors (Function.update lives id life) om' where
  working := fun k => by
    rw [hview]
    by_cases hk : k = id
    · subst hk
      simp
    · rw [Function.update_of_ne hk, Function.update_of_ne hk, h.working]
  issued := fun k hk => by
    by_cases heq : k = id
    · exact heq ▸ hid
    · rw [Function.update_of_ne heq] at hk
      exact hissued k (h.issued k hk)

end Mirrors

/-! ### Every operation -/

section Step

variable {W : Type} {E : Env W} {s : State W} {lives : OrderIdRaw → Life} {id : OrderIdRaw}

/-- The lives after the notes of an operation are those of the manager after it. -/
def Follows (E : Env W) (s : State W) (op : Op) (lives : OrderIdRaw → Life) : Prop :=
  ∃ lives', (Acceptor.family lifeOf Note.id).reads lives (notesOf E s op) = some lives' ∧
    Mirrors lives' (s.step E op).om

/-- An operation of which nothing is seen. -/
theorem Mirrors.silent (h : Mirrors lives s.om) {op : Op} (hnotes : notesOf E s op = [])
    (hidle : Idle s.om (s.step E op).om)
    (hissued : ∀ id, Issued s.om id → Issued (s.step E op).om id) : Follows E s op lives := by
  refine ⟨lives, ?_, h.idle hidle hissued⟩
  rw [hnotes]
  rfl

/-- An event about a working order. -/
theorem Mirrors.told (h : Mirrors lives s.om) (hworks : s.om.Works id) {op : Op}
    {x : OrderEvent × OrderManager}
    (hseen : notesOf E s op = (announced s.om op).toList.map fun x => .event x.1)
    (hannounced : announced s.om op = some x) (hid : x.1.internalId = id)
    (hterms : x.1.instrument = (s.om.orderRef id).instrument ∧
      x.1.side = (s.om.orderRef id).side ∧ x.1.size = (s.om.orderRef id).size) {life : Life}
    (hhear : (terms.see (s.om.orderRef id) (s.om.tradesOf id)).hear x.1 = some life)
    (hview : (s.step E op).om.view terms = Function.update (s.om.view terms) id life.entry)
    (hissued : ∀ id, Issued s.om id → Issued (s.step E op).om id) : Follows E s op lives := by
  have hlife := h.of_works hworks
  have hknown : Issued s.om id := h.issued id (by rw [hlife]; exact Life.noConfusion)
  refine ⟨Function.update lives id life, ?_, h.update hview hissued (hissued id hknown)⟩
  have hnotes : notesOf E s op = [.event x.1] := by
    rw [hseen, hannounced]
    rfl
  subst hid
  rw [hnotes, Acceptor.reads_singleton]
  show (lifeOf.next (lives x.1.internalId) (.event x.1)).map _ = _
  have hnext : lifeOf.next (lives x.1.internalId) (.event x.1) = some life := by
    rw [hlife]
    exact (if_pos hterms).trans hhear
  rw [hnext]
  rfl

section Handlers

variable (hwf : s.om.WF) (hstamped : Stamped s.om) (h : Mirrors lives s.om)
  (hown : s.om.pool.isCurrent id = true → (s.om.orderRef id).internalId = id)
include hwf hstamped h hown

theorem confirm_follows (exchId : ExchangeOrderId) (ts : Timestamp)
    (hissued : ∀ k, Issued s.om k → Issued (s.step E (.confirm id exchId ts)).om k) :
    Follows E s (.confirm id exchId ts) lives := by
  have hidle : Idle s.om (s.step E (.confirm id exchId ts)).om :=
    onConfirm_idle hwf hstamped exchId
  by_cases hok : s.om.validate id { kind := .Confirm } = .Ok
  · obtain ⟨hcur, hopen⟩ := (validate_ok_iff (by decide)).1 hok
    have hworks : s.om.Works id := ⟨⟨hcur, hopen⟩, hown hcur⟩
    have href := orderRef_modifyOrder s.om id (Order.confirm exchId ts)
    have hhear : (terms.see (s.om.orderRef id) (s.om.tradesOf id)).hear
        ((s.om.modifyOrder id (Order.confirm exchId ts)).announce .Confirmed id ts) =
          some (.working (terms.see (s.om.orderRef id) (s.om.tradesOf id))) := by
      simp [OrderManager.announce, href, Entry.hear, Order.confirm, terms]
    refine h.told hworks rfl (if_pos hok) rfl ?_ hhear ?_ hissued
    · simp only [OrderManager.announce, href]
      exact ⟨rfl, rfl, rfl⟩
    · rw [hidle.view]
      exact (Function.update_eq_self_iff.2 (view_of_works terms hworks).symm).symm
  · exact h.silent (by simp [notesOf, announced, hok]) hidle hissued

theorem fill_follows (qty : Quantity) (price : Price) (trade : TradeId) (ts : Timestamp)
    (hissued : ∀ k, Issued s.om k → Issued (s.step E (.fill id qty price trade ts)).om k) :
    Follows E s (.fill id qty price trade ts) lives := by
  rcases onFill_cases hwf hstamped id qty price trade ts with ⟨hok, hfills⟩ | ⟨hok, hidle⟩
  · obtain ⟨hcur, hopen, -, hqty, -, hle⟩ := validate_fill_ok_iff.1 hok
    have hworks : s.om.Works id := ⟨⟨hcur, hopen⟩, hown hcur⟩
    have href := applyFill_orderRef s.om id qty price trade ts
    have hview := hfills.view terms
    rw [hworks.own] at hview
    -- what the listeners are told, with the order as the fill leaves it
    obtain ⟨x, hx, hannounced⟩ : ∃ x : OrderEvent × OrderManager,
        x.1 = { (s.om.applyFill id qty price trade ts).announce
          (if ((s.om.orderRef id).addFill qty price ts).filledSize = (s.om.orderRef id).size then
            .Fill else .PartialFill) id ts with lastQty := qty, lastPrice := price } ∧
        announced s.om (.fill id qty price trade ts) = some x := by
      refine ⟨_, ?_, if_pos hok⟩
      simp only [href, decide_eq_true_eq]
      rfl
    have hterms : x.1.instrument = (s.om.orderRef id).instrument ∧
        x.1.side = (s.om.orderRef id).side ∧ x.1.size = (s.om.orderRef id).size := by
      rw [hx]
      simp only [OrderManager.announce, href]
      exact ⟨rfl, rfl, rfl⟩
    by_cases hfinal : (s.om.orderRef id).filledSize + qty = (s.om.orderRef id).size
    · have hhear : (terms.see (s.om.orderRef id) (s.om.tradesOf id)).hear x.1 =
          some (.ended { terms.see (s.om.orderRef id) (s.om.tradesOf id) with
            filled := (s.om.orderRef id).filledSize + qty }) := by
        rw [hx]
        simp [OrderManager.announce, href, Order.addFill, hfinal, Entry.hear, terms, hqty]
      rw [if_pos (Order.filledSize_add_eq_size_iff.1 hfinal)] at hview
      exact h.told hworks rfl hannounced (by rw [hx]; rfl) hterms hhear hview hissued
    · have hhear : (terms.see (s.om.orderRef id) (s.om.tradesOf id)).hear x.1 =
          some (.working { terms.see (s.om.orderRef id) (s.om.tradesOf id) with
            filled := (s.om.orderRef id).filledSize + qty }) := by
        have hlt : (s.om.orderRef id).filledSize + qty < (s.om.orderRef id).size :=
          lt_of_le_of_ne (le_sub_iff_add_le'.1 hle) hfinal
        rw [hx]
        simp [OrderManager.announce, href, Order.addFill, hfinal, Entry.hear, terms, hqty, hlt]
      rw [if_neg (mt Order.filledSize_add_eq_size_iff.2 hfinal)] at hview
      exact h.told hworks rfl hannounced (by rw [hx]; rfl) hterms hhear hview hissued
  · exact h.silent (by simp [notesOf, announced, hok]) hidle hissued

omit hwf hstamped in
/-- The venue's end of a working order, with what the listeners are told of it. -/
theorem closes_follows {op : Op}
    (hseen : notesOf E s op = (announced s.om op).toList.map fun x => .event x.1)
    (hlive : s.om.Live id)
    (hcloses : Closes s.om (s.step E op).om (s.om.orderRef id).internalId)
    {x : OrderEvent × OrderManager} (hannounced : announced s.om op = some x)
    (hid : x.1.internalId = id) {f : Order → Order} (hf : Order.Closing f)
    (hwrite : x.2.orderRef id = f (s.om.orderRef id))
    (hx : x.1.instrument = (x.2.orderRef id).instrument ∧ x.1.side = (x.2.orderRef id).side ∧
      x.1.size = (x.2.orderRef id).size ∧ x.1.filledSize = (x.2.orderRef id).filledSize ∧
      x.1.status = (x.2.orderRef id).status ∧ x.1.lastQty = 0)
    (hend : x.1.kind = .Rejected ∧ (∀ o, (f o).status = .Rejected) ∨
      (x.1.kind = .Cancelled ∨ x.1.kind = .UnsolicitedCancel) ∧ ∀ o, (f o).status = .Cancelled)
    (hissued : ∀ k, Issued s.om k → Issued (s.step E op).om k) : Follows E s op lives := by
  have hworks : s.om.Works id := ⟨hlive, hown hlive.current⟩
  have hkeeps := hf.keeps (s.om.orderRef id)
  obtain ⟨hinst, hside, hsize, hfilled, hstatus, hlast⟩ := hx
  rw [hwrite] at hinst hside hsize hfilled hstatus
  have hhear : (terms.see (s.om.orderRef id) (s.om.tradesOf id)).hear x.1 =
      some (.ended (terms.see (s.om.orderRef id) (s.om.tradesOf id))) := by
    have hsame : x.1.filledSize = (s.om.orderRef id).filledSize := hfilled.trans hkeeps.filledSize
    unfold Entry.hear
    rcases hend with ⟨hkind, hends⟩ | ⟨hkind | hkind, hends⟩
    all_goals
      rw [hkind]
      exact if_pos ⟨hlast, hsame, hstatus.trans (hends _)⟩
  have hview := hcloses.view terms
  rw [hworks.own] at hview
  refine h.told hworks hseen hannounced hid ⟨?_, ?_, ?_⟩ hhear hview hissued
  · exact hinst.trans hkeeps.instrument
  · exact hside.trans hkeeps.side
  · exact hsize.trans hkeeps.size

theorem reject_follows (reason : RejectReason) (ts : Timestamp)
    (hissued : ∀ k, Issued s.om k → Issued (s.step E (.reject id reason ts)).om k) :
    Follows E s (.reject id reason ts) lives := by
  by_cases hreason : reason = .CancelRejected
  · subst hreason
    exact h.silent (by simp [notesOf, announced]) (onCancelReject_idle hwf hstamped) hissued
  · rcases onReject_cases hwf hstamped id hreason ts with ⟨hlive, hcloses⟩ | ⟨hnot, hidle⟩
    · have hok : s.om.validate id { kind := .Reject } = .Ok :=
        (validate_ok_iff (by decide)).2 ⟨hlive.current, hlive.isOpen⟩
      have hwrite := orderRef_modifyOrder s.om id (Order.reject ts)
      exact closes_follows h hown rfl hlive hcloses (if_pos ⟨hreason, hok⟩) rfl
        (Order.reject_closing ts) hwrite ⟨rfl, rfl, rfl, rfl, rfl, rfl⟩
        (Or.inl ⟨rfl, fun _ => rfl⟩) hissued
    · refine h.silent ?_ hidle hissued
      have hok : s.om.validate id { kind := .Reject } ≠ .Ok := fun hok => by
        obtain ⟨hcur, hopen⟩ := (validate_ok_iff (by decide)).1 hok
        exact hnot ⟨hcur, hopen⟩
      simp [notesOf, announced, hok]

theorem cancelAck_follows (ts : Timestamp)
    (hissued : ∀ k, Issued s.om k → Issued (s.step E (.cancelAck id ts)).om k) :
    Follows E s (.cancelAck id ts) lives := by
  have hkind : EventKind.CancelAck ≠ .Fill := by decide
  rcases finishCancel_cases hwf hstamped id hkind .Cancelled false ts with
    ⟨hlive, hcloses⟩ | ⟨hnot, hidle⟩
  · have hok : s.om.validate id { kind := .CancelAck } = .Ok :=
      (validate_ok_iff hkind).2 ⟨hlive.current, hlive.isOpen⟩
    have hwrite := orderRef_modifyOrder s.om id (Order.cancelled ts)
    exact closes_follows h hown rfl hlive hcloses (if_pos hok) rfl (Order.cancelled_closing ts)
      hwrite ⟨rfl, rfl, rfl, rfl, rfl, rfl⟩ (Or.inr ⟨Or.inl rfl, fun _ => rfl⟩) hissued
  · refine h.silent ?_ hidle hissued
    have hok : s.om.validate id { kind := .CancelAck } ≠ .Ok := fun hok => by
      obtain ⟨hcur, hopen⟩ := (validate_ok_iff hkind).1 hok
      exact hnot ⟨hcur, hopen⟩
    simp [notesOf, announced, hok]

theorem unsolicitedCancel_follows (ts : Timestamp)
    (hissued : ∀ k, Issued s.om k → Issued (s.step E (.unsolicitedCancel id ts)).om k) :
    Follows E s (.unsolicitedCancel id ts) lives := by
  have hkind : EventKind.UnsolicitedCancel ≠ .Fill := by decide
  rcases finishCancel_cases hwf hstamped id hkind .UnsolicitedCancel true ts with
    ⟨hlive, hcloses⟩ | ⟨hnot, hidle⟩
  · have hok : s.om.validate id { kind := .UnsolicitedCancel } = .Ok :=
      (validate_ok_iff hkind).2 ⟨hlive.current, hlive.isOpen⟩
    have hwrite := orderRef_modifyOrder s.om id (Order.cancelled ts)
    exact closes_follows h hown rfl hlive hcloses (if_pos hok) rfl (Order.cancelled_closing ts)
      hwrite ⟨rfl, rfl, rfl, rfl, rfl, rfl⟩ (Or.inr ⟨Or.inr rfl, fun _ => rfl⟩) hissued
  · refine h.silent ?_ hidle hissued
    have hok : s.om.validate id { kind := .UnsolicitedCancel } ≠ .Ok := fun hok => by
      obtain ⟨hcur, hopen⟩ := (validate_ok_iff hkind).1 hok
      exact hnot ⟨hcur, hopen⟩
    simp [notesOf, announced, hok]

end Handlers

/-- A submit returns an id if an order works under it, and `0` if nothing is to be seen. -/
theorem submit_follows (hreg : s.om.Regular) (h : Mirrors lives s.om) (req : OrderRequest)
    (hunwrapped : Unwrapped (s.submit E req).2.om) : Follows E s (.submit req) lives := by
  have hchain : Chain {} s.om (s.submit E req).2.om := submit_chain trivial hreg.wf trivial
  have hissued : ∀ id, Issued s.om id → Issued (s.submit E req).2.om id := fun id =>
    hchain.issued hreg.wf hunwrapped
  have hunwrapped₀ := hchain.unwrapped hreg.wf hunwrapped
  rcases submit_cases E.canceller_true s req with ⟨hzero, -, hquiet⟩ | ⟨venue, ex, w, hplacing⟩
  · exact h.silent (if_pos hzero) ((hquiet still).idle hreg.wf hreg.stamped) hissued
  · have hplace := hplacing.place
    obtain ⟨id, pool, hacq, hid, hcases⟩ :=
      place_cases (E := E) (s := { s with world := w }) hreg.wf hreg.stamped req venue ex
        hplacing.free
    rw [← hplace] at hcases
    rcases hcases with ⟨-, hreturn, hopens, hbooked, -⟩ | ⟨-, hreturn, hidle, -⟩
    · have hnew : lives id = .unknown := by
        by_contra hknown
        exact not_issued_of_acquire hreg.wf hunwrapped₀ hacq hid (h.issued id hknown)
      have hne : (s.submit E req).1 ≠ 0 := by
        rw [hreturn]
        exact id_ne_zero hreg.wf hreg.begun hunwrapped₀ hacq hid
      have hwf : (s.om.booked req venue (E.clock w) id pool).WF := hreg.wf.booked hacq
      have hthere : Issued (s.submit E req).2.om id :=
        hbooked.issued hwf hunwrapped (issued_booked hreg.wf hunwrapped₀ hacq hid)
      refine ⟨Function.update lives id (.working ⟨req.instrument, req.side, req.size, 0⟩), ?_,
        h.update (hopens.view terms) hissued hthere⟩
      have hnotes : notesOf E s (.submit req) = [.placed id req] := by
        rw [← hreturn]
        exact if_neg hne
      rw [hnotes, Acceptor.reads_singleton]
      show (lifeOf.next (lives id) (.placed id req)).map _ = _
      rw [hnew]
      rfl
    · exact h.silent (if_pos hreturn) hidle hissued

/-- **What is seen of an operation is all that it does** to the working orders. -/
theorem step_follows {op : Op} (hreg : s.om.Regular) (haccounted : Accounted s.om)
    (hunwrapped : Unwrapped (s.step E op).om) (hop : CarriesMinted s op)
    (h : Mirrors lives s.om) : Follows E s op lives := by
  have hissued : ∀ id, Issued s.om id → Issued (s.step E op).om id := fun id =>
    (step_chain hreg.wf op).issued hreg.wf hunwrapped
  have hown : ∀ id, op.inboundId = some id → s.om.pool.isCurrent id = true →
      (s.om.orderRef id).internalId = id := fun id hid hcur => by
    obtain ⟨o, ho, rfl⟩ := hop id hid
    exact (haccounted o ho).own hcur
  cases op with
  | submit req => exact submit_follows hreg h req hunwrapped
  | confirm id exchId ts =>
    exact confirm_follows hreg.wf hreg.stamped h (hown id rfl) exchId ts hissued
  | fill id qty price trade ts =>
    exact fill_follows hreg.wf hreg.stamped h (hown id rfl) qty price trade ts hissued
  | reject id reason ts =>
    exact reject_follows hreg.wf hreg.stamped h (hown id rfl) reason ts hissued
  | cancelAck id ts => exact cancelAck_follows hreg.wf hreg.stamped h (hown id rfl) ts hissued
  | unsolicitedCancel id ts =>
    exact unsolicitedCancel_follows hreg.wf hreg.stamped h (hown id rfl) ts hissued
  | _ => exact h.silent rfl (step_idle hreg.wf hreg.stamped rfl fun _ => Op.noConfusion) hissued

end Step

/-! ### What is told of one order -/

/-- An event after which nothing follows. -/
def OrderEvent.final (e : OrderEvent) : Bool :=
  match e.kind with
  | .Confirmed | .PartialFill => false
  | .Fill | .Rejected | .Cancelled | .UnsolicitedCancel => true

/-- Some of the order traded, and the event says whether that was all. Or none did. -/
def OrderEvent.Trades (e : OrderEvent) : Prop :=
  match e.kind with
  | .PartialFill => 0 < e.lastQty ∧ e.filledSize < e.size
  | .Fill => 0 < e.lastQty ∧ e.filledSize = e.size
  | .Confirmed | .Rejected | .Cancelled | .UnsolicitedCancel => e.lastQty = 0

/-- The quantity that a list of events adds up to. -/
def filledBy (events : List OrderEvent) : Quantity := (events.map OrderEvent.lastQty).sum

/-- The events of an order of `req`: each has its terms, and what was filled up to it; and nothing
follows an end. -/
structure Narrates (req : OrderRequest) (events : List OrderEvent) : Prop where
  terms : ∀ e ∈ events, e.instrument = req.instrument ∧ e.side = req.side ∧ e.size = req.size
  trades : ∀ e ∈ events, e.Trades
  adds : ∀ before e, before ++ [e] <+: events → e.filledSize = filledBy (before ++ [e])
  last : ∀ before e, before ++ [e] <+: events → e.final = true → events = before ++ [e]

/-- The notes of an order whose entry is `o`. -/
def Telling (o : Entry) (ended : Bool) (notes : List Note) : Prop :=
  ∃ id req events, notes = .placed id req :: events.map .event ∧ Narrates req events ∧
    o = ⟨req.instrument, req.side, req.size, filledBy events⟩ ∧
    (ended = false ↔ ∀ e ∈ events, e.final = false)

/-- The notes that lead to a life. -/
def Tells : Life → List Note → Prop
  | .unknown, notes => notes = []
  | .working o, notes => Telling o false notes
  | .ended o, notes => Telling o true notes

section Telling

variable {req : OrderRequest} {events : List OrderEvent} {e : OrderEvent}

theorem narrates_nil (req : OrderRequest) : Narrates req [] where
  terms := fun _ h => absurd h List.not_mem_nil
  trades := fun _ h => absurd h List.not_mem_nil
  adds := fun before e h => by simp at h
  last := fun before e h => by simp at h

theorem filledBy_concat : filledBy (events ++ [e]) = filledBy events + e.lastQty := by
  simp [filledBy]

theorem Narrates.concat (h : Narrates req events) (hopen : ∀ e ∈ events, e.final = false)
    (hterms : e.instrument = req.instrument ∧ e.side = req.side ∧ e.size = req.size)
    (htrades : e.Trades) (hadds : e.filledSize = filledBy events + e.lastQty) :
    Narrates req (events ++ [e]) where
  terms := fun e' he' => by
    rcases List.mem_append.1 he' with he' | he'
    · exact h.terms e' he'
    · rw [List.mem_singleton.1 he']
      exact hterms
  trades := fun e' he' => by
    rcases List.mem_append.1 he' with he' | he'
    · exact h.trades e' he'
    · rw [List.mem_singleton.1 he']
      exact htrades
  adds := fun before e' hprefix => by
    rcases List.prefix_concat_iff.1 hprefix with heq | hprefix
    · obtain ⟨rfl, hlast⟩ := List.append_inj' heq rfl
      cases hlast
      rw [filledBy_concat]
      exact hadds
    · exact h.adds before e' hprefix
  last := fun before e' hprefix hfinal => by
    rcases List.prefix_concat_iff.1 hprefix with heq | hprefix
    · exact heq.symm
    · have hmem : e' ∈ events := hprefix.subset (by simp)
      rw [hopen e' hmem] at hfinal
      cases hfinal

/-- What an event that may come tells of an order. -/
theorem hear_cases {o : Entry} {life : Life} (hhear : o.hear e = some life)
    (hsize : e.size = o.size) :
    e.Trades ∧ e.filledSize = o.filled + e.lastQty ∧
      (e.final = false ∧ life = .working { o with filled := e.filledSize } ∨
        e.final = true ∧ life = .ended { o with filled := e.filledSize }) := by
  unfold Entry.hear at hhear
  unfold OrderEvent.Trades OrderEvent.final
  cases hkind : e.kind with
  | Confirmed =>
    simp only [hkind, Option.ite_none_right_eq_some, Option.some.injEq] at hhear
    obtain ⟨⟨hlast, hsame⟩, rfl⟩ := hhear
    exact ⟨hlast, by rw [hlast, hsame, add_zero], Or.inl ⟨rfl, by rw [hsame]⟩⟩
  | PartialFill =>
    simp only [hkind, Option.ite_none_right_eq_some, Option.some.injEq] at hhear
    obtain ⟨⟨hlast, hadds, hlt, -⟩, rfl⟩ := hhear
    exact ⟨⟨hlast, hsize ▸ hlt⟩, hadds, Or.inl ⟨rfl, rfl⟩⟩
  | Fill =>
    simp only [hkind, Option.ite_none_right_eq_some, Option.some.injEq] at hhear
    obtain ⟨⟨hlast, hadds, hfull, -⟩, rfl⟩ := hhear
    exact ⟨⟨hlast, hsize ▸ hfull⟩, hadds, Or.inr ⟨rfl, rfl⟩⟩
  | Rejected | Cancelled | UnsolicitedCancel =>
    simp only [hkind, Option.ite_none_right_eq_some, Option.some.injEq] at hhear
    obtain ⟨⟨hlast, hsame, -⟩, rfl⟩ := hhear
    exact ⟨hlast, by rw [hlast, hsame, add_zero], Or.inr ⟨rfl, by rw [hsame]⟩⟩

/-- Each note continues what was told so far. -/
theorem tells_next (life : Life) (notes : List Note) (note : Note) (life' : Life)
    (h : Tells life notes) (hnext : lifeOf.next life note = some life') :
    Tells life' (notes ++ [note]) := by
  cases life with
  | unknown =>
    cases note with
    | placed id req =>
      cases hnext
      cases h
      exact ⟨id, req, [], rfl, narrates_nil req, rfl,
        iff_of_true rfl fun _ h => absurd h List.not_mem_nil⟩
    | event e => cases hnext
  | working o =>
    cases note with
    | placed id req => cases hnext
    | event e =>
      obtain ⟨id, req, events, rfl, hnarrates, rfl, hopen⟩ := h
      have hnone := hopen.1 rfl
      obtain ⟨hterms, hhear⟩ := Option.ite_none_right_eq_some.1 hnext
      obtain ⟨htrades, hadds, hcases⟩ := hear_cases hhear hterms.2.2
      have hconcat := hnarrates.concat hnone hterms htrades hadds
      have htold : Note.placed id req :: events.map Note.event ++ [.event e] =
          .placed id req :: (events ++ [e]).map .event := by simp
      have hfilled : e.filledSize = filledBy (events ++ [e]) := by
        rw [filledBy_concat]
        exact hadds
      rcases hcases with ⟨hfinal, rfl⟩ | ⟨hfinal, rfl⟩
      · refine ⟨id, req, events ++ [e], htold, hconcat, by rw [← hfilled], ?_⟩
        refine iff_of_true rfl fun e' he' => ?_
        rcases List.mem_append.1 he' with he' | he'
        · exact hnone e' he'
        · rw [List.mem_singleton.1 he']
          exact hfinal
      · refine ⟨id, req, events ++ [e], htold, hconcat, by rw [← hfilled], ?_⟩
        refine iff_of_false (by decide) fun hall => ?_
        rw [hall e (by simp)] at hfinal
        cases hfinal
  | ended o => cases note <;> cases hnext

end Telling

/-! ### Positions -/

section Positions

variable {W : Type} {E : Env W} {s : State W}

/-- A submit moves no position. -/
theorem submit_replays (hwf : s.om.WF) (hstamped : Stamped s.om) (req : OrderRequest)
    (inst : InstrumentId) : (s.submit E req).2.om.position inst = s.om.position inst := by
  rcases submit_cases E.canceller_true s req with ⟨-, -, hquiet⟩ | ⟨venue, ex, w, hplacing⟩
  · exact ((hquiet still).idle hwf hstamped).position inst
  · rw [hplacing.place]
    obtain ⟨id, pool, -, -, hcases⟩ :=
      place_cases (E := E) (s := { s with world := w }) hwf hstamped req venue ex hplacing.free
    rcases hcases with ⟨-, -, hopens, -⟩ | ⟨-, -, hidle, -⟩
    · exact hopens.position inst
    · exact hidle.position inst

/-- What is no accepted fill moves no position. -/
theorem position_of_noFill (hwf : s.om.WF) (hstamped : Stamped s.om) {op : Op}
    (hno : NoFill s.om op) (inst : InstrumentId) :
    (s.step E op).om.position inst = s.om.position inst := by
  cases op with
  | submit req => exact submit_replays hwf hstamped req inst
  | confirm id exchId ts => exact (onConfirm_idle hwf hstamped exchId).position inst
  | fill id qty price trade ts => exact (onFill_not_ok (hno _ _ _ _ _ rfl)).position inst
  | reject id reason ts =>
    by_cases hreason : reason = .CancelRejected
    · subst hreason
      exact (onCancelReject_idle hwf hstamped).position inst
    · rcases onReject_cases hwf hstamped id hreason ts with ⟨-, hcloses⟩ | ⟨-, hidle⟩
      · exact hcloses.position inst
      · exact hidle.position inst
  | cancelAck id ts =>
    have hkind : EventKind.CancelAck ≠ .Fill := by decide
    rcases finishCancel_cases hwf hstamped id hkind .Cancelled false ts with
      ⟨-, hcloses⟩ | ⟨-, hidle⟩
    · exact hcloses.position inst
    · exact hidle.position inst
  | unsolicitedCancel id ts =>
    have hkind : EventKind.UnsolicitedCancel ≠ .Fill := by decide
    rcases finishCancel_cases hwf hstamped id hkind .UnsolicitedCancel true ts with
      ⟨-, hcloses⟩ | ⟨-, hidle⟩
    · exact hcloses.position inst
    · exact hidle.position inst
  | _ => exact (step_idle hwf hstamped rfl fun _ => Op.noConfusion).position inst

/-- Nor do its notes. -/
theorem replay_of_noFill {op : Op} (hno : NoFill s.om op) (inst : InstrumentId) (p : Position) :
    (notesOf E s op).foldl (Note.applyTo inst) p = p := by
  have hevent : ((announced s.om op).toList.map fun x => Note.event x.1).foldl
      (Note.applyTo inst) p = p := by
    cases hannounced : announced s.om op with
    | none => rfl
    | some x =>
      obtain ⟨hfill, hpartial⟩ := announced_kind hannounced hno
      show (if _ then _ else _) = p
      rw [if_neg]
      rintro ⟨hkind | hkind, -⟩
      · exact hpartial hkind
      · exact hfill hkind
  cases op with
  | submit req =>
    unfold notesOf
    dsimp only
    split_ifs
    · rfl
    · rfl
  | _ => exact hevent

/-- The positions move as the published fills say. -/
theorem step_replays (hwf : s.om.WF) (hstamped : Stamped s.om) (op : Op) (inst : InstrumentId) :
    (s.step E op).om.position inst =
      (notesOf E s op).foldl (Note.applyTo inst) (s.om.position inst) := by
  by_cases hno : NoFill s.om op
  · rw [position_of_noFill hwf hstamped hno, replay_of_noFill hno]
  · unfold NoFill at hno
    push Not at hno
    obtain ⟨id, qty, price, trade, ts, rfl, hok⟩ := hno
    obtain ⟨-, hfills⟩ | ⟨hnot, -⟩ := onFill_cases (E := E) hwf hstamped id qty price trade ts
    · have href := applyFill_orderRef s.om id qty price trade ts
      refine (hfills.position inst).trans ?_
      unfold notesOf announced
      dsimp only
      rw [if_pos hok]
      show _ = (if _ then _ else _)
      simp only [OrderManager.announce, href]
      by_cases hinst : inst = (s.om.orderRef id).instrument
      · rw [if_pos hinst, if_pos]
        · rfl
        · refine ⟨?_, hinst⟩
          split_ifs
          · right
            rfl
          · left
            rfl
      · rw [if_neg hinst, if_neg fun h => hinst h.2]
    · exact absurd hok hnot

end Positions

/-! ### Every run -/

section Runs

variable {W : Type} (E : Env W) (capacity : PoolCapacity) (w : W) (ops : List Op)

/-- What was seen of a run. -/
def historyOf : List Note := (machine E).trace (notesOf E) ⟨.init capacity, w⟩ ops

/-- A run is a chain of changes. -/
theorem run_chain {s : State W} (hwf : s.om.WF) : Chain {} s.om ((machine E).run s ops).om := by
  induction ops generalizing s with
  | nil => exact .refl
  | cons op ops ih =>
    have hchain := step_chain (E := E) hwf op
    exact hchain.trans (ih (Change.wf_of_chain hchain hwf))

/-- If no generation has come round at the end of a run, none has along it. -/
theorem admits_unwrapped {s : State W} (hwf : s.om.WF)
    (hunwrapped : Unwrapped ((machine E).run s ops).om) :
    (machine E).Admits (fun s op => Unwrapped (s.step E op).om) s ops := by
  induction ops generalizing s with
  | nil => trivial
  | cons op ops ih =>
    have hwf' := Change.wf_of_chain (step_chain (E := E) hwf op) hwf
    exact ⟨(run_chain E ops hwf').unwrapped hwf' hunwrapped, ih hwf' hunwrapped⟩

/-- Whatever ids the events carry, the positions are those that the published fills add up to. -/
theorem run_replays (inst : InstrumentId) :
    ((machine E).run ⟨.init capacity, w⟩ ops).om.position inst =
      replayed inst (historyOf E capacity w ops) := by
  have hall := Machine.run_trace_invariant (G := fun _ _ => True)
    (I := fun (s : State W) notes => s.om.Regular ∧ s.om.position inst = replayed inst notes)
    (fun s op notes h _ => by
      obtain ⟨hreg, hposition⟩ := h
      refine ⟨hreg.chain (step_chain (E := E) hreg.wf op), ?_⟩
      unfold replayed at hposition ⊢
      rw [List.foldl_append, ← hposition]
      exact step_replays hreg.wf hreg.stamped op inst)
    (t := []) ⟨regular_init capacity, rfl⟩ (Machine.admits_true (machine E) ⟨.init capacity, w⟩ ops)
  exact hall.2

-- The runs of the main results: every inbound event carries a minted id, and no slot was released
-- so often that its generation came round.
variable (hops : (machine E).Admits CarriesMinted ⟨.init capacity, w⟩ ops)
  (hunwrapped : Unwrapped ((machine E).run ⟨.init capacity, w⟩ ops).om)
include hops hunwrapped

/-- The lives that the history leads to are those of the orders. -/
theorem run_mirrors : ∃ lives,
    (Acceptor.family lifeOf Note.id).reads (fun _ => .unknown) (historyOf E capacity w ops) =
        some lives ∧ Mirrors lives ((machine E).run ⟨.init capacity, w⟩ ops).om := by
  have hadmits := hops.and (admits_unwrapped E ops (wf_init capacity) hunwrapped)
  have hinit : Mirrors (fun _ => .unknown) (init capacity) :=
    ⟨fun id => (view_of_not_works terms (not_works_init capacity id)).symm,
      fun id h => absurd rfl h⟩
  have hnone : Accounted (init capacity) := fun o ho => by
    simp [OrderPool.created, init, OrderPool.init] at ho
  obtain ⟨lives, hreads, -, -, hmirrors⟩ := Machine.trace_read (A := .family lifeOf Note.id)
    (R := fun (s : State W) lives => s.om.Regular ∧ Accounted s.om ∧ Mirrors lives s.om)
    (fun s op lives h hop => by
      obtain ⟨hreg, haccounted, h⟩ := h
      obtain ⟨hminted, hunwrapped⟩ := hop
      obtain ⟨lives', hreads, hmirrors⟩ := step_follows hreg haccounted hunwrapped hminted h
      have hchain := step_chain (E := E) hreg.wf op
      exact ⟨lives', hreads, hreg.chain hchain, hchain.accounted hreg.wf hunwrapped haccounted,
        hmirrors⟩)
    ⟨regular_init capacity, hnone, hinit⟩ hadmits
  exact ⟨lives, hreads, hmirrors⟩

/-- **The history replays.** Let every event of a run carry a minted id, and let no generation come
round. From the ids that submits returned and the events that were published, and from nothing else,
the working orders of the manager and all its positions are found again. No note is out of place: an
order is placed once under an id of its own, told of with its own terms and the sum of its fills,
and ends at most once. -/
theorem history_replays : ∃ lives,
    (Acceptor.family lifeOf Note.id).reads (fun _ => .unknown) (historyOf E capacity w ops) =
        some lives ∧
      (∀ id, (lives id).entry = ((machine E).run ⟨.init capacity, w⟩ ops).om.view terms id) ∧
      ∀ inst, ((machine E).run ⟨.init capacity, w⟩ ops).om.position inst =
        replayed inst (historyOf E capacity w ops) := by
  obtain ⟨lives, hreads, hmirrors⟩ := run_mirrors E capacity w ops hops hunwrapped
  refine ⟨lives, hreads, hmirrors.working, fun inst => ?_⟩
  exact run_replays E capacity w ops inst

/-- **What is told of an order.** In such a run the history of an id is empty, and it does not work,
or it is the placing of an order followed by its events. Each event has the terms of the request and
the sum of what was filled up to it, only the last can be an end, and it is one exactly if the order
does not work any more. -/
theorem life_told (id : OrderIdRaw) :
    let om := ((machine E).run ⟨.init capacity, w⟩ ops).om
    let told := (historyOf E capacity w ops).filter fun note => note.id = id
    told = [] ∧ ¬ om.Works id ∨
      ∃ req events, told = .placed id req :: events.map .event ∧ Narrates req events ∧
        (om.Works id ↔ ∀ e ∈ events, e.final = false) ∧
        (om.Works id → (om.orderRef id).filledSize = filledBy events) := by
  intro om told
  obtain ⟨lives, hreads, hmirrors⟩ := run_mirrors E capacity w ops hops hunwrapped
  have hstart : Tells .unknown [] := rfl
  have htold : Tells (lives id) told :=
    Acceptor.reads_invariant tells_next hstart (Acceptor.family_reads hreads id)
  have hworking := hmirrors.working id
  have hplaced : ∀ {k req events}, told = .placed k req :: events → k = id := fun heq => by
    have hmem : Note.placed _ _ ∈ told := heq ▸ List.mem_cons_self
    exact of_decide_eq_true (List.mem_filter.1 hmem).2
  by_cases hworks : om.Works id
  · rw [hmirrors.of_works hworks] at htold
    obtain ⟨k, req, events, heq, hnarrates, hentry, hopen⟩ := htold
    obtain rfl := hplaced heq
    refine Or.inr ⟨req, events, heq, hnarrates, iff_of_true hworks (hopen.1 rfl), fun _ => ?_⟩
    exact congrArg Entry.filled hentry
  · rw [view_of_not_works terms hworks] at hworking
    cases hlife : lives id with
    | unknown =>
      rw [hlife] at htold
      exact Or.inl ⟨htold, hworks⟩
    | working o =>
      rw [hlife] at hworking
      cases hworking
    | ended o =>
      rw [hlife] at htold
      obtain ⟨k, req, events, heq, hnarrates, -, hopen⟩ := htold
      obtain rfl := hplaced heq
      refine Or.inr ⟨req, events, heq, hnarrates, ?_, fun h => absurd h hworks⟩
      exact iff_of_false hworks fun hall => Bool.noConfusion (hopen.2 hall)

end Runs

/-- An order fills in part, is cancelled, and is reached by a late fill. -/
theorem history_replays_late : ∃ lives,
    (Acceptor.family lifeOf Note.id).reads (fun _ => .unknown)
        (historyOf acceptingEnv twoSlots () lateFill) = some lives ∧
      (∀ id, (lives id).entry = (acceptingRun lateFill).om.view terms id) ∧
      ∀ inst, (acceptingRun lateFill).om.position inst =
        replayed inst (historyOf acceptingEnv twoSlots () lateFill) :=
  history_replays acceptingEnv twoSlots () lateFill lateFill_minted lateFill_unwrapped

/-- Its history is its placing, a partial fill and the cancel, and the late fill is not in it. -/
theorem life_told_late : ∃ req events,
    ((historyOf acceptingEnv twoSlots () lateFill).filter fun note => note.id = 1) =
        .placed 1 req :: events.map .event ∧
      events.map OrderEvent.kind = [.PartialFill, .Cancelled] ∧ Narrates req events := by
  have hkinds : ((historyOf acceptingEnv twoSlots () lateFill).filter fun note =>
      note.id = 1).filterMap (fun
        | .placed _ _ => none
        | .event e => some e.kind) = [.PartialFill, .Cancelled] := by decide
  rcases life_told acceptingEnv twoSlots () lateFill lateFill_minted lateFill_unwrapped 1 with
    ⟨hnone, -⟩ | ⟨req, events, heq, hnarrates, -⟩
  · rw [hnone] at hkinds
    cases hkinds
  · refine ⟨req, events, heq, ?_, hnarrates⟩
    rw [heq, List.filterMap_cons_none rfl, List.filterMap_map] at hkinds
    exact (List.filterMap_eq_map' (f := OrderEvent.kind)).symm ▸ hkinds

end Oms
