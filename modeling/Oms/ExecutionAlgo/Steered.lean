import Oms.ExecutionAlgo.Ownership
import Oms.ExecutionAlgo.Twap
import Oms.OrderManager.Sizing

/-!
# A rebalance worked by TWAP

`bench.cpp`, `main` and `run_parent`: the execution delta of an instrument is handed to a TWAP as
its parent order, and from then on the algo alone trades the instrument.

* `rebalanceParent`: the parent order of a delta;
* `Lane`, `Dedicated`: the orders on an instrument are those of one algo, in one direction, and
  their fills are what moves the position; `dedicated_turn`: every turn keeps it so;
* `Dedicated.pending_eq`: what is pending is what the algo has in flight;
* `Asks`, `onTimer_asks`: a timer call sends children of the lane only;
* `twap_on_course`: position and pending quantity are what the algo says, and never overshoot.
-/

namespace Oms

open OrderManager

/-- The parent order of a delta, at a price that crosses the spread. -/
def rebalanceParent (inst : InstrumentId) (delta : Quantity) (start window : Timestamp)
    (b : TopOfBook) : ParentOrder where
  instrument := inst
  side := if 0 < delta then .Buy else .Sell
  qty := if 0 < delta then delta else -delta
  start := start
  endAt := start + window
  limit := if 0 < delta then b.ask else b.bid

/-! ### One algo on one instrument -/

/-- What a request fixes of an order. -/
structure Ticket where
  instrument : InstrumentId
  side : Side
  intData : ScratchOffset → ℤ

/-- What is seen of an order, whether it is filled or not. -/
def ticket : Observation Ticket where
  see := fun o _ => ⟨o.instrument, o.side, o.intData⟩
  keeps := fun _ h => by rw [h.instrument, h.side, h.intData]

/-- An instrument that one algo trades in one direction. -/
structure Lane where
  inst : InstrumentId
  side : Side
  offset : ScratchOffset
  index : ℤ

/-- An order is on the instrument exactly if the algo sent it, and then it is in the direction. -/
structure Lane.Fits (l : Lane) (t : Ticket) : Prop where
  own : t.instrument = l.inst ↔ t.intData l.offset = l.index
  side : t.instrument = l.inst → t.side = l.side

/-- Only orders that fit are submitted. -/
def Lane.policy (l : Lane) : Policy where
  request := fun req =>
    0 < req.size ∧ l.Fits ⟨req.instrument, req.side, scratch req.tag⟩

/-- The working orders on the instrument are those of the algo, and the position has moved from
`base` by what the algo's orders filled. -/
structure Dedicated (l : Lane) (base : ℤ) (om : OrderManager) : Prop where
  bounded : Bounded om
  pending : PendingBalanced om l.inst
  fits : ∀ id t, om.view ticket id = some t → l.Fits t
  net : (om.position l.inst).net = base + signedQty l.side (om.executed l.offset l.index)

section Lane

variable {l : Lane} {base : ℤ} {om om' : OrderManager}

/-- What a working order is a ticket of. -/
theorem ticket_of_works {id : OrderIdRaw} (h : om.Works id) : om.view ticket id =
    some ⟨(om.orderRef id).instrument, (om.orderRef id).side, (om.orderRef id).intData⟩ :=
  view_of_works ticket h

/-- A turn fits orders only, if it books any. -/
theorem Effect.fits (h : Effect l.policy om om')
    (hfits : ∀ id t, om.view ticket id = some t → l.Fits t) :
    ∀ id t, om'.view ticket id = some t → l.Fits t := by
  intro id t ht
  cases h with
  | idle h =>
    rw [h.view] at ht
    exact hfits id t ht
  | @fill k qty price trade ts haddr hworks href h =>
    rw [h.view, Function.update_apply] at ht
    split_ifs at ht
    · cases ht
      -- the order is filled further, and its ticket is the same
      have hold := ticket_of_works hworks
      rw [href] at hold
      exact hfits _ _ hold
    · exact hfits id t ht
  | close haddr h =>
    rw [h.view, Function.update_apply] at ht
    split_ifs at ht
    exact hfits id t ht
  | @place req k now hreq hfresh h =>
    rw [h.view, Function.update_apply] at ht
    split_ifs at ht
    · cases ht
      exact hreq.2
    · exact hfits id t ht

/-- A turn moves the position by what the algo's orders fill. -/
theorem Effect.net (h : Effect l.policy om om')
    (hfits : ∀ id t, om.view ticket id = some t → l.Fits t) :
    (om'.position l.inst).net - signedQty l.side (om'.executed l.offset l.index) =
      (om.position l.inst).net - signedQty l.side (om.executed l.offset l.index) := by
  cases h with
  | idle h => rw [h.position, h.executed]
  | @fill k qty price trade ts haddr hworks href h =>
    have hold := ticket_of_works hworks
    rw [href] at hold
    have hfit := hfits _ _ hold
    rw [h.position, h.executed]
    by_cases hinst : (om.orderRef k).instrument = l.inst
    · have hown : (om.orderRef k).retrieveIntData l.offset = l.index := hfit.own.1 hinst
      have hside : (om.orderRef k).side = l.side := hfit.side hinst
      rw [if_pos hinst.symm, if_pos hown, Position.net_apply, hside, signedQty_add]
      ring
    · have hown : ¬ (om.orderRef k).retrieveIntData l.offset = l.index :=
        fun hown => hinst (hfit.own.2 hown)
      rw [if_neg (Ne.symm hinst), if_neg hown, add_zero]
  | close haddr h => rw [h.position, h.executed]
  | place hreq hfresh h => rw [h.position, h.executed]

/-- **Every turn keeps the instrument to the algo.** -/
theorem dedicated_turn (hwf : om.WF) (hstamped : Stamped om) (h : Dedicated l base om)
    (hturn : Turn l.policy om om') : Dedicated l base om' := by
  have heffect := hturn.effect hwf hstamped
  have hsized : ∀ {om₁ om₂}, Change l.policy om₁ om₂ → Change sized om₁ om₂ := by
    intro om₁ om₂ hchange
    apply hchange.mono
    · exact fun _ hreq => hreq.1
    · exact id
    · exact fun _ _ => id
  obtain ⟨-, hbounded, hpending⟩ := Chain.invariant
    (I := fun om => Bounded om ∧ PendingBalanced om l.inst)
    (fun _ _ hwf h hchange => ⟨bounded_step hwf h.1 (hsized hchange),
      pendingBalanced_step hwf h.1 h.2 (hsized hchange)⟩)
    (hturn.chain hwf) hwf ⟨h.bounded, h.pending⟩
  refine ⟨hbounded, hpending, heffect.fits h.fits, ?_⟩
  have hnet := heffect.net h.fits
  rw [h.net] at hnet
  linarith

theorem dedicated_turns (hreg : om.Regular) (h : Dedicated l base om)
    (hturns : Turns l.policy om om') : Dedicated l base om' := by
  refine (Turns.invariant (I := fun om => Stamped om ∧ Dedicated l base om) ?_ hturns hreg.wf
    ⟨hreg.stamped, h⟩).2.2
  intro om₁ om₂ hwf ⟨hstamped, hdedicated⟩ hturn
  exact ⟨hturn.stamped hwf hstamped, dedicated_turn hwf hstamped hdedicated hturn⟩

end Lane

/-! ### What is pending -/

theorem signedQty_sum {ι : Type} (side : Side) (s : Finset ι) (f : ι → Quantity) :
    signedQty side (∑ i ∈ s, f i) = ∑ i ∈ s, signedQty side (f i) := by
  cases side
  · rfl
  · exact (Finset.sum_neg_distrib f).symm

/-- The ids of the working orders. -/
def OrderManager.workingIds (om : OrderManager) : Finset OrderIdRaw :=
  (Finset.range om.pool.capacity).image fun slot => (om.pool.slots slot).internalId

theorem OrderManager.Works.mem_workingIds {om : OrderManager} {id : OrderIdRaw}
    (h : om.Works id) : id ∈ om.workingIds := by
  have hlt := (OrderPool.isCurrent_iff.1 h.live.current).1
  exact Finset.mem_image.2 ⟨slotOf id, Finset.mem_range.2 hlt, h.own⟩

/-- **What is pending on the instrument is what the algo has in flight.** -/
theorem Dedicated.pending_eq {W : Type} {l : Lane} {base : ℤ} {om : OrderManager}
    {a : AlgoBase W} (hreg : om.Regular) (h : Dedicated l base om)
    (hbook : ∀ id, (om.childBook l.offset l.index).working id = a.rest id) :
    om.pendingQuantity l.inst = signedQty l.side a.inflight := by
  let ids := a.children.keys ∪ om.workingIds
  have hterm : ∀ id, (if om.Works id then openQty l.inst (om.orderRef id) else 0) =
      signedQty l.side ((a.rest id).getD 0) := by
    intro id
    rw [← hbook]
    change _ = signedQty l.side (((om.view (tagged l.offset) id).bind (ownRest l.index)).getD 0)
    by_cases hworks : om.Works id
    · have hfit := h.fits id _ (ticket_of_works hworks)
      rw [if_pos hworks, view_of_works _ hworks, Option.bind_some]
      unfold openQty ownRest tagged
      dsimp only
      by_cases hinst : (om.orderRef id).instrument = l.inst
      · have hown : (om.orderRef id).retrieveIntData l.offset = l.index := hfit.own.1 hinst
        have hside : (om.orderRef id).side = l.side := hfit.side hinst
        rw [if_pos hinst, if_pos hown, hside]
        rfl
      · have hown : ¬ (om.orderRef id).retrieveIntData l.offset = l.index :=
          fun hown => hinst (hfit.own.2 hown)
        rw [if_neg hinst, if_neg hown]
        exact (signedQty_zero l.side).symm
    · rw [if_neg hworks, view_of_not_works _ hworks]
      exact (signedQty_zero l.side).symm
  have hinflight : a.inflight = ∑ id ∈ ids, (a.rest id).getD 0 := by
    refine (Finset.sum_congr rfl fun id _ => term_children).trans
      (Finset.sum_subset Finset.subset_union_left fun id _ hnot => ?_)
    have hnone : a.rest id = none := by
      by_contra hne
      exact hnot (Finmap.mem_keys.2 (mem_children_iff.2 hne))
    rw [hnone]
    rfl
  have hids : ∀ id, om.Works id → id ∈ ids := fun id hworks =>
    Finset.mem_union_right _ hworks.mem_workingIds
  have hpending : om.pendingQuantity l.inst = om.pool.openSum (openQty l.inst) := h.pending
  rw [hpending, hreg.stamped.openSum_eq_sum hreg.wf _ hids, hinflight, signedQty_sum]
  exact Finset.sum_congr rfl fun id _ => hterm id

/-! ### Timer calls -/

/-- A policy allows the children of an algo. -/
structure AlgoBase.Asks {W : Type} (a : AlgoBase W) (P : Policy) : Prop where
  moves : P.moves
  request : ∀ qty price type, 0 < qty → P.request (a.childRequest qty price type)

section Asks

variable {W : Type} {E : Env W} {P : Policy} {s : State W}

theorem sendChild_asks {a : AlgoBase W} (h : a.Asks P) (qty : Quantity) (price : Price)
    (type : OrderType) : Turns P s.om (a.sendChild E qty price type s).2.2.om ∧
      (a.sendChild E qty price type s).2.1.Asks P := by
  unfold AlgoBase.sendChild
  split_ifs with hqty
  · exact ⟨.refl, h⟩
  have hsubmit : Turns P s.om (s.submit E (a.childRequest qty price type)).2.om :=
    submit_turns h.moves (h.request qty price type (not_le.1 hqty))
  dsimp only
  split_ifs
  · exact ⟨hsubmit, h.moves, h.request⟩
  · exact ⟨hsubmit, h⟩

namespace TwapAlgo

variable {a : TwapAlgo W} (h : a.Asks P)
include h

theorem fireSlice_asks : Turns P s.om (a.fireSlice E s).2.2.om ∧ (a.fireSlice E s).2.1.Asks P := by
  unfold fireSlice
  dsimp only
  split_ifs
  · exact ⟨.refl, h.moves, h.request⟩
  · exact sendChild_asks (E := E) (s := s) ⟨h.moves, h.request⟩ a.sliceQty a.parent.limit .Limit

omit h in
theorem fireSlices_asks (now : Timestamp) (rounds : ℕ) (a : TwapAlgo W) (h : a.Asks P)
    (s : State W) : Turns P s.om (a.fireSlices E now rounds s).2.om := by
  induction rounds generalizing a s with
  | zero => exact .refl
  | succ rounds ih =>
    unfold fireSlices
    split_ifs
    · obtain ⟨hturns, hasks⟩ := fireSlice_asks (E := E) (s := s) h
      exact hturns.trans (ih _ hasks _)
    · exact .refl

theorem deadlineCross_asks : Turns P s.om (a.deadlineCross E s).2.om := by
  have hcancel : Turns P s.om (a.cancel E s).om := cancelChildren_turns P
  unfold deadlineCross
  dsimp only
  split_ifs
  · exact .refl
  · -- the residual is sent after the warning is logged
    refine hcancel.trans ?_
    let s₁ : State W := { a.cancel E s with
      world := a.config.log .Warn
        ("TWAP deadline: crossing residual=" ++ toString (a.parent.qty - a.filled - a.inflight))
        (a.cancel E s).world }
    exact (sendChild_asks (E := E) (s := s₁) h (a.parent.qty - a.filled - a.inflight)
      (a.crossPrice s₁.world) .IOC).1
  · exact hcancel

/-- A timer call sends children of the algo only. -/
theorem onTimer_asks (now : Timestamp) : Turns P s.om (a.onTimer E now s).2.om := by
  unfold onTimer
  split_ifs
  · exact .refl
  · exact deadlineCross_asks h
  · exact fireSlices_asks now _ a h s

end TwapAlgo

end Asks

/-! ### Every run -/

/-- Other components submit orders of positive size, on other instruments and with other tags. -/
def AlgoOp.Apart (offset : ScratchOffset) (index : ℤ) (inst : InstrumentId) (op : AlgoOp) : Prop :=
  ∀ req, op = .oms (.submit req) → 0 < req.size ∧ req.instrument ≠ inst ∧
    ∀ id now, (req.stamp id now {}).retrieveIntData offset ≠ index

/-- The lane of a parent order. -/
def ParentOrder.lane {W : Type} (p : ParentOrder) (cfg : AlgoConfig W) : Lane :=
  ⟨p.instrument, p.side, cfg.workerOffset, cfg.workerIndex⟩

/-- The algo is sound, it alone trades the instrument, and it counts what its orders filled since
they had filled `before`. -/
structure OnCourse {B : Type} (cfg : AlgoConfig B) (p : ParentOrder) (base before : ℤ)
    (a : TwapAlgo B) (om : OrderManager) : Prop where
  sound : a.Sound cfg p (fun _ => none) (om.childBook cfg.workerOffset cfg.workerIndex)
  dedicated : Dedicated (p.lane cfg) base om
  counted : om.executed cfg.workerOffset cfg.workerIndex = before + a.filled
  nonneg : 0 ≤ a.filled

section Runs

variable {B : Type} {E : Env B} {cfg : AlgoConfig B} {p : ParentOrder} {base before : ℤ}
variable {s : State (B × TwapAlgo B)}

/-- The children of an algo that works the parent fit its lane. -/
theorem AlgoBase.Sound.asks {a : AlgoBase B} {outer : OrderIdRaw → Option Quantity}
    {c : ChildBook} (h : a.Sound cfg p outer c) : a.Asks (p.lane cfg).policy where
  moves := trivial
  request := fun qty price type hqty => by
    refine ⟨hqty, ?_⟩
    show (p.lane cfg).Fits ⟨a.parent.instrument, a.parent.side,
      scratch (a.config.workerOffset, a.config.workerIndex)⟩
    rw [h.parent, h.config]
    have htag : scratch (cfg.workerOffset, cfg.workerIndex) cfg.workerOffset = cfg.workerIndex :=
      Function.update_self ..
    exact ⟨iff_of_true rfl htag, fun _ => rfl⟩

/-- An algo counts every fill of its orders. -/
theorem heard_counted {a a' : TwapAlgo B} {c c' : ChildBook} (h : Heard c a c' a') :
    c'.executed - a'.filled = c.executed - a.filled ∧ a.filled ≤ a'.filled := by
  cases h with
  | nothing => exact ⟨rfl, le_refl _⟩
  | @fill o qty price hqty hrem hchild hstatus =>
    refine ⟨?_, ?_⟩
    · show c.executed + qty - (a.filled + qty) = _
      ring
    · show a.filled ≤ a.filled + qty
      linarith
  | reject =>
    refine ⟨?_, le_refl _⟩
    show c.executed + 0 - a.filled = _
    ring
  | cancel =>
    refine ⟨?_, le_refl _⟩
    show c.executed + 0 - a.filled = _
    ring

/-- A manager operation that keeps apart from the algo's instrument. -/
theorem Apart.allows {op : Op}
    (hop : (AlgoOp.oms op).Apart cfg.workerOffset cfg.workerIndex p.instrument) :
    (p.lane cfg).policy.Allows s op := by
  refine ⟨fun req heq => ⟨trivial, ?_⟩, fun _ _ => ⟨trivial, fun _ => trivial⟩⟩
  obtain ⟨hsize, hinst, htag⟩ := hop req (congrArg _ heq)
  exact ⟨hsize, iff_of_false hinst (htag 0 0), fun heq => absurd heq hinst⟩

/-- **One operation** keeps the algo on course. -/
theorem step_onCourse (hreg : s.om.Regular) {op : AlgoOp}
    (hop : op.Apart cfg.workerOffset cfg.workerIndex p.instrument)
    (h : Unwrapped s.om → OnCourse cfg p base before s.world.2 s.om) :
    let s' := (algoMachine E cfg.workerOffset cfg.workerIndex).step s op
    s'.om.Regular ∧ (Unwrapped s'.om → OnCourse cfg p base before s'.world.2 s'.om) := by
  intro s'
  cases op with
  | oms op =>
    have hchain : Chain {} s.om s'.om := step_chain hreg.wf op
    refine ⟨hreg.chain hchain, fun hunwrapped => ?_⟩
    have hcourse := h (hchain.unwrapped hreg.wf hunwrapped)
    have hheard : Heard (s.om.childBook cfg.workerOffset cfg.workerIndex) s.world.2
        (s'.om.childBook cfg.workerOffset cfg.workerIndex) s'.world.2 :=
      step_heard hreg fun req heq => (hop req heq).2.2
    obtain ⟨hcounted, hmore⟩ := heard_counted hheard
    refine ⟨TwapAlgo.heard_sound hcourse.sound hheard,
      dedicated_turns hreg hcourse.dedicated (step_turns (Apart.allows hop)), ?_,
      hcourse.nonneg.trans hmore⟩
    have hbefore := hcourse.counted
    change s'.om.executed cfg.workerOffset cfg.workerIndex - s'.world.2.filled =
      s.om.executed cfg.workerOffset cfg.workerIndex - s.world.2.filled at hcounted
    linarith
  | timer now =>
    let s₀ : State B := ⟨s.om, s.world.1⟩
    have hsteady := TwapAlgo.onTimer_steady (E := E) now (a := s.world.2) (s := s₀) (p := p)
      hreg ⟨.refl, rfl, fun hunwrapped => (h hunwrapped).sound⟩
    refine ⟨hreg.chain hsteady.chain, fun hunwrapped => ?_⟩
    have hcourse := h (hsteady.chain.unwrapped hreg.wf hunwrapped)
    have hfilled : s'.world.2.filled = s.world.2.filled :=
      TwapAlgo.onTimer_filled (E := E) (s := s₀)
    have hturns : Turns (p.lane cfg).policy s.om s'.om :=
      TwapAlgo.onTimer_asks (E := E) (s := s₀) hcourse.sound.asks now
    refine ⟨hsteady.sound hunwrapped, dedicated_turns hreg hcourse.dedicated hturns, ?_, ?_⟩
    · rw [hfilled]
      exact hsteady.executed.trans hcourse.counted
    · rw [hfilled]
      exact hcourse.nonneg
  | cancel =>
    let s₀ : State B := ⟨s.om, s.world.1⟩
    have hchain : ∀ P, Chain P s.om s'.om := fun P =>
      cancelChildren_chain (E := E) (a := s.world.2.toAlgoBase) (s := s₀) P
    have hturns : Turns (p.lane cfg).policy s.om s'.om :=
      cancelChildren_turns (E := E) (a := s.world.2.toAlgoBase) (s := s₀) _
    refine ⟨hreg.chain (hchain {}), fun hunwrapped => ?_⟩
    have hcourse := h ((hchain {}).unwrapped hreg.wf hunwrapped)
    have hidle := (hchain still).idle hreg.wf hreg.stamped
    refine ⟨?_, dedicated_turns hreg hcourse.dedicated hturns,
      (hidle.executed _ _).trans hcourse.counted, hcourse.nonneg⟩
    rw [childBook_idle hidle]
    exact hcourse.sound

/-- The algo starts on course where nothing works on its instrument or under its tag. -/
theorem onCourse_start (hqty : 0 ≤ p.qty) {om : OrderManager} (hbounded : Bounded om)
    (hpending : PendingBalanced om p.instrument)
    (hidle : ∀ slot, om.pool.Working slot → (om.pool.slots slot).instrument ≠ p.instrument ∧
      (om.pool.slots slot).retrieveIntData cfg.workerOffset ≠ cfg.workerIndex) :
    let before := om.executed cfg.workerOffset cfg.workerIndex
    OnCourse cfg p ((om.position p.instrument).net - signedQty p.side before) before
      (TwapAlgo.start { config := cfg } p) om := by
  intro before
  have hother : ∀ id, om.Works id → (om.orderRef id).instrument ≠ p.instrument ∧
      (om.orderRef id).retrieveIntData cfg.workerOffset ≠ cfg.workerIndex := fun id hworks =>
    hidle (slotOf id) ⟨hworks.live.allocated, hworks.live.isOpen⟩
  refine ⟨⟨rfl, rfl, ⟨fun id => ?_, fun _ => Or.inl rfl⟩, nofun, ?_, nofun⟩,
    ⟨hbounded, hpending, fun id t ht => ?_, (sub_add_cancel _ _).symm⟩, (add_zero _).symm, le_rfl⟩
  · show (om.view _ id).bind _ = none
    by_cases hworks : om.Works id
    · rw [view_of_works _ hworks]
      exact if_neg (hother id hworks).2
    · rw [view_of_not_works _ hworks]
      rfl
  · show 0 + Finmap.sumOver ∅ _ ≤ p.qty
    rw [Finmap.sumOver_empty, add_zero]
    exact hqty
  · by_cases hworks : om.Works id
    · rw [ticket_of_works hworks] at ht
      cases ht
      obtain ⟨hinst, htag⟩ := hother id hworks
      exact ⟨iff_of_false hinst htag, fun heq => absurd heq hinst⟩
    · rw [view_of_not_works _ hworks] at ht
      cases ht

end Runs

/-- What lies between nothing and a whole, on the way to the target. -/
theorem mem_uIcc_signedQty (origin : ℤ) (side : Side) {q qty : Quantity} (hnonneg : 0 ≤ q)
    (hle : q ≤ qty) :
    origin + signedQty side q ∈ Set.uIcc origin (origin + signedQty side qty) := by
  rw [Set.mem_uIcc]
  cases side
  · left
    change origin ≤ origin + q ∧ origin + q ≤ origin + qty
    constructor <;> linarith
  · right
    change origin + -qty ≤ origin + -q ∧ origin + -q ≤ origin
    constructor <;> linarith

/-- The parent is the delta, split into a direction and a size. -/
theorem rebalanceParent_qty (inst : InstrumentId) (delta : Quantity) (start window : Timestamp)
    (b : TopOfBook) :
    let p := rebalanceParent inst delta start window b
    0 ≤ p.qty ∧ signedQty p.side p.qty = delta := by
  unfold rebalanceParent
  by_cases hpos : 0 < delta
  · simp [hpos, hpos.le, signedQty]
  · simp [hpos, not_lt.1 hpos, signedQty]

/-- **A rebalance by TWAP stays on course.** From every state without a working order on the
instrument or under the algo's tag, let a TWAP work the execution delta, whatever its configuration,
its window and the book. In every run in which others trade other instruments under other tags,
whatever the venues answer and whenever the timer is called: the position has moved by what the algo
says is filled, what is pending is what it says is in flight, neither the position nor both together
ever leave the way to the target, and an algo that is done without complaint has arrived there. -/
theorem twap_on_course {B : Type} (E : Env B) (cfg : AlgoConfig B) {s : State B}
    (hs : Reached E sized s) (inst : InstrumentId) (target : Quantity)
    (hidle : ∀ slot, s.om.pool.Working slot → (s.om.pool.slots slot).instrument ≠ inst ∧
      (s.om.pool.slots slot).retrieveIntData cfg.workerOffset ≠ cfg.workerIndex)
    (start window : Timestamp) (b : TopOfBook) {ops : List AlgoOp}
    (hops : ∀ op ∈ ops, op.Apart cfg.workerOffset cfg.workerIndex inst) :
    let origin := (s.om.position inst).net
    let p := rebalanceParent inst (s.om.executionDelta inst target) start window b
    let s' := (algoMachine E cfg.workerOffset cfg.workerIndex).run
      ⟨s.om, s.world, TwapAlgo.start { config := cfg } p⟩ ops
    let a := s'.world.2
    let net := (s'.om.position inst).net
    let pending := s'.om.pendingQuantity inst
    Unwrapped s'.om →
      net = origin + signedQty p.side a.filled ∧ pending = signedQty p.side a.inflight ∧
      net ∈ Set.uIcc origin target ∧ net + pending ∈ Set.uIcc origin target ∧
      (a.done = true → a.stats.incompleteAtDeadline = false → net = target ∧ pending = 0) := by
  intro origin p s' a net pending hunwrapped
  obtain ⟨hqty, hdelta⟩ := rebalanceParent_qty inst (s.om.executionDelta inst target) start window b
  have hreg : s.om.Regular := ⟨hs.wf, hs.stamped, (hs.invariant begun_init fun _ _ => begun_step).2⟩
  let before := s.om.executed cfg.workerOffset cfg.workerIndex
  have hstart : OnCourse cfg p (origin - signedQty p.side before) before
      (TwapAlgo.start { config := cfg } p) s.om :=
    onCourse_start hqty hs.bounded (hs.pendingBalanced inst) hidle
  -- the algo is on course after every run
  let I : State (B × TwapAlgo B) → Prop := fun s => s.om.Regular ∧
    (Unwrapped s.om → OnCourse cfg p (origin - signedQty p.side before) before s.world.2 s.om)
  have hinit : I ⟨s.om, s.world, TwapAlgo.start { config := cfg } p⟩ := ⟨hreg, fun _ => hstart⟩
  have hrun : I s' := Machine.run_invariant (I := I)
    (G := fun _ op => AlgoOp.Apart cfg.workerOffset cfg.workerIndex inst op)
    (fun s op h hop => step_onCourse (E := E) h.1 hop h.2) hinit (Machine.admits_of_forall hops)
  have hcourse : OnCourse cfg p (origin - signedQty p.side before) before a s'.om :=
    hrun.2 hunwrapped
  have hnone : s.om.pendingQuantity inst = 0 := by
    rw [hs.pendingBalanced inst, OrderPool.openSum_openQty]
    apply Finset.sum_eq_zero
    intro slot hslot
    obtain ⟨-, hworking, hinst⟩ := Finset.mem_filter.1 hslot
    exact absurd hinst (hidle slot hworking).1
  have htarget : target = origin + signedQty p.side p.qty := by
    rw [hdelta]
    unfold executionDelta
    rw [hnone]
    show target = origin + (target - (origin + 0))
    ring
  have hnet : net = origin + signedQty p.side a.filled := by
    refine hcourse.dedicated.net.trans ?_
    show origin - signedQty p.side before +
      signedQty p.side (s'.om.executed cfg.workerOffset cfg.workerIndex) = _
    rw [hcourse.counted, signedQty_add]
    ring
  have hpending : pending = signedQty p.side a.inflight :=
    hcourse.dedicated.pending_eq hrun.1 fun id => hcourse.sound.splits.working_inner rfl
  have hbound := hcourse.sound.bound
  have hnonneg := hcourse.nonneg
  have hinflight := hcourse.sound.positive.inflight_nonneg
  refine ⟨hnet, hpending, ?_, ?_, fun hdone hcomplete => ?_⟩
  · rw [hnet, htarget]
    exact mem_uIcc_signedQty origin p.side hnonneg (by linarith)
  · rw [hnet, hpending, htarget, add_assoc, ← signedQty_add]
    exact mem_uIcc_signedQty origin p.side (by linarith) hbound
  · obtain ⟨hzero, hfull | hincomplete⟩ := hcourse.sound.finished hdone
    · refine ⟨?_, ?_⟩
      · rw [hnet, hfull, htarget]
      · rw [hpending, hzero, signedQty_zero]
    · rw [hcomplete] at hincomplete
      cases hincomplete

/-- From a flat position to ten, in two slices, the first of which is filled in part. -/
theorem twap_on_course_two_slices :
    let p := rebalanceParent 3 10 0 10 { ask := 5 }
    let s := (algoMachine (A := TwapAlgo) acceptingEnv 0 7).run
      ⟨(acceptingRun []).om, (), TwapAlgo.start { config := twapConfig } p⟩
      [.timer 0, .oms (.fill 1 2 5 9 0), .timer 5]
    (s.om.position 3).net = 2 ∧
      (s.om.position 3).net + s.om.pendingQuantity 3 ∈ Set.uIcc (0 : ℤ) 10 := by
  have hstart : Reached acceptingEnv sized (acceptingRun []) :=
    acceptingRun_reached trivial (by simp) fun _ _ => trivial
  have hops : ∀ op ∈ [.timer 0, .oms (.fill 1 2 5 9 0), .timer 5], AlgoOp.Apart 0 7 3 op := by
    simp [AlgoOp.Apart]
  have hall := twap_on_course acceptingEnv twapConfig hstart 3 10
    (fun slot hworking => absurd hworking.1 (by simp [acceptingRun, init, OrderPool.init]))
    0 10 { ask := 5 } hops fun _ => Nat.zero_lt_succ 65535
  exact ⟨hall.1.trans (by decide), hall.2.2.2.1⟩

end Oms
