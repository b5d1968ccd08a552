import Mathlib.Order.Interval.Set.UnorderedInterval
import Oms.OrderManager.Books
import Oms.OrderManager.FailedSubmit
import Oms.OrderManager.World

/-!
# Sizing orders by the execution delta

A caller steers an instrument to a target by the execution delta: the target minus the position and
what is pending.

* `submit_reserves`: a submit books at most one order, in the very state it is called in;
* `Sizes`: a request on the instrument asks for at most the delta of that state, in its direction;
* `Approaching`: the position has come towards the target, what is pending leads on towards it, and
  no further; `approaching_step`: so it is after every change that books no order;
* `never_overshoots`: whatever the venues answer, the position stays between where it was and the
  target, in every state of a run.
-/

namespace Oms

open OrderManager

/-- The side counts twice or not at all. -/
theorem signedQty_signedQty (side : Side) (q : Quantity) :
    signedQty side (signedQty side q) = q := by
  cases side
  · rfl
  · exact neg_neg q

/-! ### A submit books at most one order -/

/-- Nothing is submitted. -/
def unsent : Policy := { request := fun _ => False }

/-- A change that keeps a policy keeps a weaker one. -/
theorem Change.mono {P P' : Policy} (hreq : ∀ req, P.request req → P'.request req)
    (hmoves : P.moves → P'.moves) (haddr : ∀ k id, P.addresses k id → P'.addresses k id)
    {om om' : OrderManager} (h : Change P om om') : Change P' om om' := by
  cases h with
  | quiet d => exact .quiet om d
  | forgive id => exact .forgive om id
  | touch hlive hf => exact .touch hlive hf
  | fill hm ha hok => exact .fill (hmoves hm) (haddr _ _ ha) hok
  | settle hm hlive hf => exact .settle (hmoves hm) hlive hf
  | expect ha hended => exact .expect (haddr _ _ ha) hended
  | shelve hended => exact .shelve hended
  | releaseHead hfifo => exact .releaseHead hfifo
  | reserve hr hres => exact .reserve (hreq _ hr) hres

section Submit

variable {W : Type} {E : Env W} {s : State W}

/-- A submit books no order, or it books one first, in the state it is called in. -/
theorem submit_reserves (h : s.om.WF) (req : OrderRequest) :
    Chain unsent s.om (s.submit E req).2.om ∨
      ∃ venue now id om, s.om.reserve req venue now = some (id, om) ∧
        Chain unsent om (s.submit E req).2.om := by
  rcases submit_cases E.canceller_true s req with ⟨-, -, hchain⟩ | ⟨venue, ex, w, hplacing⟩
  · left
    exact hchain unsent
  · rw [hplacing.place]
    unfold State.place
    dsimp only
    split
    · left
      exact .refl
    · rename_i id om hres
      right
      refine ⟨venue, _, id, om, hres, ?_⟩
      obtain ⟨pool, hacq, hid, rfl⟩ := h.reserve_cases hres
      split_ifs
      · exact .single (.touch (h.booked_live hacq hid) (Order.markSent_touch _))
      · have hlive := @WF.booked_live s.om id req venue (E.clock w) pool hacq h _ hid
        apply close_chain trivial (h.booked hacq) hlive Order.failSend_closing rfl
        all_goals rw [booked_orderRef]
        · rfl
        · exact sub_zero _
        · rfl

/-- No other operation books one. -/
theorem step_unsent (h : s.om.WF) {op : Op} (hop : ∀ req, op ≠ .submit req) :
    Chain unsent s.om (s.step E op).om := by
  apply step_changes h
  constructor
  · intro req heq
    exact absurd heq (hop req)
  · intro id _
    exact ⟨trivial, fun _ => trivial⟩

end Submit

/-! ### Towards the target -/

/-- The request asks for no more than the delta, in its direction. -/
def OrderRequest.Within (req : OrderRequest) (delta : Quantity) : Prop :=
  (req.side = .Buy ∧ req.size ≤ delta) ∨ (req.side = .Sell ∧ req.size ≤ -delta)

/-- Requests on the instrument are sized by its execution delta. -/
def Sizes {W : Type} (inst : InstrumentId) (target : Quantity) (s : State W) (op : Op) : Prop :=
  ∀ req, op = .submit req → 0 < req.size ∧
    (req.instrument = inst → req.Within (s.om.executionDelta inst target))

/-- The position has come from `origin` towards the target by orders of one side, and what is
pending does not lead past it. -/
structure Approaching (inst : InstrumentId) (side : Side) (origin target : Quantity)
    (om : OrderManager) : Prop where
  bounded : Bounded om
  pending : PendingBalanced om inst
  oneSided : ∀ slot, om.pool.Working slot → (om.pool.slots slot).instrument = inst →
    (om.pool.slots slot).side = side
  come : 0 ≤ signedQty side ((om.position inst).net - origin)
  left : 0 ≤ signedQty side (om.executionDelta inst target)

section Approaching

variable {inst : InstrumentId} {side : Side} {origin target : Quantity} {om om' : OrderManager}

/-- What is pending leads the same way. -/
theorem Approaching.pending_nonneg (hwf : om.WF) (h : Approaching inst side origin target om) :
    0 ≤ signedQty side (om.pendingQuantity inst) := by
  have hterm : ∀ slot ∈ om.pool.workingOn inst,
      0 ≤ signedQty side
        (signedQty (om.pool.slots slot).side (om.pool.slots slot).remaining) := by
    intro slot hslot
    obtain ⟨-, hworking, hinst⟩ := Finset.mem_filter.1 hslot
    have hbound := (h.bounded _ (hwf.pool.slot_mem_created hworking.1)).2
    have hrem : 0 ≤ (om.pool.slots slot).remaining := sub_nonneg.2 hbound
    rw [h.oneSided slot hworking hinst, signedQty_signedQty]
    exact hrem
  have hsum : om.pendingQuantity inst = _ := h.pending.trans (OrderPool.openSum_openQty _ _)
  have hnonneg := Finset.sum_nonneg hterm
  rw [hsum]
  cases side
  · exact hnonneg
  · show 0 ≤ -∑ slot ∈ om.pool.workingOn inst, _
    rw [← Finset.sum_neg_distrib]
    exact hnonneg

/-- Writing a working order that keeps its instrument and its side. -/
theorem Approaching.oneSided_modify (h : Approaching inst side origin target om) {id : OrderIdRaw}
    (hlive : om.Live id) {f : Order → Order}
    (hf : ∀ o : Order, (f o).instrument = o.instrument ∧ (f o).side = o.side) :
    ∀ slot, (om.pool.modify (slotOf id) f).Working slot →
      ((om.pool.modify (slotOf id) f).slots slot).instrument = inst →
      ((om.pool.modify (slotOf id) f).slots slot).side = side := by
  intro slot hworking hinst
  by_cases hslot : slot = slotOf id
  · subst hslot
    rw [OrderPool.modify_slots_self, (hf _).1] at hinst
    rw [OrderPool.modify_slots_self, (hf _).2]
    exact h.oneSided _ ⟨hlive.allocated, hlive.isOpen⟩ hinst
  · rw [OrderPool.working_modify_of_ne hslot] at hworking
    rw [OrderPool.modify_slots_of_ne hslot] at hinst ⊢
    exact h.oneSided slot hworking hinst

theorem net_applyFill (om : OrderManager) (id : OrderIdRaw) (qty : Quantity) (price : Price)
    (trade : TradeId) (ts : Timestamp) :
    ((om.applyFill id qty price trade ts).position inst).net = (om.position inst).net +
      if inst = (om.orderRef id).instrument then signedQty (om.orderRef id).side qty else 0 := by
  show (Finmap.get (om.positions.insert (om.orderRef id).instrument _) inst).net = _
  rw [Finmap.get_insert]
  split_ifs with hinst
  · subst hinst
    rfl
  · rw [add_zero]
    rfl

theorem pending_applyFill (om : OrderManager) (id : OrderIdRaw) (qty : Quantity) (price : Price)
    (trade : TradeId) (ts : Timestamp) :
    (om.applyFill id qty price trade ts).pendingQuantity inst = om.pendingQuantity inst +
      if inst = (om.orderRef id).instrument then -signedQty (om.orderRef id).side qty else 0 :=
  Finmap.get_adjust _ _ _ _

/-- A fill turns what is pending into position, and leaves the delta as it is. -/
theorem executionDelta_applyFill (om : OrderManager) (id : OrderIdRaw) (qty : Quantity)
    (price : Price) (trade : TradeId) (ts : Timestamp) :
    (om.applyFill id qty price trade ts).executionDelta inst target =
      om.executionDelta inst target := by
  unfold executionDelta
  rw [net_applyFill, pending_applyFill]
  split_ifs <;> ring

/-- The end of an order leaves more to go. -/
theorem executionDelta_settle {id : OrderIdRaw}
    (hbound : (om.orderRef id).filledSize ≤ (om.orderRef id).size) (f : Order → Order) :
    (om.settle id f).executionDelta inst target =
      om.executionDelta inst target + openQty inst (om.orderRef id) := by
  unfold executionDelta
  rw [pending_settle hbound]
  show target - ((om.position inst).net + _) = _
  ring

/-- What books no order leads towards the target, and no further. -/
theorem approaching_step (hwf : om.WF) (h : Approaching inst side origin target om)
    (hchange : Change unsent om om') : Approaching inst side origin target om' := by
  have hsized : Change sized om om' := by
    apply hchange.mono
    · intro req hreq
      exact False.elim hreq
    · exact id
    · exact fun _ _ => id
  have hbounded := bounded_step hwf h.bounded hsized
  have hpending := pendingBalanced_step hwf h.bounded h.pending hsized
  cases hchange with
  | quiet d => exact ⟨hbounded, hpending, h.oneSided, h.come, h.left⟩
  | forgive id => exact ⟨hbounded, hpending, h.oneSided, h.come, h.left⟩
  | touch hlive hf =>
    refine ⟨hbounded, hpending, ?_, h.come, h.left⟩
    exact h.oneSided_modify hlive fun o => ⟨(hf.keeps o).instrument, (hf.keeps o).side⟩
  | @fill id qty price trade ts hmoves haddr hok =>
    obtain ⟨hcur, hopen, -, hqty, -⟩ := validate_fill_ok_iff.1 hok
    have hlive : om.Live id := ⟨hcur, hopen⟩
    refine ⟨hbounded, hpending, h.oneSided_modify hlive fun o => ⟨rfl, rfl⟩, ?_, ?_⟩
    · rw [net_applyFill]
      split_ifs with hinst
      · -- the order is of the one side, so its fill comes further
        have hside := h.oneSided _ ⟨hlive.allocated, hopen⟩ hinst.symm
        change (om.orderRef id).side = side at hside
        rw [hside]
        rw [add_sub_right_comm, signedQty_add, signedQty_signedQty]
        exact add_nonneg h.come hqty.le
      · rw [add_zero]
        exact h.come
    · rw [executionDelta_applyFill]
      exact h.left
  | @settle id f hmoves hlive hf =>
    have hbound := (h.bounded.orderRef hwf hlive.current).2
    refine ⟨hbounded, hpending, ?_, h.come, ?_⟩
    · exact h.oneSided_modify hlive fun o => ⟨(hf.keeps o).instrument, (hf.keeps o).side⟩
    · rw [executionDelta_settle hbound, signedQty_add]
      apply add_nonneg h.left
      unfold openQty
      split_ifs with hinst
      · have hside := h.oneSided _ ⟨hlive.allocated, hlive.isOpen⟩ hinst
        change (om.orderRef id).side = side at hside
        rw [hside]
        have hrem : 0 ≤ (om.orderRef id).remaining := sub_nonneg.2 hbound
        rw [signedQty_signedQty]
        exact hrem
      · rw [signedQty_zero]
  | expect haddr hended => exact ⟨hbounded, hpending, h.oneSided, h.come, h.left⟩
  | shelve hended => exact ⟨hbounded, hpending, h.oneSided, h.come, h.left⟩
  | releaseHead hfifo =>
    refine ⟨hbounded, hpending, fun slot hworking hinst => ?_, h.come, h.left⟩
    exact h.oneSided slot ⟨(OrderPool.allocated_of_release hworking.1).2, hworking.2⟩ hinst
  | reserve hreq hres => exact hreq.elim

/-- A request within the delta is of the one side. -/
theorem Approaching.within (h : Approaching inst side origin target om) {req : OrderRequest}
    (hsize : 0 < req.size) (hwithin : req.Within (om.executionDelta inst target)) :
    req.side = side ∧ req.size ≤ signedQty side (om.executionDelta inst target) := by
  have hleft := h.left
  rcases hwithin with ⟨hreq, hle⟩ | ⟨hreq, hle⟩
  · rw [hreq]
    cases side
    · exact ⟨rfl, hle⟩
    · change 0 ≤ -om.executionDelta inst target at hleft
      exfalso
      linarith
  · rw [hreq]
    cases side
    · change 0 ≤ om.executionDelta inst target at hleft
      exfalso
      linarith
    · exact ⟨rfl, hle⟩

/-- Booking an order that is sized by the delta leads towards the target, and no further. -/
theorem approaching_reserve (hwf : om.WF) (h : Approaching inst side origin target om)
    {req : OrderRequest} {venue : VenueId} {now : Timestamp} {id : OrderIdRaw}
    (hsize : 0 < req.size)
    (hwithin : req.instrument = inst → req.Within (om.executionDelta inst target))
    (hres : om.reserve req venue now = some (id, om')) :
    Approaching inst side origin target om' := by
  have hchange : Change sized om om' := .reserve hsize hres
  have hbounded := bounded_step hwf h.bounded hchange
  have hpending := pendingBalanced_step hwf h.bounded h.pending hchange
  obtain ⟨pool, hacq, -, rfl⟩ := hwf.reserve_cases hres
  have hposition : (om.booked req venue now id pool).position inst = om.position inst :=
    position_entry om.positions req.instrument inst
  have hadded : (om.booked req venue now id pool).pendingQuantity inst =
      om.pendingQuantity inst +
        if inst = req.instrument then signedQty req.side req.size else 0 :=
    Finmap.get_adjust _ _ _ _
  refine ⟨hbounded, hpending, fun slot hworking hinst => ?_, ?_, ?_⟩
  · obtain ⟨rest, -, rfl⟩ := OrderPool.acquire_cases hacq
    by_cases hslot : slot = slotOf id
    · subst hslot
      simp only [booked, OrderPool.modify_slots_self, OrderRequest.stamp, Order.storeIntData]
        at hinst ⊢
      exact (h.within hsize (hwithin hinst)).1
    · simp only [booked, OrderPool.Working, OrderPool.modify, ne_eq, hslot, not_false_eq_true,
        Function.update_of_ne] at hworking hinst ⊢
      exact h.oneSided slot hworking hinst
  · rw [hposition]
    exact h.come
  · unfold executionDelta
    rw [hposition, hadded]
    split_ifs with hinst
    · obtain ⟨hside, hle⟩ := h.within hsize (hwithin hinst.symm)
      have hleft : target - ((om.position inst).net +
          (om.pendingQuantity inst + signedQty req.side req.size)) =
            om.executionDelta inst target - signedQty req.side req.size := by
        unfold executionDelta
        ring
      rw [hleft, hside, signedQty_sub, signedQty_signedQty]
      exact sub_nonneg.2 hle
    · rw [add_zero]
      exact h.left

end Approaching

/-! ### Every run -/

section Runs

variable {W : Type} {E : Env W} {inst : InstrumentId} {side : Side} {origin target : Quantity}
variable {s : State W}

/-- Every operation whose requests are sized by the delta leads towards the target. -/
theorem step_approaching {op : Op} (hop : Sizes inst target s op)
    (h : s.om.WF ∧ Approaching inst side origin target s.om) :
    (s.step E op).om.WF ∧ Approaching inst side origin target (s.step E op).om := by
  obtain ⟨hwf, happroach⟩ := h
  by_cases hsubmit : ∃ req, op = .submit req
  · obtain ⟨req, rfl⟩ := hsubmit
    obtain ⟨hsize, hwithin⟩ := hop req rfl
    rcases submit_reserves hwf req with hchain | ⟨venue, now, id, om, hres, hchain⟩
    · exact hchain.invariant (fun _ _ => approaching_step) hwf happroach
    · have hbooked : om.WF := (Change.reserve (P := {}) trivial hres).wf hwf
      have hfirst := approaching_reserve hwf happroach hsize hwithin hres
      exact hchain.invariant (fun _ _ => approaching_step) hbooked hfirst
  · have hchain := step_unsent (E := E) hwf fun req heq => hsubmit ⟨req, heq⟩
    exact hchain.invariant (fun _ _ => approaching_step) hwf happroach

/-- The target lies on one side of where the position is. -/
theorem exists_towards (origin target : Quantity) :
    ∃ side, 0 ≤ signedQty side (target - origin) := by
  rcases le_total origin target with hle | hle
  · exact ⟨.Buy, sub_nonneg.2 hle⟩
  · refine ⟨.Sell, ?_⟩
    show 0 ≤ -(target - origin)
    linarith

/-- What has come, and is left to go, lies between where it was and the target. -/
theorem Approaching.mem_uIcc {om : OrderManager} (hwf : om.WF)
    (h : Approaching inst side origin target om) :
    (om.position inst).net ∈ Set.uIcc origin target ∧
      (om.position inst).net + om.pendingQuantity inst ∈ Set.uIcc origin target := by
  have hcome := h.come
  have hleft := h.left
  have hpending := h.pending_nonneg hwf
  unfold executionDelta at hleft
  simp only [Set.mem_uIcc]
  cases side
  · change 0 ≤ (om.position inst).net - origin at hcome
    change 0 ≤ target - ((om.position inst).net + om.pendingQuantity inst) at hleft
    change 0 ≤ om.pendingQuantity inst at hpending
    constructor
    · left
      constructor <;> linarith
    · left
      constructor <;> linarith
  · change 0 ≤ -((om.position inst).net - origin) at hcome
    change 0 ≤ -(target - ((om.position inst).net + om.pendingQuantity inst)) at hleft
    change 0 ≤ -om.pendingQuantity inst at hpending
    constructor
    · right
      constructor <;> linarith
    · right
      constructor <;> linarith

/-- **Sizing by the execution delta never overshoots.** From a state without a working order on the
instrument, in every run whose requests on it ask for at most the delta of their moment, the
position stays between where it was and the target, and so does the position with what is pending:
whatever the venues accept, fill, reject, cancel or leave unanswered, in any order. -/
theorem never_overshoots (hs : Reached E sized s) (inst : InstrumentId) (target : Quantity)
    (hidle : ∀ slot, s.om.pool.Working slot → (s.om.pool.slots slot).instrument ≠ inst)
    {ops : List Op} (hops : (machine E).Admits (Sizes inst target) s ops) :
    let om := ((machine E).run s ops).om
    (om.position inst).net ∈ Set.uIcc (s.om.position inst).net target ∧
      (om.position inst).net + om.pendingQuantity inst ∈
        Set.uIcc (s.om.position inst).net target := by
  intro om
  obtain ⟨side, hside⟩ := exists_towards (s.om.position inst).net target
  have hnone : s.om.pendingQuantity inst = 0 := by
    rw [hs.pendingBalanced inst, OrderPool.openSum_openQty]
    apply Finset.sum_eq_zero
    intro slot hslot
    obtain ⟨-, hworking, hinst⟩ := Finset.mem_filter.1 hslot
    exact absurd hinst (hidle slot hworking)
  have hstart : Approaching inst side (s.om.position inst).net target s.om := by
    refine ⟨hs.bounded, hs.pendingBalanced inst, fun slot hworking hinst => ?_, ?_, ?_⟩
    · exact absurd hinst (hidle slot hworking)
    · rw [sub_self, signedQty_zero]
    · unfold executionDelta
      rw [hnone, add_zero]
      exact hside
  have hall : om.WF ∧ Approaching inst side (s.om.position inst).net target om :=
    Machine.run_invariant
      (I := fun s : State W => s.om.WF ∧ Approaching inst side _ target s.om)
      (fun s op h hop => step_approaching hop h) ⟨hs.wf, hstart⟩ hops
  exact hall.2.mem_uIcc hall.1

end Runs

/-- A buy of what is missing, filled in part, then cancelled, then the rest. -/
def steeredOps : List Op :=
  [.submit { instrument := 7, size := 10, price := 5 }, .fill 1 4 5 9 0, .cancelAck 1 0,
    .submit { instrument := 7, size := 6, price := 5 }]

/-- On the way from zero to ten the position never leaves the range. -/
theorem never_overshoots_steered :
    (((acceptingRun steeredOps).om.position 7).net ∈ Set.uIcc 0 10) ∧
      ((acceptingRun steeredOps).om.position 7).net +
        (acceptingRun steeredOps).om.pendingQuantity 7 ∈ Set.uIcc 0 10 := by
  have hstart : Reached acceptingEnv sized (acceptingRun []) :=
    acceptingRun_reached trivial (by simp) fun _ _ => trivial
  refine never_overshoots hstart 7 10 ?_ ?_
  · intro slot hworking
    exact absurd hworking.1 (by simp [acceptingRun, init, OrderPool.init])
  · have hsized : ∀ (s : State Unit) (size : Quantity), 0 < size →
        size ≤ s.om.executionDelta 7 10 →
        Sizes 7 10 s (.submit { instrument := 7, size := size, price := 5 }) := by
      rintro s size hpos hle req ⟨⟩
      exact ⟨hpos, fun _ => Or.inl ⟨rfl, hle⟩⟩
    refine ⟨hsized _ 10 (by decide) (by decide), fun _ h => Op.noConfusion h,
      fun _ h => Op.noConfusion h, hsized _ 6 (by decide) ?_, trivial⟩
    decide

end Oms
