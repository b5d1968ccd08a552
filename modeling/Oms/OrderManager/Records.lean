import Mathlib.Tactic.Linarith
import Oms.OrderManager.Books
import Oms.OrderManager.Stored

/-!
# Order records

The status of an order, its filled size and its flags describe one life.

* `Order.Consistent`: how they fit together;
* `Order.Working.consistent`, `addFill_consistent`, `Order.Ending.consistent`: the writes of the
  handlers keep them so;
* `records_consistent`: in every run every stored order is consistent.
-/

namespace Oms

open OrderManager

namespace Order

/-- The fields of an order describe one life. -/
structure Consistent (o : Order) : Prop where
  size_pos : 0 < o.size
  filled_nonneg : 0 ≤ o.filledSize
  filled_le : o.filledSize ≤ o.size
  filled_iff : o.status = .Filled ↔ o.filledSize = o.size
  unfilled : o.status = .New ∨ o.status = .Sent ∨ o.status = .Confirmed → o.filledSize = 0
  partly : o.status = .PartiallyFilled → 0 < o.filledSize
  sentCancel : o.status = .SentCancel → o.pendingCancel = true
  cancelled : o.status = .Cancelled → o.pendingCancel = false
  total_nonneg : 0 ≤ o.totalFillAmount
  total_iff : 0 < o.totalFillAmount ↔ 0 < o.filledSize

variable {o : Order} {f : Order → Order}

/-- An order that can trade has something left. -/
theorem Consistent.filled_lt (h : o.Consistent) (hopen : o.Open) : o.filledSize < o.size := by
  refine lt_of_le_of_ne h.filled_le fun heq => ?_
  rw [Open, h.filled_iff.2 heq] at hopen
  cases hopen

/-- A write that keeps the amounts of an order, and gives it a status that fits them. -/
theorem Consistent.rewrite (h : o.Consistent) {o' : Order} {status : OrderStatus}
    (hkeeps : o.Keeps o') (hstatus : o'.status = status)
    (hfilled : status = .Filled ↔ o.filledSize = o.size)
    (hunfilled : status = .New ∨ status = .Sent ∨ status = .Confirmed → o.filledSize = 0)
    (hpartly : status = .PartiallyFilled → 0 < o.filledSize)
    (hsentCancel : status = .SentCancel → o'.pendingCancel = true)
    (hcancelled : status = .Cancelled → o'.pendingCancel = false) : o'.Consistent := by
  subst hstatus
  constructor
  case sentCancel => exact hsentCancel
  case cancelled => exact hcancelled
  all_goals simp only [hkeeps.size, hkeeps.filledSize, hkeeps.totalFillAmount]
  · exact h.size_pos
  · exact h.filled_nonneg
  · exact h.filled_le
  · exact hfilled
  · exact hunfilled
  · exact hpartly
  · exact h.total_nonneg
  · exact h.total_iff

/-- The handlers' writes to a working order. -/
theorem Working.consistent (hf : Working f) (h : o.Consistent) (hopen : o.Open) :
    (f o).Consistent := by
  have hlt := (h.filled_lt hopen).ne
  cases hf with
  | confirm exchId ts =>
    have hkeeps := confirm_keeps exchId ts o
    by_cases hnew : o.status = .New ∨ o.status = .Sent
    · have hstatus : (o.confirm exchId ts).status = .Confirmed := if_pos hnew
      exact h.rewrite hkeeps hstatus (iff_of_false nofun hlt)
        (fun _ => h.unfilled (hnew.imp_right Or.inl)) nofun nofun nofun
    · have hstatus : (o.confirm exchId ts).status = o.status := if_neg hnew
      exact h.rewrite hkeeps hstatus h.filled_iff h.unfilled h.partly h.sentCancel h.cancelled
  | markCancelSent =>
    have hstatus : o.markCancelSent.status = .SentCancel := rfl
    exact h.rewrite (markCancelSent_keeps o) hstatus (iff_of_false nofun hlt) (by simp) nofun
      (fun _ => rfl) nofun
  | rejectCancel =>
    have hkeeps := rejectCancel_keeps o
    by_cases hpos : 0 < o.filledSize
    · have hstatus : o.rejectCancel.status = .PartiallyFilled := if_pos hpos
      exact h.rewrite hkeeps hstatus (iff_of_false nofun hlt) (by simp) (fun _ => hpos) nofun nofun
    · have hstatus : o.rejectCancel.status = .Confirmed := if_neg hpos
      exact h.rewrite hkeeps hstatus (iff_of_false nofun hlt)
        (fun _ => le_antisymm (not_lt.1 hpos) h.filled_nonneg) nofun nofun nofun
  | markTimedOut =>
    exact h.rewrite (markTimedOut_keeps o) rfl h.filled_iff h.unfilled h.partly h.sentCancel
      h.cancelled

/-- The handlers' writes that end an order. -/
theorem Ending.consistent (hf : Ending f) (h : o.Consistent) (hopen : o.Open) :
    (f o).Consistent := by
  have hlt := (h.filled_lt hopen).ne
  cases hf with
  | reject ts =>
    have hstatus : (o.reject ts).status = .Rejected := rfl
    exact h.rewrite (reject_keeps ts o) hstatus (iff_of_false nofun hlt) (by simp) nofun nofun nofun
  | cancelled ts =>
    have hstatus : (o.cancelled ts).status = .Cancelled := rfl
    exact h.rewrite (cancelled_keeps ts o) hstatus (iff_of_false nofun hlt) (by simp) nofun nofun
      fun _ => rfl

/-- A fill of something that is left, at a price. -/
theorem addFill_consistent {qty : Quantity} {price : Price} (h : o.Consistent) (hqty : 0 < qty)
    (hprice : 0 < price) (hle : qty ≤ o.remaining) (ts : Timestamp) :
    (o.addFill qty price ts).Consistent := by
  have hpos : 0 < o.filledSize + qty := add_pos_of_nonneg_of_pos h.filled_nonneg hqty
  have htotal : 0 < o.totalFillAmount + qty * price :=
    add_pos_of_nonneg_of_pos h.total_nonneg (mul_pos hqty hprice)
  have hstatus : (o.addFill qty price ts).status =
      if o.filledSize + qty = o.size then .Filled else .PartiallyFilled := rfl
  constructor
  case size_pos => exact h.size_pos
  case filled_nonneg => exact hpos.le
  case filled_le =>
    show o.filledSize + qty ≤ o.size
    rw [remaining] at hle
    linarith
  case total_nonneg => exact htotal.le
  case total_iff => exact iff_of_true htotal hpos
  all_goals
    rw [hstatus]
    split_ifs with hfinal
  · exact iff_of_true rfl hfinal
  · exact iff_of_false (by decide) hfinal
  · simp
  · simp
  · simp
  · exact fun _ => hpos
  all_goals simp

/-- The record of a new order, once it is sent or has failed to be. -/
theorem stamp_consistent {req : OrderRequest} (hsize : 0 < req.size) (id : OrderIdRaw)
    (now : Timestamp) {o' : Order} (hkeeps : (req.stamp id now {}).Keeps o')
    (hstatus : o'.status = .Sent ∨ o'.status = .Rejected) : o'.Consistent := by
  have hfilled : o'.filledSize = 0 := hkeeps.filledSize
  have hsize' : o'.size = req.size := hkeeps.size
  have htotal : o'.totalFillAmount = 0 := hkeeps.totalFillAmount
  constructor
  all_goals rcases hstatus with h | h
  all_goals simp [h, hfilled, hsize', htotal, hsize, hsize.le, hsize.ne]

end Order

/-! ### Stored orders -/

/-- Every stored order is consistent. -/
def Records (om : OrderManager) : Prop :=
  ∀ slot, om.pool.allocated slot = true → (om.pool.slots slot).Consistent

section Records

variable {P : Policy} {om om' : OrderManager} {id : OrderIdRaw} {f : Order → Order}

theorem records_init (capacity : PoolCapacity) : Records (init capacity) := nofun

theorem records_turn (hwf : om.WF) (h : Records om) (hturn : Turn sized om om') : Records om' := by
  have h : Stores Order.Consistent om := h
  cases hturn with
  | quiet d => exact h
  | forgive id => exact h
  | write hlive hf => exact h.written (.of_pool rfl) (hf.consistent (h.orderRef hlive) hlive.isOpen)
  | @fill id qty price trade ts hmoves haddr hok =>
    obtain ⟨hcur, hopen, -, hqty, hprice, hle⟩ := validate_fill_ok_iff.1 hok
    exact h.written (slotWritten_fill om id qty price trade ts)
      (Order.addFill_consistent (h.orderRef ⟨hcur, hopen⟩) hqty hprice hle ts)
  | @close om' id f hmoves haddr hlive hf hwrite =>
    have hwritten : SlotWritten om om' id f := .of_pool (by rw [hwrite]; rfl)
    exact h.written (hwritten.kept (slotsKept_retire _ _ _ _ _))
      (hf.consistent (h.orderRef hlive) hlive.isOpen)
  | @place om₁ req venue now id hreq hres =>
    exact h.booked hwf hres (.of_pool rfl)
      (Order.stamp_consistent hreq id now (Order.markSent_keeps now _) (Or.inl rfl))
  | @unwind om₁ om' req venue now id hmoves hreq hres hwrite =>
    have hkept : SlotsKept (om₁.modifyOrder id Order.failSend) om' := .of_pool (by rw [hwrite]; rfl)
    exact h.booked hwf hres (hkept.trans (slotsKept_retire _ _ _ _ _))
      (Order.stamp_consistent hreq id now (Order.failSend_keeps _) (Or.inr rfl))

/-- **Order records stay consistent**: in every run of the manager with requests of positive size
and arbitrary inbound events, of every order in an allocated slot. -/
theorem records_consistent {W : Type} {E : Env W} {s : State W} (hs : Reached E sized s)
    (slot : ℕ) (halloc : s.om.pool.allocated slot = true) :
    let o := s.om.pool.slots slot
    (0 ≤ o.filledSize ∧ o.filledSize ≤ o.size) ∧
      (o.status = .Filled ↔ o.filledSize = o.size) ∧
      (o.status = .New ∨ o.status = .Sent ∨ o.status = .Confirmed → o.filledSize = 0) ∧
      (o.status = .PartiallyFilled → 0 < o.filledSize ∧ o.filledSize < o.size) ∧
      (o.status = .SentCancel → o.pendingCancel = true) ∧
      (o.status = .Cancelled → o.pendingCancel = false) ∧
      (0 < o.totalFillAmount ↔ 0 < o.filledSize) := by
  have h : (s.om.pool.slots slot).Consistent :=
    (hs.turn_invariant (I := Records) records_init fun _ _ => records_turn).2 slot halloc
  refine ⟨⟨h.filled_nonneg, h.filled_le⟩, h.filled_iff, h.unfilled, fun hpartly => ?_, h.sentCancel,
    h.cancelled, h.total_iff⟩
  refine ⟨h.partly hpartly, h.filled_lt ?_⟩
  rw [Order.Open, hpartly]
  rfl

end Records

/-- A partial fill while a cancel is in flight. -/
theorem records_consistent_acceptingRun :
    let s := acceptingRun [.submit { instrument := 7, size := 10, price := 5 }, .cancel 1,
      .fill 1 4 5 9 0]
    (s.om.pool.slots 0).status = .PartiallyFilled ∧ 0 < (s.om.pool.slots 0).filledSize ∧
      (s.om.pool.slots 0).filledSize < (s.om.pool.slots 0).size :=
  ⟨by decide, (records_consistent
    (acceptingRun_reached trivial (by simp [sized]) fun _ _ => trivial) 0 (by decide)).2.2.2.1
      (by decide)⟩

end Oms
