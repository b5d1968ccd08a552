import Mathlib.Data.Fintype.Basic
import Mathlib.Tactic.SplitIfs
import Oms.OrderId
import Oms.Types

/-!
# Orders

`include/oms/Order.h`: one order through its full lifecycle. `filledSize` and the derived
`remaining` are the only record of what is still open; `pendingCancel` is a flag, not a status,
because a partially filled order may have a cancel in flight.
-/

namespace Oms

inductive OrderStatus
  /-- created locally, not on the wire -/
  | New
  /-- written to transport, no ack yet -/
  | Sent
  /-- live on book -/
  | Confirmed
  | PartiallyFilled
  /-- cancel in flight -/
  | SentCancel
  | CancelRejected
  | Filled
  | Cancelled
  | Rejected
  deriving DecidableEq, Repr

def isTerminal (s : OrderStatus) : Bool :=
  s == .Filled || s == .Cancelled || s == .Rejected

/-- Key timestamps for latency and time-to-fill metrics. -/
structure OrderTimestamps where
  created : Timestamp := 0
  sent : Timestamp := 0
  confirmed : Timestamp := 0
  firstFill : Timestamp := 0
  lastFill : Timestamp := 0
  terminal : Timestamp := 0
  deriving DecidableEq, Repr

/-- The number of scratch fields of an order. -/
abbrev kScratchSlots : ℕ := 4

instance neZero_kScratchSlots : NeZero kScratchSlots := ⟨by decide⟩

/-- An offset into the scratch fields. The source takes an `int` and indexes a four-element array
with it, which is defined for these offsets only. -/
abbrev ScratchOffset := Fin kScratchSlots

structure Order where
  internalId : OrderIdRaw := 0
  size : Quantity := 0
  filledSize : Quantity := 0
  /-- running 128-bit notional, divided on demand for the average price -/
  totalFillAmount : ℤ := 0
  limitPrice : Price := 0
  instrument : InstrumentId := 0
  status : OrderStatus := .New
  side : Side := .Buy
  type : OrderType := .Limit
  pendingCancel : Bool := false
  falseCancelReject : Bool := false
  exchangeId : ExchangeOrderId := ""
  strategyId : StrategyId := 0
  algoTag : AlgoTag := 0
  ackTimedOut : Bool := false
  reconciliation : Bool := false
  ts : OrderTimestamps := {}
  /-- an algo stamps its index here and filters the event stream by it -/
  intData : ScratchOffset → ℤ := fun _ => 0

namespace Order

def storeIntData (o : Order) (value : ℤ) (offset : ScratchOffset) : Order :=
  { o with intData := Function.update o.intData offset value }

def retrieveIntData (o : Order) (offset : ScratchOffset) : ℤ := o.intData offset

def remaining (o : Order) : Quantity := o.size - o.filledSize

/-- Average fill price in ticks (`0` if unfilled). -/
def avgFillPrice (o : Order) : Price :=
  if o.filledSize = 0 then 0 else o.totalFillAmount.tdiv o.filledSize

/-- The order can still trade: it has no terminal status. -/
def Open (o : Order) : Prop := isTerminal o.status = false

instance (o : Order) : Decidable o.Open := inferInstanceAs (Decidable (_ = _))

/-! ### The writes of the handlers -/

/-- The order went out on the wire. -/
def markSent (now : Timestamp) (o : Order) : Order :=
  { o with status := .Sent, ts := { o.ts with sent := now } }

/-- A confirmation: it moves the status forward only from `New` or `Sent`. -/
def confirm (exchId : ExchangeOrderId) (ts : Timestamp) (o : Order) : Order :=
  { o with
    exchangeId := exchId
    status := if o.status = .New ∨ o.status = .Sent then .Confirmed else o.status
    ts := { o.ts with confirmed := ts } }

/-- A cancel is in flight. -/
def markCancelSent (o : Order) : Order := { o with pendingCancel := true, status := .SentCancel }

/-- A real cancel-reject: the order keeps working. -/
def rejectCancel (o : Order) : Order :=
  { o with
    pendingCancel := false
    status := if 0 < o.filledSize then .PartiallyFilled else .Confirmed }

/-- The ack timer expired. -/
def markTimedOut (o : Order) : Order := { o with ackTimedOut := true }

/-- A fill of `qty` at `price`. -/
def addFill (qty : Quantity) (price : Price) (ts : Timestamp) (o : Order) : Order :=
  { o with
    filledSize := o.filledSize + qty
    totalFillAmount := o.totalFillAmount + qty * price
    status := if o.filledSize + qty = o.size then .Filled else .PartiallyFilled
    ts := { o.ts with
      firstFill := if o.ts.firstFill = 0 then ts else o.ts.firstFill
      lastFill := ts
      terminal := if o.filledSize + qty = o.size then ts else o.ts.terminal } }

/-- The send failed before the wire. -/
def failSend (o : Order) : Order := { o with status := .Rejected }

/-- The venue rejected the order. -/
def reject (ts : Timestamp) (o : Order) : Order :=
  { o with status := .Rejected, ts := { o.ts with terminal := ts } }

/-- The order was cancelled. -/
def cancelled (ts : Timestamp) (o : Order) : Order :=
  { o with
    pendingCancel := false
    status := .Cancelled
    ts := { o.ts with terminal := ts } }

/-- What a request fixes for the life of an order, and what its fills have added up to. Handlers
other than `onFill` leave it alone. -/
structure Keeps (o o' : Order) : Prop where
  internalId : o'.internalId = o.internalId
  instrument : o'.instrument = o.instrument
  side : o'.side = o.side
  size : o'.size = o.size
  filledSize : o'.filledSize = o.filledSize
  totalFillAmount : o'.totalFillAmount = o.totalFillAmount
  intData : o'.intData = o.intData

theorem Keeps.refl (o : Order) : o.Keeps o := ⟨rfl, rfl, rfl, rfl, rfl, rfl, rfl⟩

theorem Keeps.trans {o o' o'' : Order} (h : o.Keeps o') (h' : o'.Keeps o'') : o.Keeps o'' where
  internalId := h'.internalId.trans h.internalId
  instrument := h'.instrument.trans h.instrument
  side := h'.side.trans h.side
  size := h'.size.trans h.size
  filledSize := h'.filledSize.trans h.filledSize
  totalFillAmount := h'.totalFillAmount.trans h.totalFillAmount
  intData := h'.intData.trans h.intData

theorem Keeps.remaining {o o' : Order} (h : o.Keeps o') : o'.remaining = o.remaining := by
  rw [Order.remaining, Order.remaining, h.size, h.filledSize]

theorem markSent_keeps (now : Timestamp) (o : Order) : o.Keeps (o.markSent now) :=
  ⟨rfl, rfl, rfl, rfl, rfl, rfl, rfl⟩

theorem confirm_keeps (exchId : ExchangeOrderId) (ts : Timestamp) (o : Order) :
    o.Keeps (o.confirm exchId ts) :=
  ⟨rfl, rfl, rfl, rfl, rfl, rfl, rfl⟩

theorem markCancelSent_keeps (o : Order) : o.Keeps o.markCancelSent :=
  ⟨rfl, rfl, rfl, rfl, rfl, rfl, rfl⟩

theorem rejectCancel_keeps (o : Order) : o.Keeps o.rejectCancel :=
  ⟨rfl, rfl, rfl, rfl, rfl, rfl, rfl⟩

theorem markTimedOut_keeps (o : Order) : o.Keeps o.markTimedOut :=
  ⟨rfl, rfl, rfl, rfl, rfl, rfl, rfl⟩

theorem failSend_keeps (o : Order) : o.Keeps o.failSend := ⟨rfl, rfl, rfl, rfl, rfl, rfl, rfl⟩

theorem reject_keeps (ts : Timestamp) (o : Order) : o.Keeps (o.reject ts) :=
  ⟨rfl, rfl, rfl, rfl, rfl, rfl, rfl⟩

theorem cancelled_keeps (ts : Timestamp) (o : Order) : o.Keeps (o.cancelled ts) :=
  ⟨rfl, rfl, rfl, rfl, rfl, rfl, rfl⟩

theorem markSent_open (now : Timestamp) (o : Order) : (o.markSent now).Open := rfl

theorem markCancelSent_open (o : Order) : o.markCancelSent.Open := rfl

theorem confirm_open {o : Order} (h : o.Open) (exchId : ExchangeOrderId) (ts : Timestamp) :
    (o.confirm exchId ts).Open := by
  unfold Open confirm
  dsimp only
  split_ifs
  · rfl
  · exact h

theorem rejectCancel_open (o : Order) : o.rejectCancel.Open := by
  unfold Open rejectCancel
  dsimp only
  split_ifs <;> rfl

theorem markTimedOut_open {o : Order} (h : o.Open) : o.markTimedOut.Open := h

theorem failSend_not_open (o : Order) : ¬ o.failSend.Open := Bool.noConfusion

theorem reject_not_open (ts : Timestamp) (o : Order) : ¬ (o.reject ts).Open := Bool.noConfusion

theorem cancelled_not_open (ts : Timestamp) (o : Order) : ¬ (o.cancelled ts).Open :=
  Bool.noConfusion

/-- A fill leaves the order open exactly as long as something remains. -/
theorem addFill_open_iff (qty : Quantity) (price : Price) (ts : Timestamp) (o : Order) :
    (o.addFill qty price ts).Open ↔ o.filledSize + qty ≠ o.size := by
  unfold Open addFill
  dsimp only
  split_ifs with h
  · exact ⟨fun hf => Bool.noConfusion hf, fun hne => absurd h hne⟩
  · exact ⟨fun _ => h, fun _ => rfl⟩

theorem addFill_remaining (qty : Quantity) (price : Price) (ts : Timestamp) (o : Order) :
    (o.addFill qty price ts).remaining = o.remaining - qty := by
  simp only [remaining, addFill]
  ring

/-- The fill that completes an order is as large as what remains. -/
theorem filledSize_add_eq_size_iff {qty : Quantity} {o : Order} :
    o.filledSize + qty = o.size ↔ qty = o.remaining := by
  rw [remaining, eq_sub_iff_add_eq']

end Order

end Oms
