import Mathlib.Algebra.Order.Group.Unbundled.Abs
import Mathlib.Algebra.Order.Ring.Int
import Mathlib.Tactic.Ring
import Mathlib.Tactic.SplitIfs

/-!
# Core scalar types

`include/oms/Types.h`. Identifiers keep the width of the source. Prices, quantities and
timestamps are `int64_t` there and exact integers here: where the source would leave the
64-bit range (undefined behaviour for signed arithmetic) the model keeps the exact value.
-/

namespace Oms

/-- The side of an order. -/
inductive Side
  | Buy
  | Sell
  deriving DecidableEq, Repr

/-- The order types a request may ask for. -/
inductive OrderType
  | Limit
  | Market
  | IOC
  | PostOnly
  deriving DecidableEq, Repr

abbrev InstrumentId := UInt16
abbrev Price := ℤ
/-- Signed: the sign carries the direction of targets and deltas. -/
abbrev Quantity := ℤ
abbrev Timestamp := ℤ
/-- Matches the 8-bit venue field of the packed order id. -/
abbrev VenueId := UInt8
abbrev LatencyNs := ℤ
abbrev TradeId := UInt64
abbrev ExchangeOrderId := String
abbrev StrategyId := UInt16
abbrev AlgoTag := UInt8

/-- Signed magnitude: a buy counts positive, a sell negative. -/
def signedQty (side : Side) (magnitude : Quantity) : Quantity :=
  if side = .Buy then magnitude else -magnitude

/-- The source writes `d < 0 ? -d : d`. -/
def magnitude (d : Quantity) : Quantity := if d < 0 then -d else d

theorem magnitude_eq_abs (d : Quantity) : magnitude d = |d| := by
  unfold magnitude
  split_ifs with h
  · exact (abs_of_neg h).symm
  · exact (abs_of_nonneg (not_lt.1 h)).symm

instance zero_uint64 : Zero UInt64 := ⟨0⟩

instance isTrans_uint16 : IsTrans UInt16 (· ≤ ·) := ⟨fun _ _ _ => UInt16.le_trans⟩

instance isTrans_uint64 : IsTrans UInt64 (· ≤ ·) := ⟨fun _ _ _ => UInt64.le_trans⟩

@[simp] theorem signedQty_zero (side : Side) : signedQty side 0 = 0 := by
  cases side <;> rfl

theorem signedQty_eq_zero {side : Side} {q : Quantity} : signedQty side q = 0 ↔ q = 0 := by
  cases side
  · exact Iff.rfl
  · exact neg_eq_zero

theorem signedQty_add (side : Side) (a b : Quantity) :
    signedQty side (a + b) = signedQty side a + signedQty side b := by
  cases side
  · rfl
  · exact neg_add a b

theorem signedQty_sub (side : Side) (a b : Quantity) :
    signedQty side (a - b) = signedQty side a - signedQty side b := by
  cases side
  · rfl
  · exact neg_sub' a b

end Oms
