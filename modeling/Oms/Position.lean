import Oms.Types

/-!
# Positions

`include/oms/Position.h`: the per-instrument position, updated atomically inside
`OrderManager::on_fill`.
-/

namespace Oms

structure Position where
  /-- signed net position -/
  net : Quantity := 0
  /-- carry-forward from the prior session -/
  overnight : Quantity := 0
  /-- today's traded volume (magnitude) -/
  volume : Quantity := 0
  /-- signed notional (ticks times quantity) -/
  amount : ℤ := 0
  fees : ℤ := 0
  lastUpdate : Timestamp := 0
  deriving DecidableEq, Repr

instance : Zero Position := ⟨{}⟩

namespace Position

def apply (p : Position) (signedFillQty : Quantity) (fillPrice : Price) (ts : Timestamp)
    (fee : ℤ := 0) : Position :=
  { p with
    net := p.net + signedFillQty
    volume := p.volume + if signedFillQty < 0 then -signedFillQty else signedFillQty
    amount := p.amount + signedFillQty * fillPrice
    fees := p.fees + fee
    lastUpdate := ts }

/-- Volume-weighted average price of the open position (`0` when flat). -/
def avgPrice (p : Position) : Price := if p.net = 0 then 0 else p.amount.tdiv p.net

@[simp] theorem net_zero : (0 : Position).net = 0 := rfl

@[simp] theorem net_apply (p : Position) (q : Quantity) (price : Price) (ts : Timestamp) (fee : ℤ) :
    (p.apply q price ts fee).net = p.net + q := rfl

end Position

end Oms
