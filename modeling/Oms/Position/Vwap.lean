import Oms.Foundation.WeightedMean
import Oms.Position

/-!
# The average price of the open position

`include/oms/Position.h`, `avg_price`: the signed notional over the signed net position, which its
comment calls the VWAP of the open position. Both count the fills that closed a part of the
position as they count those that opened it.

* `avgPrice_applyAll`: the average is a mean whose weights are the signed quantities;
* `avgPrice_traded_iff`: it is a traded price exactly if the fills against the position do not
  outweigh the others;
* `outweighed_of_against_eq_nil`: so it is as long as nothing was closed.
-/

namespace Oms

open WeightedMean

/-- A call of `apply`. -/
structure PositionFill where
  /-- signed -/
  quantity : Quantity
  price : Price
  ts : Timestamp := 0
  fee : ℤ := 0

namespace Position

/-- The position after a sequence of fills. -/
def applyAll (fills : List PositionFill) : Position :=
  fills.foldl (fun p f => p.apply f.quantity f.price f.ts f.fee) {}

/-- The lowest price of a sequence of fills. -/
def lowest (fills : List PositionFill) : Price := (fills.map (·.price)).min?.getD 0

/-- The highest price of a sequence of fills. -/
def highest (fills : List PositionFill) : Price := (fills.map (·.price)).max?.getD 0

/-- The fills against the net position do not outweigh those alongside it: neither by how far above
the lowest price they traded, nor by how far below the highest. -/
structure Outweighed (fills : List PositionFill) : Prop where
  above : load (·.quantity) (·.price - lowest fills) (against (·.quantity) fills) ≤
    load (·.quantity) (·.price - lowest fills) (alongside (·.quantity) fills)
  below : load (·.quantity) (highest fills + 1 - ·.price) (against (·.quantity) fills) <
    load (·.quantity) (highest fills + 1 - ·.price) (alongside (·.quantity) fills)

section Sequence

variable {fills : List PositionFill}

theorem net_foldl (p : Position) (fills : List PositionFill) :
    (fills.foldl (fun p f => p.apply f.quantity f.price f.ts f.fee) p).net =
      p.net + (fills.map (·.quantity)).sum := by
  induction fills generalizing p with
  | nil => exact (add_zero p.net).symm
  | cons f fills ih =>
    rw [List.foldl_cons, ih, net_apply, List.map_cons, List.sum_cons, add_assoc]

theorem amount_foldl (p : Position) (fills : List PositionFill) :
    (fills.foldl (fun p f => p.apply f.quantity f.price f.ts f.fee) p).amount =
      p.amount + (fills.map fun f => f.quantity * f.price).sum := by
  induction fills generalizing p with
  | nil => exact (add_zero p.amount).symm
  | cons f fills ih =>
    rw [List.foldl_cons, ih, List.map_cons, List.sum_cons, ← add_assoc]
    rfl

theorem net_applyAll (fills : List PositionFill) :
    (applyAll fills).net = (fills.map (·.quantity)).sum :=
  (net_foldl _ fills).trans (zero_add _)

/-- The average price is the mean of the prices under the signed quantities. -/
theorem avgPrice_applyAll (h : (applyAll fills).net ≠ 0) :
    (applyAll fills).avgPrice = truncMean (·.quantity) (·.price) fills := by
  have hamount : (applyAll fills).amount = (fills.map fun f => f.quantity * f.price).sum :=
    (amount_foldl _ fills).trans (zero_add _)
  rw [avgPrice, if_neg h, hamount, net_applyAll, truncMean]

theorem isLeast_lowest (h : fills ≠ []) :
    (∃ f ∈ fills, f.price = lowest fills) ∧ ∀ f ∈ fills, lowest fills ≤ f.price := by
  have hne : fills.map (·.price) ≠ [] := by simpa using h
  have hmin := List.min?_eq_some_min hne
  obtain ⟨hmem, hle⟩ := List.min?_eq_some_iff.1 hmin
  rw [lowest, hmin]
  exact ⟨List.mem_map.1 hmem, fun f hf => hle _ (List.mem_map_of_mem hf)⟩

theorem isGreatest_highest (h : fills ≠ []) :
    (∃ f ∈ fills, f.price = highest fills) ∧ ∀ f ∈ fills, f.price ≤ highest fills := by
  have hne : fills.map (·.price) ≠ [] := by simpa using h
  have hmax := List.max?_eq_some_max hne
  obtain ⟨hmem, hle⟩ := List.max?_eq_some_iff.1 hmax
  rw [highest, hmax]
  exact ⟨List.mem_map.1 hmem, fun f hf => hle _ (List.mem_map_of_mem hf)⟩

theorem ne_nil_of_net_ne_zero (h : (fills.map (·.quantity)).sum ≠ 0) : fills ≠ [] := by
  rintro rfl
  exact h rfl

/-- **The average price of the open position was traded through** exactly if the fills that closed
a part of it do not outweigh those that opened it. -/
theorem avgPrice_traded_iff (fills : List PositionFill) (hpos : ∀ f ∈ fills, 0 < f.price) :
    ((applyAll fills).net ≠ 0 → lowest fills ≤ (applyAll fills).avgPrice ∧
      (applyAll fills).avgPrice ≤ highest fills) ↔
    ((fills.map (·.quantity)).sum ≠ 0 → Outweighed fills) := by
  rw [net_applyAll]
  refine forall_congr' fun hne => ?_
  have hnil := ne_nil_of_net_ne_zero hne
  obtain ⟨⟨f, hf, hlowest⟩, -⟩ := isLeast_lowest hnil
  have hlo : 0 < lowest fills := hlowest ▸ hpos f hf
  have hhi : 0 ≤ highest fills := (hpos f hf).le.trans ((isGreatest_highest hnil).2 f hf)
  rw [avgPrice_applyAll (by rwa [net_applyAll]), le_truncMean_iff hne hlo,
    truncMean_le_iff hne hhi]
  exact ⟨fun h => ⟨h.1, h.2⟩, fun h => ⟨h.above, h.below⟩⟩

/-- Bought twice, and a part sold between the two prices. -/
theorem avgPrice_traded_partly_sold :
    (applyAll [⟨10, 100, 1, 0⟩, ⟨10, 110, 2, 0⟩, ⟨-4, 105, 3, 0⟩]).net = 16 ∧
      lowest [⟨10, 100, 1, 0⟩, ⟨10, 110, 2, 0⟩, ⟨-4, 105, 3, 0⟩] ≤
        (applyAll [⟨10, 100, 1, 0⟩, ⟨10, 110, 2, 0⟩, ⟨-4, 105, 3, 0⟩]).avgPrice ∧
      (applyAll [⟨10, 100, 1, 0⟩, ⟨10, 110, 2, 0⟩, ⟨-4, 105, 3, 0⟩]).avgPrice ≤
        highest [⟨10, 100, 1, 0⟩, ⟨10, 110, 2, 0⟩, ⟨-4, 105, 3, 0⟩] :=
  ⟨by decide,
    (avgPrice_traded_iff _ (by decide)).2 (fun _ => ⟨by decide, by decide⟩) (by decide)⟩

/-- **A profit leaves a negative average price**: ten bought at 100, nine of them sold at 200. -/
theorem avgPrice_negative_after_profit :
    (applyAll [⟨10, 100, 1, 0⟩, ⟨-9, 200, 2, 0⟩]).net = 1 ∧
      (applyAll [⟨10, 100, 1, 0⟩, ⟨-9, 200, 2, 0⟩]).avgPrice = -800 ∧
      ¬lowest [⟨10, 100, 1, 0⟩, ⟨-9, 200, 2, 0⟩] ≤
        (applyAll [⟨10, 100, 1, 0⟩, ⟨-9, 200, 2, 0⟩]).avgPrice := by
  decide

/-- As long as nothing was closed, the average price was traded through. -/
theorem outweighed_of_against_eq_nil (hnet : (fills.map (·.quantity)).sum ≠ 0)
    (h : against (·.quantity) fills = []) : Outweighed fills := by
  have hnil := ne_nil_of_net_ne_zero hnet
  have hlowest := (isLeast_lowest hnil).2
  have hhighest := (isGreatest_highest hnil).2
  constructor
  · rw [h]
    exact load_nonneg fun f hf => by linarith [hlowest f (List.mem_of_mem_filter hf)]
  · rw [h]
    refine load_pos hnet fun f hf => ?_
    linarith [hhighest f (List.mem_of_mem_filter hf)]

end Sequence

end Position

end Oms
