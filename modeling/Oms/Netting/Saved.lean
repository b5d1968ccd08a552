import Mathlib.Algebra.BigOperators.Ring.Finset
import Mathlib.Algebra.Order.BigOperators.Group.Finset
import Oms.Netting.Cycle

/-!
# The notional that netting saves

On an instrument that nets to zero, what some strategies buy is what others sell, and neither side
goes to the market. The engine counts the notional of one of the two sides.

* `bought`, `sold`: the two sides of an instrument; `netDelta_eq`: an order is their difference;
* `crossedNotional`: what is bought on the instruments that net to zero;
* `savedNotional_computeCycle`: what a cycle adds to the count, and that no half is lost;
* `gap_turnover`: a unit that is crossed is traded neither by the buyer nor by the seller;
* `notional_saved`: the count of every run, and what it says of the turnover.
-/

namespace Oms

namespace NettingEngine

/-! ### Two sides -/

/-- What a strategy is short of its target. -/
def shortfall (e : NettingEngine) (inst : InstrumentId) (s : StrategyId) : Quantity :=
  e.targets.get (key s inst) - e.attributed s inst

/-- What the strategies that are below their targets buy. -/
def bought (e : NettingEngine) (inst : InstrumentId) : Quantity :=
  ∑ s ∈ e.strategies with key s inst ∈ e.targets, max 0 (e.shortfall inst s)

/-- What the strategies that are above their targets sell. -/
def sold (e : NettingEngine) (inst : InstrumentId) : Quantity :=
  ∑ s ∈ e.strategies with key s inst ∈ e.targets, max 0 (-e.shortfall inst s)

section Sides

variable (e : NettingEngine) (inst : InstrumentId)

theorem bought_nonneg : 0 ≤ e.bought inst := Finset.sum_nonneg fun _ _ => le_max_left _ _

theorem sold_nonneg : 0 ≤ e.sold inst := Finset.sum_nonneg fun _ _ => le_max_left _ _

theorem netDelta_eq : e.netDelta inst = e.bought inst - e.sold inst := by
  have hparts : ∀ d : ℤ, d = max 0 d - max 0 (-d) := fun d => by omega
  unfold netDelta bought sold
  rw [← Finset.sum_sub_distrib]
  exact Finset.sum_congr rfl fun s _ => hparts (e.shortfall inst s)

/-- A sum over the contributions runs over all strategies with a target. -/
theorem sum_map_contributions {g : Quantity → ℤ} (hg : g 0 = 0) :
    ((e.contributions inst).map fun c => g c.2).sum =
      ∑ s ∈ e.strategies with key s inst ∈ e.targets, g (e.shortfall inst s) := by
  rw [contributions, List.sum_map_filterMap, Finset.sum_map_ascending, Finset.sum_filter]
  refine Finset.sum_congr rfl fun s _ => ?_
  unfold shortfall
  cases htarget : e.targets.lookup (key s inst) with
  | none => rw [if_neg (Finmap.lookup_eq_none.1 htarget), Option.elim_none]
  | some target =>
    have hget : e.targets.get (key s inst) = target := by simp [Finmap.get, htarget]
    rw [if_pos (Finmap.mem_iff.2 ⟨target, htarget⟩), hget]
    by_cases hzero : target - e.attributed s inst = 0
    · simp [hzero, hg]
    · simp [hzero]

/-- Without netting both sides are traded. -/
theorem sum_magnitude_contributions :
    ((e.contributions inst).map fun c => magnitude c.2).sum = e.bought inst + e.sold inst := by
  have hparts : ∀ d : ℤ, |d| = max 0 d + max 0 (-d) := fun d => by
    rcases le_total 0 d with hd | hd
    · rw [abs_of_nonneg hd]
      omega
    · rw [abs_of_nonpos hd]
      omega
  rw [sum_map_contributions e inst rfl, bought, sold, ← Finset.sum_add_distrib]
  exact Finset.sum_congr rfl fun s _ => (magnitude_eq_abs _).trans (hparts (e.shortfall inst s))

end Sides

/-! ### One cycle -/

/-- What a cycle adds to the count for an instrument. -/
def savedOn (e : NettingEngine) (prices : Finmap fun _ : InstrumentId => Price)
    (inst : InstrumentId) : ℤ :=
  if e.netDelta inst = 0 then e.bought inst * prices.get inst else 0

/-- The notional that is bought, and so sold, on the instruments that net to zero. -/
def crossedNotional (e : NettingEngine) (prices : Finmap fun _ : InstrumentId => Price) : ℤ :=
  ∑ inst ∈ e.instruments, e.savedOn prices inst

section Cycle

variable (prices : Finmap fun _ : InstrumentId => Price) {inst : InstrumentId}
  {insts : List InstrumentId}

theorem SameOn.savedOn {e e' : NettingEngine} (h : SameOn inst e e') :
    e'.savedOn prices inst = e.savedOn prices inst := by
  have hbought : e'.bought inst = e.bought inst := by
    unfold bought
    rw [← sum_map_contributions e' inst (max_self 0), h.contributions,
      sum_map_contributions e inst (max_self 0)]
  unfold NettingEngine.savedOn
  rw [h.netDelta, hbought]

theorem savedNotional_netInstrument (e : NettingEngine) (orders : List NetOrder)
    (inst : InstrumentId) :
    (netInstrument prices (e, orders) inst).1.savedNotional =
      e.savedNotional + e.savedOn prices inst := by
  have hgross := sum_magnitude_contributions e inst
  have hnet := netDelta_eq e inst
  unfold netInstrument savedOn
  dsimp only
  rw [hgross, sum_contributions]
  split_ifs with hnil hzero hzero
  · -- nobody contributes, so there is nothing to buy
    rw [hnil] at hgross
    have hnone : 0 = e.bought inst + e.sold inst := hgross
    have hbought : e.bought inst = 0 :=
      le_antisymm (by linarith [sold_nonneg e inst]) (bought_nonneg e inst)
    rw [hbought, zero_mul, add_zero]
  · exact (add_zero _).symm
  · -- both sides are equal, so the half is exact
    have hsides : e.sold inst = e.bought inst := by linarith
    have hhalf : (e.bought inst + e.sold inst) * prices.get inst =
        2 * (e.bought inst * prices.get inst) := by
      rw [hsides]
      ring
    rw [hhalf, Int.mul_tdiv_cancel_left _ two_ne_zero]
    rfl
  · exact (add_zero _).symm

theorem foldl_savedNotional (hnodup : insts.Nodup) (acc : NettingEngine × List NetOrder) :
    (insts.foldl (netInstrument prices) acc).1.savedNotional =
      acc.1.savedNotional + (insts.map (acc.1.savedOn prices)).sum := by
  induction insts generalizing acc with
  | nil => exact (add_zero _).symm
  | cons inst insts ih =>
    obtain ⟨hnot, hnodup'⟩ := List.nodup_cons.1 hnodup
    -- the instruments that follow are still as they were
    have hrest : insts.map ((netInstrument prices acc inst).1.savedOn prices) =
        insts.map (acc.1.savedOn prices) := by
      refine List.map_congr_left fun inst' hinst' => ?_
      have hne : inst' ≠ inst := fun heq => hnot (heq ▸ hinst')
      exact (netInstrument_sameOn prices acc.1 acc.2 hne).savedOn prices
    rw [List.foldl_cons, ih hnodup', hrest, savedNotional_netInstrument, List.map_cons,
      List.sum_cons, add_assoc]

/-- **A cycle counts what it crosses.** -/
theorem savedNotional_computeCycle (e : NettingEngine) :
    (e.computeCycle prices).1.savedNotional = e.savedNotional + e.crossedNotional prices := by
  have hfold := foldl_savedNotional prices e.instruments.nodup_ascending (e, [])
  rw [Finset.sum_map_ascending] at hfold
  exact hfold

/-! ### Turnover -/

/-- What the strategies would trade without netting. -/
def grossNotional (e : NettingEngine) : ℤ :=
  ∑ inst ∈ e.instruments, (e.bought inst + e.sold inst) * prices.get inst

/-- What the orders of a cycle trade. -/
def turnover (orders : List NetOrder) : ℤ :=
  (orders.map fun o => |o.delta| * prices.get o.instrument).sum

theorem turnover_computeCycle (e : NettingEngine) :
    turnover prices (e.computeCycle prices).2 =
      ∑ inst ∈ e.instruments, |e.netDelta inst| * prices.get inst := by
  rw [turnover, computeCycle_orders, List.sum_map_filterMap, Finset.sum_map_ascending]
  refine Finset.sum_congr rfl fun inst _ => ?_
  unfold netOrder?
  by_cases hzero : e.netDelta inst = 0
  · rw [if_pos hzero, hzero, abs_zero, zero_mul]
    rfl
  · rw [if_neg hzero]
    rfl

/-- What netting takes off the turnover: on each instrument the smaller side, twice. -/
theorem gap_turnover (e : NettingEngine) :
    e.grossNotional prices - turnover prices (e.computeCycle prices).2 =
      ∑ inst ∈ e.instruments, 2 * min (e.bought inst) (e.sold inst) * prices.get inst := by
  have hparts : ∀ a b : ℤ, a + b - |a - b| = 2 * min a b := fun a b => by
    rcases le_total a b with hle | hle
    · rw [abs_of_nonpos (by omega), min_eq_left hle]
      ring
    · rw [abs_of_nonneg (by omega), min_eq_right hle]
      ring
  rw [turnover_computeCycle, grossNotional, ← Finset.sum_sub_distrib]
  refine Finset.sum_congr rfl fun inst _ => ?_
  rw [← sub_mul, netDelta_eq, hparts]

/-- On an instrument that nets to zero the smaller side is either of them. -/
theorem savedOn_eq (e : NettingEngine) (inst : InstrumentId) :
    e.savedOn prices inst =
      if e.netDelta inst = 0 then min (e.bought inst) (e.sold inst) * prices.get inst else 0 := by
  unfold savedOn
  refine ite_congr rfl (fun hzero => ?_) fun _ => rfl
  have hnet := netDelta_eq e inst
  have hsides : e.sold inst = e.bought inst := by linarith
  rw [hsides, min_self]

/-- The count is at most half of what netting takes off the turnover. The rest is crossed inside
orders. -/
theorem two_mul_crossedNotional (e : NettingEngine) (hprices : ∀ inst, 0 ≤ prices.get inst) :
    2 * e.crossedNotional prices ≤
        e.grossNotional prices - turnover prices (e.computeCycle prices).2 ∧
      (2 * e.crossedNotional prices =
          e.grossNotional prices - turnover prices (e.computeCycle prices).2 ↔
        ∀ inst ∈ e.instruments, e.netDelta inst ≠ 0 →
          min (e.bought inst) (e.sold inst) * prices.get inst = 0) := by
  have hle : ∀ inst ∈ e.instruments, 2 * e.savedOn prices inst ≤
      2 * min (e.bought inst) (e.sold inst) * prices.get inst := fun inst _ => by
    have hmin := le_min (bought_nonneg e inst) (sold_nonneg e inst)
    have hcross := mul_nonneg hmin (hprices inst)
    rw [savedOn_eq, mul_assoc]
    split_ifs <;> linarith
  rw [gap_turnover, crossedNotional, Finset.mul_sum]
  refine ⟨Finset.sum_le_sum hle, (Finset.sum_eq_sum_iff_of_le hle).trans ?_⟩
  refine forall₂_congr fun inst _ => ?_
  rw [savedOn_eq, mul_assoc]
  split_ifs with hzero
  · simp [hzero]
  · rw [mul_zero, forall_prop_of_true hzero, eq_comm, mul_eq_zero]
    exact or_iff_right two_ne_zero

end Cycle

/-! ### Every run -/

/-- What an operation adds to the count. -/
def savedBy (e : NettingEngine) : NettingOp → ℤ
  | .computeCycle prices => e.crossedNotional prices
  | _ => 0

theorem savedNotional_step (e : NettingEngine) (op : NettingOp) :
    (e.step op).savedNotional = e.savedNotional + e.savedBy op := by
  cases op with
  | computeCycle prices => exact savedNotional_computeCycle prices e
  | setTarget s inst target => exact (add_zero _).symm
  | setAttributed s inst q => exact (add_zero _).symm
  | attributeFill inst q price =>
    show (e.attributeFill inst q price).savedNotional = _
    refine Eq.trans ?_ (add_zero _).symm
    unfold attributeFill
    dsimp only
    split
    · rfl
    · split_ifs <;> rfl

/-- **The saved notional is what was crossed.** In every run the engine has counted, over all its
cycles and all instruments that netted to zero, the notional that some strategies bought of others,
and no half was lost. At prices that are not negative the next cycle adds to it, at most half of
what netting takes off the turnover, and exactly half if no order hides a crossing. -/
theorem notional_saved (ops : List NettingOp) (prices : Finmap fun _ : InstrumentId => Price)
    (hprices : ∀ inst, 0 ≤ prices.get inst) :
    let e := nettingMachine.run {} ops
    let e' := (e.computeCycle prices).1
    let gap := e.grossNotional prices - turnover prices (e.computeCycle prices).2
    e.savedNotional = (nettingMachine.trace (fun e op => [e.savedBy op]) {} ops).sum ∧
      e.savedNotional ≤ e'.savedNotional ∧
      2 * (e'.savedNotional - e.savedNotional) ≤ gap ∧
      (2 * (e'.savedNotional - e.savedNotional) = gap ↔
        ∀ inst ∈ e.instruments, e.netDelta inst ≠ 0 →
          min (e.bought inst) (e.sold inst) * prices.get inst = 0) := by
  intro e e' gap
  have hadded : e'.savedNotional - e.savedNotional = e.crossedNotional prices := by
    rw [show e'.savedNotional = _ from savedNotional_computeCycle prices e, add_sub_cancel_left]
  have hcrossed : 0 ≤ e.crossedNotional prices := by
    refine Finset.sum_nonneg fun inst _ => ?_
    unfold savedOn
    split_ifs
    · exact mul_nonneg (bought_nonneg e inst) (hprices inst)
    · exact le_rfl
  obtain ⟨hle, hiff⟩ := two_mul_crossedNotional prices e hprices
  rw [hadded]
  refine ⟨?_, by linarith, hle, hiff⟩
  -- the count so far is the sum of what was added so far
  let I : NettingEngine → List ℤ → Prop := fun e t => e.savedNotional = t.sum
  have hstep : ∀ e op t, I e t → True → I (e.step op) (t ++ [e.savedBy op]) := fun e op t h _ => by
    show (e.step op).savedNotional = (t ++ [e.savedBy op]).sum
    rw [List.sum_append, List.sum_singleton, ← show e.savedNotional = t.sum from h]
    exact savedNotional_step e op
  have hstart : I {} [] := rfl
  exact Machine.run_trace_invariant (M := nettingMachine) (I := I) hstep hstart
    (Machine.admits_true _ _ ops)

/-- Two strategies that cross 40, beside an order. -/
def crossingOps : List NettingOp := [.setTarget 1 5 40, .setTarget 2 5 (-40), .setTarget 1 6 10]

/-- At a price of 7 the cycle counts 280, which is half of what it takes off the turnover. -/
theorem notional_saved_crossing :
    let e := nettingMachine.run {} crossingOps
    let prices : Finmap fun _ : InstrumentId => Price := (∅ : Finmap _).insert 5 7
    (e.computeCycle prices).1.savedNotional = 280 ∧
      2 * ((e.computeCycle prices).1.savedNotional - e.savedNotional) ≤
        e.grossNotional prices - turnover prices (e.computeCycle prices).2 := by
  intro e prices
  have hprices : ∀ inst, 0 ≤ prices.get inst := fun inst => by
    rw [Finmap.get_insert]
    split_ifs
    · decide
    · rw [Finmap.get_empty]
  obtain ⟨-, -, hle, -⟩ := notional_saved crossingOps prices hprices
  have he : nettingMachine.run {} crossingOps = e := rfl
  rw [he] at hle
  exact ⟨by decide +kernel, hle⟩

end NettingEngine

end Oms
