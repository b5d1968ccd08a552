import Oms.Netting.Cycle
import Oms.Netting.Fairness

/-!
# A cycle and its fills settle

A fill is shared out by absolute contribution, so that strategies that pull in opposite directions
do not reach their targets by the fills of a net order alone. Their sum does, and the next cycle
moves the rest between them.

* `Targeted`: contributions come from strategies with a target;
* `netDelta_attributeAll`: fills on recorded contributions bring the net delta down by as much;
* `cycle_settles`: once the orders of a cycle are filled, the next cycle sends nothing and brings
  every strategy to its target;
* `OnTarget`, `onTarget_cycle`: orders that are filled at once leave the global positions at the
  sums of the targets.
-/

namespace Oms

namespace NettingEngine

/-! ### Contributors have targets -/

/-- Recorded contributions are those of strategies with a target. -/
def Targeted (e : NettingEngine) : Prop :=
  ∀ inst cs, e.contrib.lookup inst = some cs → ∀ c ∈ cs, key c.1 inst ∈ e.targets

section Targeted

variable {e : NettingEngine} {inst : InstrumentId}

theorem targeted_init : Targeted {} := fun inst cs h => by simp at h

theorem Targeted.netInstrument (h : Targeted e) (prices : Finmap fun _ : InstrumentId => Price)
    (orders : List NetOrder) (inst : InstrumentId) :
    Targeted (netInstrument prices (e, orders) inst).1 := by
  rcases netInstrument_cases prices e orders inst with
    ⟨-, heq⟩ | ⟨-, -, saved, log, heq⟩ | ⟨-, -, log, heq⟩
  · rw [heq]
    exact h
  · rw [heq]
    exact h
  · rw [heq]
    intro inst' cs hcs c hc
    by_cases hinst : inst' = inst
    · subst hinst
      rw [Finmap.lookup_insert] at hcs
      cases hcs
      obtain ⟨-, target, htarget, -⟩ := mem_contributions.1 hc
      exact Finmap.mem_iff.2 ⟨target, htarget⟩
    · rw [Finmap.lookup_insert_of_ne _ hinst] at hcs
      exact h inst' cs hcs c hc

theorem attributeFill_frame (e : NettingEngine) (inst : InstrumentId) (q : Quantity)
    (price : Price) : (e.attributeFill inst q price).targets = e.targets ∧
      (e.attributeFill inst q price).strategies = e.strategies ∧
      (e.attributeFill inst q price).instruments = e.instruments ∧
      (e.attributeFill inst q price).contrib = e.contrib := by
  unfold attributeFill
  dsimp only
  split
  · exact ⟨rfl, rfl, rfl, rfl⟩
  · split_ifs <;> exact ⟨rfl, rfl, rfl, rfl⟩

theorem targeted_step (h : Targeted e) (op : NettingOp) : Targeted (e.step op) := by
  cases op with
  | setTarget s inst target =>
    intro inst' cs hcs c hc
    exact Finmap.mem_insert.2 (Or.inr (h inst' cs hcs c hc))
  | setAttributed s inst q => exact h
  | computeCycle prices =>
    exact computeCycle_preserves (fun e orders inst he => he.netInstrument prices orders inst) h
  | attributeFill inst q price =>
    obtain ⟨htargets, -, -, hcontrib⟩ := attributeFill_frame e inst q price
    intro inst' cs hcs c hc
    have hcs' : e.contrib.lookup inst' = some cs := hcontrib ▸ hcs
    show key c.1 inst' ∈ (e.attributeFill inst q price).targets
    rw [htargets]
    exact h inst' cs hcs' c hc

end Targeted

/-! ### Fills -/

section Fills

variable {e : NettingEngine} {inst inst' : InstrumentId}

/-- A fill on recorded contributions brings the net delta of its instrument down by its quantity,
and leaves the others alone. -/
theorem netDelta_attributeFill (hk : Known e) (ht : Targeted e) (hmem : inst ∈ e.contrib)
    (q : Quantity) (price : Price) (inst' : InstrumentId) :
    (e.attributeFill inst q price).netDelta inst' =
      e.netDelta inst' - if inst' = inst then q else 0 := by
  obtain ⟨cs, hcs⟩ := Finmap.mem_iff.1 hmem
  have hrec := hk.contrib inst cs hcs
  obtain ⟨htargets, hstrategies, -, -⟩ := attributeFill_frame e inst q price
  -- the contributors are among the strategies with a target
  let e' : NettingEngine :=
    { e with strategies := e.strategies.filter fun s => key s inst' ∈ e.targets }
  have hattr : ∀ s, (e.attributeFill inst q price).attributed s inst' =
      (e'.book inst (shares cs q)).attributed s inst' := fun s => by
    rw [attributeFill_recorded hcs hrec]
    rfl
  have hsum : ∑ s ∈ e'.strategies, (e'.book inst (shares cs q)).attributed s inst' =
      (∑ s ∈ e'.strategies, e.attributed s inst') + if inst' = inst then q else 0 := by
    by_cases hinst : inst' = inst
    · subst hinst
      have hmoves : ∀ c ∈ shares cs q, c.1 ∈ e'.strategies := fun c hc => by
        obtain ⟨c', hc', heq⟩ :=
          List.mem_map.1 ((map_fst_shares cs q).mem_iff.1 (List.mem_map_of_mem hc))
        rw [← heq]
        exact Finset.mem_filter.2 ⟨hrec.mem c' hc', ht inst' cs hcs c' hc'⟩
      rw [sum_book e' inst' _ hmoves, hrec.sum_shares]
      rfl
    · rw [if_neg hinst, add_zero]
      refine Finset.sum_congr rfl fun s _ => ?_
      rw [attributed_book, if_neg hinst, add_zero]
      rfl
  unfold netDelta
  rw [htargets, hstrategies, Finset.sum_sub_distrib, Finset.sum_sub_distrib, sub_sub,
    Finset.sum_congr rfl fun s _ => hattr s]
  exact congrArg _ hsum

/-- Fills in the order in which they arrive: instrument, quantity and price. -/
def attributeAll (e : NettingEngine) (fills : List (InstrumentId × Quantity × Price)) :
    NettingEngine :=
  fills.foldl (fun e f => e.attributeFill f.1 f.2.1 f.2.2) e

/-- What was filled on an instrument, in total. -/
def filledOn (fills : List (InstrumentId × Quantity × Price)) (inst : InstrumentId) : Quantity :=
  (fills.map fun f => if inst = f.1 then f.2.1 else 0).sum

theorem filledOn_eq_zero {fills : List (InstrumentId × Quantity × Price)}
    (h : ∀ f ∈ fills, inst ≠ f.1) : filledOn fills inst = 0 := by
  refine List.sum_eq_zero fun q hq => ?_
  obtain ⟨f, hf, rfl⟩ := List.mem_map.1 hq
  exact if_neg (h f hf)

/-- Fills on recorded contributions bring the net deltas down by what was filled. -/
theorem netDelta_attributeAll (hk : Known e) (ht : Targeted e)
    (fills : List (InstrumentId × Quantity × Price)) (hmem : ∀ f ∈ fills, f.1 ∈ e.contrib)
    (inst : InstrumentId) :
    Known (e.attributeAll fills) ∧ (e.attributeAll fills).targets = e.targets ∧
      (e.attributeAll fills).netDelta inst = e.netDelta inst - filledOn fills inst := by
  induction fills generalizing e with
  | nil => exact ⟨hk, rfl, (sub_zero _).symm⟩
  | cons f fills ih =>
    obtain ⟨htargets, -, -, hcontrib⟩ := attributeFill_frame e f.1 f.2.1 f.2.2
    have hrest := ih (known_step hk (.attributeFill f.1 f.2.1 f.2.2))
      (targeted_step ht (.attributeFill f.1 f.2.1 f.2.2)) fun f' hf' => by
        show f'.1 ∈ (e.attributeFill f.1 f.2.1 f.2.2).contrib
        rw [hcontrib]
        exact hmem f' (List.mem_cons_of_mem _ hf')
    obtain ⟨hknown, htargets', hdelta⟩ := hrest
    refine ⟨hknown, htargets'.trans htargets, hdelta.trans ?_⟩
    have hone : (e.step (.attributeFill f.1 f.2.1 f.2.2)).netDelta inst =
        e.netDelta inst - if inst = f.1 then f.2.1 else 0 :=
      netDelta_attributeFill hk ht (hmem f List.mem_cons_self) f.2.1 f.2.2 inst
    rw [hone, sub_sub]
    rfl

end Fills

/-! ### After a cycle -/

section Settle

variable {e : NettingEngine} {prices : Finmap fun _ : InstrumentId => Price}

/-- The contributions of an order are recorded. -/
theorem mem_contrib_of_order {o : NetOrder} (ho : o ∈ (e.computeCycle prices).2) :
    o.instrument ∈ (e.computeCycle prices).1.contrib :=
  Finmap.mem_iff.2 ⟨_, (computeCycle_order ho).contrib⟩

/-- Without net deltas a cycle sends nothing and brings every strategy to its target. -/
theorem computeCycle_settled (p : Finmap fun _ : InstrumentId => Price) (hk : Known e)
    (hzero : ∀ inst, e.netDelta inst = 0) :
    (e.computeCycle p).2 = [] ∧ ∀ s inst target, e.targets.lookup (key s inst) = some target →
      (e.computeCycle p).1.attributed s inst = target := by
  refine ⟨?_, fun s inst target htarget => attributed_of_transferred p hk (hzero inst) htarget⟩
  rw [List.eq_nil_iff_forall_not_mem]
  exact fun o ho => ((mem_orders hk).1 ho).1 (hzero o.instrument)

theorem targeted_run (ops : List NettingOp) : Targeted (nettingMachine.run {} ops) :=
  Machine.run_invariant (I := Targeted) (G := fun _ _ => True) (fun _ op h _ => targeted_step h op)
    targeted_init (Machine.admits_true _ _ _)

/-- **A cycle and its fills settle.** In every engine that a run reaches, let a cycle be followed
by fills of its orders: on each ordered instrument they add up to the order, in any number of
pieces and in any order across the instruments. Then no net delta is left. The next cycle, at
whatever prices, sends nothing, and brings every strategy with a target exactly to it, also where
the strategies of an order pulled in opposite directions. -/
theorem cycle_settles (ops : List NettingOp) (prices prices' : Finmap fun _ : InstrumentId => Price)
    (fills : List (InstrumentId × Quantity × Price))
    (hordered : ∀ f ∈ fills, ∃ o ∈ ((nettingMachine.run {} ops).computeCycle prices).2,
      o.instrument = f.1)
    (hfilled : ∀ o ∈ ((nettingMachine.run {} ops).computeCycle prices).2,
      filledOn fills o.instrument = o.delta) :
    let e := nettingMachine.run {} ops
    let e' := (e.computeCycle prices).1.attributeAll fills
    (∀ inst, e'.netDelta inst = 0) ∧ (e'.computeCycle prices').2 = [] ∧
      ∀ s inst target, e.targets.lookup (key s inst) = some target →
        (e'.computeCycle prices').1.attributed s inst = target := by
  intro e e'
  have hk : Known e := known_run ops
  have hk₁ : Known (e.computeCycle prices).1 := known_step hk (.computeCycle prices)
  have ht₁ : Targeted (e.computeCycle prices).1 :=
    targeted_step (targeted_run ops) (.computeCycle prices)
  have hmem : ∀ f ∈ fills, f.1 ∈ (e.computeCycle prices).1.contrib := fun f hf => by
    obtain ⟨o, ho, hinst⟩ := hordered f hf
    exact hinst ▸ mem_contrib_of_order ho
  have hzero : ∀ inst, e'.netDelta inst = 0 := fun inst => by
    rw [(netDelta_attributeAll hk₁ ht₁ fills hmem inst).2.2, netDelta_computeCycle prices hk]
    by_cases hnet : e.netDelta inst = 0
    · have hnone : filledOn fills inst = 0 := by
        refine filledOn_eq_zero fun f hf heq => ?_
        obtain ⟨o, ho, hinst⟩ := hordered f hf
        exact ((mem_orders hk).1 ho).1 (by rw [hinst, ← heq, hnet])
      rw [hnet, hnone, sub_zero]
    · have ho : (⟨inst, e.netDelta inst⟩ : NetOrder) ∈ (e.computeCycle prices).2 :=
        (mem_orders hk).2 ⟨hnet, rfl⟩
      rw [hfilled _ ho, sub_self]
  have hk' : Known e' := (netDelta_attributeAll hk₁ ht₁ fills hmem 0).1
  obtain ⟨hnone, hreached⟩ := computeCycle_settled prices' hk' hzero
  refine ⟨hzero, hnone, fun s inst target htarget => hreached s inst target ?_⟩
  rw [(netDelta_attributeAll hk₁ ht₁ fills hmem 0).2.1, (computeCycle_sameBook prices e).targets]
  exact htarget

end Settle

/-- Two strategies that pull in opposite directions. -/
def opposedOps : List NettingOp := [.setTarget 1 5 100, .setTarget 2 5 (-40)]

/-- The net order of 60 is filled in two pieces. After the fills the strategies are off their
targets; after the next cycle they are there. -/
theorem cycle_settles_opposed :
    let e := nettingMachine.run {} opposedOps
    let e' := (e.computeCycle ∅).1.attributeAll [(5, 20, 7), (5, 40, 7)]
    (e'.attributed 1 5, e'.attributed 2 5) = (43, 17) ∧
      ((e'.computeCycle ∅).1.attributed 1 5, (e'.computeCycle ∅).1.attributed 2 5) =
        (100, -40) := by
  intro e e'
  have horders : (e.computeCycle ∅).2 = [⟨5, 60⟩] := by decide
  obtain ⟨-, -, hreached⟩ := cycle_settles opposedOps ∅ ∅ [(5, 20, 7), (5, 40, 7)]
    (fun f hf => ⟨⟨5, 60⟩, by rw [horders]; exact List.mem_singleton_self _, by
      simp only [List.mem_cons, List.not_mem_nil, or_false] at hf
      rcases hf with rfl | rfl <;> rfl⟩)
    (fun o ho => by
      rw [horders, List.mem_singleton] at ho
      subst ho
      decide)
  refine ⟨by decide +kernel, ?_⟩
  rw [Prod.mk.injEq]
  exact ⟨hreached 1 5 100 (by decide), hreached 2 5 (-40) (by decide)⟩

/-! ### Orders that are filled at once -/

/-- Fill every order in full, at the price of its instrument. -/
def fillOrders (e : NettingEngine) (orders : List NetOrder)
    (prices : Finmap fun _ : InstrumentId => Price) : NettingEngine :=
  orders.foldl (fun e o => e.attributeFill o.instrument o.delta (prices.get o.instrument)) e

/-- The engine of strategies that trade only towards a target. -/
structure Targeting (e : NettingEngine) : Prop where
  known : Known e
  targeted : Targeted e
  balanced : Balanced e
  /-- a strategy without a target has nothing -/
  idle : ∀ s inst, key s inst ∉ e.targets → e.attributed s inst = 0

/-- Nothing is left to trade. -/
structure OnTarget (e : NettingEngine) : Prop extends Targeting e where
  settled : ∀ inst, e.netDelta inst = 0

theorem onTarget_init : OnTarget {} where
  known := known_init
  targeted := targeted_init
  balanced := balanced_init
  idle := fun _ _ _ => Finmap.get_empty _
  settled := fun _ => rfl

section Filled

variable {e : NettingEngine} {prices : Finmap fun _ : InstrumentId => Price}

theorem Targeting.setTarget (h : Targeting e) (s : StrategyId) (inst : InstrumentId)
    (target : Quantity) : Targeting (e.setTarget s inst target) where
  known := known_step h.known (.setTarget s inst target)
  targeted := targeted_step h.targeted (.setTarget s inst target)
  balanced := h.balanced.setTarget h.known s inst target
  idle := fun s' inst' hnot => h.idle s' inst' fun hmem => hnot (Finmap.mem_insert.2 (Or.inr hmem))

theorem Targeting.computeCycle (h : Targeting e) : Targeting (e.computeCycle prices).1 where
  known := known_step h.known (.computeCycle prices)
  targeted := targeted_step h.targeted (.computeCycle prices)
  balanced := (balanced_step_iff h.known h.balanced (.computeCycle prices)).2
    fun _ _ _ heq => NettingOp.noConfusion heq
  idle := fun s inst hnot => by
    rw [(computeCycle_sameBook prices e).targets] at hnot
    rw [attributed_computeCycle prices h.known, h.idle s inst hnot, zero_add]
    split_ifs with hnet
    · refine List.sum_eq_zero fun q hq => ?_
      obtain ⟨c, hc, rfl⟩ := List.mem_map.1 hq
      refine if_neg fun heq => hnot ?_
      obtain ⟨-, target, htarget, -⟩ := mem_contributions.1 hc
      exact heq ▸ Finmap.mem_iff.2 ⟨target, htarget⟩
    · rfl

theorem Targeting.attributeFill (h : Targeting e) {inst : InstrumentId} (hmem : inst ∈ e.contrib)
    (q : Quantity) (price : Price) : Targeting (e.attributeFill inst q price) where
  known := known_step h.known (.attributeFill inst q price)
  targeted := targeted_step h.targeted (.attributeFill inst q price)
  balanced := (balanced_attributeFill_iff h.known h.balanced inst q price).2 fun _ => hmem
  idle := fun s inst' hnot => by
    obtain ⟨cs, hcs⟩ := Finmap.mem_iff.1 hmem
    have hrec := h.known.contrib inst cs hcs
    rw [(attributeFill_frame e inst q price).1] at hnot
    rw [attributed_attributeFill hcs hrec, h.idle s inst' hnot, zero_add]
    split_ifs with hinst
    · refine moved_of_notMem (fun hs => hnot ?_) q
      obtain ⟨c, hc, rfl⟩ := List.mem_map.1 hs
      exact hinst ▸ h.targeted inst cs hcs c hc
    · rfl

theorem Targeting.attributeAll (h : Targeting e)
    {fills : List (InstrumentId × Quantity × Price)} (hmem : ∀ f ∈ fills, f.1 ∈ e.contrib) :
    Targeting (e.attributeAll fills) := by
  induction fills generalizing e with
  | nil => exact h
  | cons f fills ih =>
    refine ih (h.attributeFill (hmem f List.mem_cons_self) f.2.1 f.2.2) fun f' hf' => ?_
    rw [(attributeFill_frame e f.1 f.2.1 f.2.2).2.2.2]
    exact hmem f' (List.mem_cons_of_mem _ hf')

/-- The orders of a cycle, filled in full, fill what the cycle found. -/
theorem filledOn_orders (hk : Known e) (inst : InstrumentId) :
    filledOn ((e.computeCycle prices).2.map fun o =>
      (o.instrument, o.delta, prices.get o.instrument)) inst = e.netDelta inst := by
  have hterm : ∀ inst', ((e.netOrder? inst').elim 0 fun o =>
      if inst = o.instrument then o.delta else 0) =
        if inst' = inst then e.netDelta inst else 0 := by
    intro inst'
    unfold netOrder?
    by_cases hinst : inst' = inst
    · subst hinst
      rw [if_pos rfl]
      split_ifs with hnet
      · exact hnet.symm
      · exact if_pos rfl
    · split_ifs
      · rfl
      · exact if_neg (Ne.symm hinst)
  unfold filledOn
  rw [List.map_map, computeCycle_orders]
  refine (List.sum_map_filterMap _ _ _).trans ?_
  rw [Finset.sum_map_ascending]
  refine (Finset.sum_congr rfl fun inst' _ => hterm inst').trans ?_
  rw [Finset.sum_ite_eq']
  split_ifs with hmem
  · rfl
  · exact (hk.netDelta_eq_zero hmem).symm

/-- **After a cycle whose orders are filled in full, nothing is left to trade.** -/
theorem onTarget_cycle (h : Targeting e) (prices : Finmap fun _ : InstrumentId => Price) :
    let e' := (e.computeCycle prices).1.fillOrders (e.computeCycle prices).2 prices
    OnTarget e' ∧ e'.targets = e.targets := by
  intro e'
  let fills := (e.computeCycle prices).2.map fun o =>
    (o.instrument, o.delta, prices.get o.instrument)
  have hfills : e' = (e.computeCycle prices).1.attributeAll fills := by
    unfold attributeAll
    rw [List.foldl_map]
    rfl
  have hmem : ∀ f ∈ fills, f.1 ∈ (e.computeCycle prices).1.contrib := fun f hf => by
    obtain ⟨o, ho, rfl⟩ := List.mem_map.1 hf
    exact mem_contrib_of_order ho
  have hcycle : Targeting (e.computeCycle prices).1 := h.computeCycle
  have hdelta := netDelta_attributeAll hcycle.known hcycle.targeted fills hmem
  rw [hfills]
  refine ⟨⟨hcycle.attributeAll hmem, fun inst => ?_⟩,
    (hdelta 0).2.1.trans (computeCycle_sameBook prices e).targets⟩
  rw [(hdelta inst).2.2, netDelta_computeCycle prices h.known, filledOn_orders h.known, sub_self]

/-- The global position is the sum of the targets. -/
theorem OnTarget.global_eq (h : OnTarget e) (inst : InstrumentId) :
    e.globalPosition inst = ∑ s ∈ e.strategies, e.targets.get (key s inst) := by
  have hdelta := h.settled inst
  unfold netDelta at hdelta
  rw [h.balanced inst, ← sub_eq_zero, ← Finset.sum_sub_distrib, ← neg_eq_zero,
    ← Finset.sum_neg_distrib, ← hdelta, Finset.sum_filter]
  refine Finset.sum_congr rfl fun s _ => ?_
  split_ifs with hmem
  · ring
  · have hget : e.targets.get (key s inst) = 0 := by
      simp [Finmap.get, Finmap.lookup_eq_none.2 hmem]
    rw [h.idle s inst hmem, hget, sub_self, neg_zero]

end Filled

end NettingEngine

end Oms
