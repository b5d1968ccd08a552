import Mathlib.Algebra.Order.Ring.Abs
import Oms.Netting.Invariant

/-!
# What a filled net order does to the strategies

Each fill on a net order is apportioned afresh by absolute contribution, so that over `k` fills a
contributor ends up within `k` units of its pro-rata share of the order. Where all contributions
have the sign of the order, that share is the contribution itself.

* `computeCycle_order`: a net order is the sum of recorded contributions;
* `abs_share_lt`: one fill moves a strategy by its pro-rata share up to less than one unit;
* `filled_order_near_target`: a fully filled order.
-/

namespace Oms

namespace NettingEngine

/-! ### Net orders -/

/-- Two engines agree on everything a cycle reads on an instrument, and on what it records. -/
structure SameOn (inst : InstrumentId) (e e' : NettingEngine) : Prop where
  attributed : ∀ s, e'.attributed s inst = e.attributed s inst
  targets : e'.targets = e.targets
  strategies : e'.strategies = e.strategies
  contrib : e'.contrib.lookup inst = e.contrib.lookup inst

section SameOn

variable {inst : InstrumentId} {e e' e'' : NettingEngine}

theorem SameOn.refl (inst : InstrumentId) (e : NettingEngine) : SameOn inst e e :=
  ⟨fun _ => rfl, rfl, rfl, rfl⟩

theorem SameOn.trans (h : SameOn inst e e') (h' : SameOn inst e' e'') : SameOn inst e e'' where
  attributed := fun s => (h'.attributed s).trans (h.attributed s)
  targets := h'.targets.trans h.targets
  strategies := h'.strategies.trans h.strategies
  contrib := h'.contrib.trans h.contrib

theorem SameOn.contributions (h : SameOn inst e e') :
    e'.contributions inst = e.contributions inst := by
  unfold NettingEngine.contributions
  rw [h.strategies, h.targets]
  simp only [h.attributed]

/-- A cycle on one instrument leaves the others alone. -/
theorem netInstrument_sameOn (prices : Finmap fun _ : InstrumentId => Price) (e : NettingEngine)
    (orders : List NetOrder) {inst' : InstrumentId} (hne : inst ≠ inst') :
    SameOn inst e (netInstrument prices (e, orders) inst').1 := by
  rcases netInstrument_cases prices e orders inst' with
    ⟨-, heq⟩ | ⟨-, -, saved, log, heq⟩ | ⟨-, -, log, heq⟩
  · rw [heq]
    exact .refl inst e
  · rw [heq]
    refine ⟨fun s => ?_, rfl, rfl, rfl⟩
    refine (attributed_book e inst' _ s inst).trans ?_
    rw [if_neg hne, add_zero]
  · rw [heq]
    exact ⟨fun _ => rfl, rfl, rfl, Finmap.lookup_insert_of_ne _ hne⟩

theorem foldl_sameOn (prices : Finmap fun _ : InstrumentId => Price) {insts : List InstrumentId}
    (hinst : inst ∉ insts) (acc : NettingEngine × List NetOrder) :
    SameOn inst acc.1 (insts.foldl (netInstrument prices) acc).1 := by
  induction insts generalizing acc with
  | nil => exact .refl inst acc.1
  | cons inst' insts ih =>
    obtain ⟨hne, hrest⟩ := not_or.1 (mt List.mem_cons.2 hinst)
    exact (netInstrument_sameOn prices acc.1 acc.2 hne).trans (ih hrest _)

end SameOn

/-- A net order of a cycle from `e` to `e'`: the sum of the contributions, which are recorded. -/
structure Ordered (e e' : NettingEngine) (o : NetOrder) : Prop where
  ne_nil : e.contributions o.instrument ≠ []
  sum : ((e.contributions o.instrument).map Prod.snd).sum = o.delta
  delta_ne_zero : o.delta ≠ 0
  attributed : ∀ s, e'.attributed s o.instrument = e.attributed s o.instrument
  strategies : e'.strategies = e.strategies
  contrib : e'.contrib.lookup o.instrument = some (e.contributions o.instrument)

theorem foldl_ordered (prices : Finmap fun _ : InstrumentId => Price) {insts : List InstrumentId}
    (hnodup : insts.Nodup) (acc : NettingEngine × List NetOrder) {o : NetOrder}
    (ho : o ∈ (insts.foldl (netInstrument prices) acc).2) :
    o ∈ acc.2 ∨ o.instrument ∈ insts ∧
      Ordered acc.1 (insts.foldl (netInstrument prices) acc).1 o := by
  induction insts generalizing acc with
  | nil => exact Or.inl ho
  | cons inst insts ih =>
    obtain ⟨hnot, hnodup'⟩ := List.nodup_cons.1 hnodup
    rcases ih hnodup' (netInstrument prices acc inst) ho with hmem | ⟨hmem, hord⟩
    · rcases netInstrument_cases prices acc.1 acc.2 inst with
        ⟨-, heq⟩ | ⟨-, -, saved, log, heq⟩ | ⟨hne, hsum, log, heq⟩
      · rw [show acc = (acc.1, acc.2) from rfl, heq] at hmem
        exact Or.inl hmem
      · rw [show acc = (acc.1, acc.2) from rfl, heq] at hmem
        exact Or.inl hmem
      · rw [show acc = (acc.1, acc.2) from rfl, heq] at hmem
        rcases List.mem_append.1 hmem with hmem | hmem
        · exact Or.inl hmem
        · obtain rfl := List.mem_singleton.1 hmem
          refine Or.inr ⟨List.mem_cons_self, ?_⟩
          have hrest := foldl_sameOn prices hnot (netInstrument prices (acc.1, acc.2) inst)
          rw [heq] at hrest
          refine ⟨hne, rfl, hsum, fun s => ?_, ?_, ?_⟩
          · rw [List.foldl_cons, show acc = (acc.1, acc.2) from rfl, heq]
            exact hrest.attributed s
          · rw [List.foldl_cons, show acc = (acc.1, acc.2) from rfl, heq]
            exact hrest.strategies
          · rw [List.foldl_cons, show acc = (acc.1, acc.2) from rfl, heq]
            exact hrest.contrib.trans (Finmap.lookup_insert _)
    · -- the order is of a later instrument, which this one leaves alone
      have hne : o.instrument ≠ inst := fun heq => hnot (heq ▸ hmem)
      have hsame := netInstrument_sameOn prices acc.1 acc.2 hne
      refine Or.inr ⟨List.mem_cons_of_mem _ hmem, ?_⟩
      have hcontrib := hsame.contributions
      exact ⟨hcontrib ▸ hord.ne_nil, hcontrib ▸ hord.sum, hord.delta_ne_zero,
        fun s => (hord.attributed s).trans (hsame.attributed s),
        hord.strategies.trans hsame.strategies, hcontrib ▸ hord.contrib⟩

theorem computeCycle_order {e : NettingEngine} {prices : Finmap fun _ : InstrumentId => Price}
    {o : NetOrder} (ho : o ∈ (e.computeCycle prices).2) :
    Ordered e (e.computeCycle prices).1 o := by
  rcases foldl_ordered prices e.instruments.nodup_ascending (e, []) ho with hmem | ⟨-, hord⟩
  · exact absurd hmem List.not_mem_nil
  · exact hord

/-! ### One fill -/

instance : Std.Total allocBefore where
  total a b := by
    have hkey := UInt16.le_total a.key b.key
    unfold allocBefore
    rcases lt_trichotomy a.rem b.rem with h | h | h
    · exact Or.inr (Or.inl h)
    · rcases lt_trichotomy a.weight b.weight with h' | h' | h'
      · exact Or.inr (Or.inr ⟨h.symm, Or.inl h'⟩)
      · rcases hkey with hkey | hkey
        · exact Or.inl (Or.inr ⟨h, Or.inr ⟨h', hkey⟩⟩)
        · exact Or.inr (Or.inr ⟨h.symm, Or.inr ⟨h'.symm, hkey⟩⟩)
      · exact Or.inl (Or.inr ⟨h, Or.inl h'⟩)
    · exact Or.inl (Or.inl h)

instance : IsTrans _ allocBefore where
  trans a b c hab hbc := by
    unfold allocBefore at hab hbc ⊢
    rcases hab with hab | ⟨hrem, hab⟩
    · rcases hbc with hbc | ⟨hrem', -⟩
      · exact Or.inl (hbc.trans hab)
      · exact Or.inl (hrem' ▸ hab)
    · rcases hbc with hbc | ⟨hrem', hbc⟩
      · exact Or.inl (hrem ▸ hbc)
      · refine Or.inr ⟨hrem.trans hrem', ?_⟩
        rcases hab with hab | ⟨hweight, hab⟩
        · rcases hbc with hbc | ⟨hweight', -⟩
          · exact Or.inl (hbc.trans hab)
          · exact Or.inl (hweight' ▸ hab)
        · rcases hbc with hbc | ⟨hweight', hbc⟩
          · exact Or.inl (hweight ▸ hbc)
          · exact Or.inr ⟨hweight.trans hweight', UInt16.le_trans hab hbc⟩

theorem rem_le_of_allocBefore (a b : Apportion.Alloc StrategyId) (h : allocBefore a b) :
    b.rem ≤ a.rem := by
  rcases h with h | ⟨h, -⟩
  · exact h.le
  · exact h.ge

/-- What a fill moves a strategy by. -/
def moved (cs : List (StrategyId × Quantity)) (s : StrategyId) (q : Quantity) : Quantity :=
  ((shares cs q).map fun c => if s = c.1 then c.2 else 0).sum

/-- The absolute contributions add up to this. -/
abbrev totalAbs (cs : List (StrategyId × Quantity)) : ℤ := Apportion.total (weights cs)

section Share

variable {known : Finset StrategyId} {cs : List (StrategyId × Quantity)} {s : StrategyId}

theorem moved_of_notMem (hs : s ∉ cs.map Prod.fst) (q : Quantity) : moved cs s q = 0 := by
  refine List.sum_eq_zero fun d hd => ?_
  obtain ⟨c, hc, rfl⟩ := List.mem_map.1 hd
  refine if_neg fun heq => hs ?_
  rw [heq]
  exact (map_fst_shares cs q).mem_iff.1 (List.mem_map_of_mem hc)

/-- What a fill moves a contributor by is what it was allotted, with the sign of the fill. -/
theorem Recorded.moved_eq_alloc (h : Recorded known cs) (hs : s ∈ cs.map Prod.fst)
    (q : Quantity) :
    ∃ a ∈ Apportion.largestRemainder allocBefore (magnitude q) (weights cs),
      a.key = s ∧ moved cs s q = (if q < 0 then -1 else 1) * a.base := by
  have hnodup : ((shares cs q).map Prod.fst).Nodup := (map_fst_shares cs q).nodup_iff.2 h.nodup
  obtain ⟨c, hc, rfl⟩ := List.mem_map.1 ((map_fst_shares cs q).mem_iff.2 hs)
  rw [moved, List.sum_map_ite_of_nodup hnodup hc]
  obtain ⟨a, ha, rfl⟩ := List.mem_map.1 hc
  exact ⟨a, ha, rfl, rfl⟩

/-- The weight of a contributor is that of its only contribution. -/
theorem Recorded.weight_eq (h : Recorded known cs) {d : Quantity} (hd : (s, d) ∈ cs)
    {w : StrategyId × ℤ} (hw : w ∈ weights cs) (hkey : s = w.1) : w.2 = magnitude d := by
  obtain ⟨c, hc, rfl⟩ := List.mem_map.1 hw
  rw [List.inj_on_of_nodup_map h.nodup hc hd hkey.symm]

/-- **One fill moves a contributor by its pro-rata share up to less than one unit.** -/
theorem Recorded.abs_moved_sub_lt (h : Recorded known cs) {d : Quantity} (hd : (s, d) ∈ cs)
    (q : Quantity) : |moved cs s q * totalAbs cs - q * magnitude d| < totalAbs cs := by
  obtain ⟨a, ha, rfl, hmoved⟩ := h.moved_eq_alloc (List.mem_map_of_mem hd) q
  obtain ⟨w, hw, hkey, hlt⟩ :=
    Apportion.abs_sub_lt_of_mem h.total_pos rem_le_of_allocBefore ha
  rw [h.weight_eq hd hw hkey, magnitude] at hlt
  rw [hmoved]
  split_ifs at hlt ⊢ with hq
  · rw [← abs_neg]
    convert hlt using 2
    ring
  · convert hlt using 2
    ring

end Share

/-! ### A filled order -/

/-- The fills of an order, each with its price. -/
def attributeFills (e : NettingEngine) (inst : InstrumentId) (fills : List (Quantity × Price)) :
    NettingEngine :=
  fills.foldl (fun e f => e.attributeFill inst f.1 f.2) e

section Filled

variable {e : NettingEngine} {inst : InstrumentId} {cs : List (StrategyId × Quantity)}
variable {s : StrategyId}

/-- Fills add up, each apportioned by the same contributions. -/
theorem attributed_attributeFills (hcs : e.contrib.lookup inst = some cs)
    (h : Recorded e.strategies cs) (fills : List (Quantity × Price)) :
    (e.attributeFills inst fills).attributed s inst =
      e.attributed s inst + (fills.map fun f => moved cs s f.1).sum := by
  induction fills generalizing e with
  | nil => exact (add_zero _).symm
  | cons f fills ih =>
    have hone := attributeFill_recorded hcs h f.1 f.2
    have hattr : (e.attributeFill inst f.1 f.2).attributed s inst =
        e.attributed s inst + moved cs s f.1 := by
      rw [hone, attributed_book, if_pos rfl]
      rfl
    have hcs' : (e.attributeFill inst f.1 f.2).contrib.lookup inst = some cs := by
      rw [hone]
      exact hcs
    have hrec : Recorded (e.attributeFill inst f.1 f.2).strategies cs := by
      rw [hone]
      exact h
    rw [attributeFills, List.foldl_cons, ← attributeFills, ih hcs' hrec, hattr, List.map_cons,
      List.sum_cons, add_assoc]

/-- Errors of less than one unit for each fill add up to less than one unit for each fill. -/
theorem abs_sum_moved_le {w : ℤ}
    (hone : ∀ q, |moved cs s q * totalAbs cs - q * w| < totalAbs cs)
    (fills : List (Quantity × Price)) :
    |(fills.map fun f => moved cs s f.1).sum * totalAbs cs - (fills.map Prod.fst).sum * w| ≤
      fills.length * (totalAbs cs - 1) := by
  induction fills with
  | nil => simp
  | cons f fills ih =>
    have hf := Int.le_sub_one_of_lt (hone f.1)
    simp only [List.map_cons, List.sum_cons, List.length_cons, Nat.cast_add, Nat.cast_one]
    have htri := abs_add_le (moved cs s f.1 * totalAbs cs - f.1 * w)
      ((fills.map fun f => moved cs s f.1).sum * totalAbs cs - (fills.map Prod.fst).sum * w)
    have hsplit : (moved cs s f.1 + (fills.map fun f => moved cs s f.1).sum) * totalAbs cs -
        (f.1 + (fills.map Prod.fst).sum) * w =
          moved cs s f.1 * totalAbs cs - f.1 * w +
            ((fills.map fun f => moved cs s f.1).sum * totalAbs cs -
              (fills.map Prod.fst).sum * w) := by
      ring
    rw [hsplit]
    linarith

/-- A strategy with a target contributes its delta, or has none. -/
theorem contributes_or_reached (hs : s ∈ e.strategies) {target : Quantity}
    (htarget : e.targets.lookup (key s inst) = some target) :
    (s, target - e.attributed s inst) ∈ e.contributions inst ∨
      target - e.attributed s inst = 0 ∧ s ∉ (e.contributions inst).map Prod.fst := by
  by_cases hzero : target - e.attributed s inst = 0
  · refine Or.inr ⟨hzero, fun hmem => ?_⟩
    obtain ⟨⟨s', d⟩, hc, rfl⟩ := List.mem_map.1 hmem
    obtain ⟨-, target', htarget', rfl, hne⟩ := mem_contributions.1 hc
    rw [htarget] at htarget'
    cases htarget'
    exact hne hzero
  · exact Or.inl (mem_contributions.2 ⟨hs, target, htarget, rfl, hzero⟩)

/-- Contributions of the sign of their sum weigh as much as the sum. -/
theorem totalAbs_of_sameSign {D : Quantity} (hsum : (cs.map Prod.snd).sum = D)
    (hsign : ∀ c ∈ cs, 0 < c.2 * D) : totalAbs cs = |D| := by
  have hsumAbs : ∀ l : List (StrategyId × Quantity), (∀ c ∈ l, 0 < c.2 * D) →
      totalAbs l * |D| = (l.map Prod.snd).sum * D := by
    intro l hl
    induction l with
    | nil => simp [totalAbs, weights, Apportion.total]
    | cons c l ih =>
      have hc := hl c List.mem_cons_self
      have ih' := ih fun c' hc' => hl c' (List.mem_cons_of_mem _ hc')
      have habs : magnitude c.2 * |D| = c.2 * D := by
        rw [magnitude_eq_abs, ← abs_mul]
        exact abs_of_pos hc
      have htotal : totalAbs (c :: l) = magnitude c.2 + totalAbs l := rfl
      rw [htotal, List.map_cons, List.sum_cons, add_mul, add_mul, habs, ih']
  have h := hsumAbs cs hsign
  rw [hsum] at h
  by_cases hD : D = 0
  · subst hD
    cases cs with
    | nil => rfl
    | cons c cs => simpa using hsign c List.mem_cons_self
  · have hpos : 0 < |D| := abs_pos.2 hD
    refine mul_right_cancel₀ hpos.ne' (h.trans ?_)
    rw [abs_mul_abs_self]

end Filled

section Main

variable {ops : List NettingOp} {prices : Finmap fun _ : InstrumentId => Price} {o : NetOrder}
variable {fills : List (Quantity × Price)} {s : StrategyId} {target : Quantity}

/-- **A filled net order.** Let a cycle of any reached engine emit an order, and let `k` fills add
up to its delta. Then a strategy with a target has moved by its pro-rata share of the order, up to
less than `k` units; and if all contributions have the sign of the order, it is less than `k` units
from its target. -/
theorem filled_order_near_target
    (ho : o ∈ ((nettingMachine.run {} ops).computeCycle prices).2)
    (hsum : (fills.map Prod.fst).sum = o.delta)
    (htarget : (nettingMachine.run {} ops).targets.lookup (key s o.instrument) = some target) :
    let e := nettingMachine.run {} ops
    let e' := (e.computeCycle prices).1.attributeFills o.instrument fills
    let delta := target - e.attributed s o.instrument
    let moved := e'.attributed s o.instrument - e.attributed s o.instrument
    |moved * totalAbs (e.contributions o.instrument) - o.delta * magnitude delta| <
        fills.length * totalAbs (e.contributions o.instrument) ∧
      ((∀ c ∈ e.contributions o.instrument, 0 < c.2 * o.delta) →
        |e'.attributed s o.instrument - target| < fills.length) := by
  intro e e' delta moved
  have hknown := known_run ops
  have hord := computeCycle_order ho
  have hrec := recorded_contributions hord.ne_nil
  have hs : s ∈ e.strategies := (hknown.target s o.instrument (Finmap.mem_iff.2 ⟨_, htarget⟩)).1
  have hmoved : moved = (fills.map fun f => NettingEngine.moved (e.contributions o.instrument) s
      f.1).sum := by
    have hfills := attributed_attributeFills (s := s) hord.contrib
      (hord.strategies.symm ▸ hrec) fills
    rw [hord.attributed s] at hfills
    exact sub_eq_iff_eq_add'.2 hfills
  have hlen : 0 < (fills.length : ℤ) := by
    have hne : fills ≠ [] := by
      rintro rfl
      exact hord.delta_ne_zero hsum.symm
    exact_mod_cast List.length_pos_iff.2 hne
  have hT := hrec.total_pos
  have hcontrib := contributes_or_reached hs htarget
  have hone : ∀ q, |NettingEngine.moved (e.contributions o.instrument) s q *
      totalAbs (e.contributions o.instrument) - q * magnitude delta| <
        totalAbs (e.contributions o.instrument) := by
    intro q
    rcases hcontrib with hmem | ⟨hzero, hnot⟩
    · exact hrec.abs_moved_sub_lt hmem q
    · rw [moved_of_notMem hnot, show delta = 0 from hzero]
      simpa [magnitude] using hT
  have hle := abs_sum_moved_le hone fills
  rw [hsum, ← hmoved, mul_sub, mul_one] at hle
  have hlt := hle.trans_lt (sub_lt_self _ hlen)
  refine ⟨hlt, fun hsign => ?_⟩
  -- with one sign throughout, the pro-rata share of the order is the contribution
  have hshare : o.delta * magnitude delta =
      delta * totalAbs (e.contributions o.instrument) := by
    rw [totalAbs_of_sameSign hord.sum hsign, magnitude_eq_abs]
    rcases hcontrib with hmem | ⟨hzero, -⟩
    · have hpos : 0 < delta * o.delta := hsign _ hmem
      rcases pos_and_pos_or_neg_and_neg_of_mul_pos hpos with ⟨hd, hD⟩ | ⟨hd, hD⟩
      · rw [abs_of_pos hd, abs_of_pos hD, mul_comm]
      · rw [abs_of_neg hd, abs_of_neg hD]
        ring
    · rw [show delta = 0 from hzero, abs_zero, mul_zero, zero_mul]
  have hdiff : e'.attributed s o.instrument - target = moved - delta := by
    show _ = e'.attributed s o.instrument - e.attributed s o.instrument -
      (target - e.attributed s o.instrument)
    ring
  rw [hshare, ← sub_mul, abs_mul, abs_of_pos hT] at hlt
  rw [hdiff]
  exact lt_of_mul_lt_mul_right hlt hT.le

end Main

/-- Two strategies of one sign, and an order filled at once. -/
theorem filled_order_at_target :
    let e := nettingMachine.run {} [.setTarget 1 5 60, .setTarget 2 5 40]
    let e' := (e.computeCycle ∅).1.attributeFills 5 [(100, 10)]
    |e'.attributed 1 5 - 60| < 1 :=
  (@filled_order_near_target [.setTarget 1 5 60, .setTarget 2 5 40] ∅ ⟨5, 100⟩ [(100, 10)] 1 60
    (by decide) rfl rfl).2 (by decide)

/-- Opposing strategies: the order fills, and neither is at its target. Strategies of one sign: the
order fills in three parts, and none of them is at its target either, for every part goes to the
same strategy. -/
theorem filled_order_off_target :
    (let e := nettingMachine.run {} [.setTarget 1 5 3, .setTarget 2 5 (-1)]
      let e' := (e.computeCycle ∅).1.attributeFills 5 [(2, 10)]
      (e.computeCycle ∅).2 = [⟨5, 2⟩] ∧ e'.attributed 1 5 ≠ 3 ∧ e'.attributed 2 5 ≠ -1) ∧
    (let e := nettingMachine.run {} [.setTarget 1 5 1, .setTarget 2 5 1, .setTarget 3 5 1]
      let e' := (e.computeCycle ∅).1.attributeFills 5 [(1, 10), (1, 10), (1, 10)]
      (e.computeCycle ∅).2 = [⟨5, 3⟩] ∧ e'.attributed 1 5 = 3 ∧ e'.attributed 2 5 = 0 ∧
        e'.attributed 3 5 = 0) := by
  constructor <;> decide

end NettingEngine

end Oms
