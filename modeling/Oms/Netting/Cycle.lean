import Oms.Netting.Attribution

/-!
# A netting cycle emits exactly the net deltas

* `computeCycle_orders`: one order for each instrument with a net delta, in ascending order;
* `attributed_computeCycle`: on the other instruments the strategies reach their targets;
* `computeCycle_again`: a second cycle finds nothing to transfer and repeats the orders;
* `cycle_emits_net_deltas`: the cycle of any reached engine.
-/

namespace Oms

namespace NettingEngine

/-- What the strategies with a target on an instrument are short of their targets, in total. -/
def netDelta (e : NettingEngine) (inst : InstrumentId) : Quantity :=
  ∑ s ∈ e.strategies with key s inst ∈ e.targets,
    (e.targets.get (key s inst) - e.attributed s inst)

/-- The order of a cycle on an instrument. -/
def netOrder? (e : NettingEngine) (inst : InstrumentId) : Option NetOrder :=
  if e.netDelta inst = 0 then none else some ⟨inst, e.netDelta inst⟩

/-! ### Contributions -/

section Contributions

variable {e : NettingEngine} {inst : InstrumentId} {s : StrategyId}

/-- The contributions add up to the net delta. -/
theorem sum_contributions (e : NettingEngine) (inst : InstrumentId) :
    ((e.contributions inst).map Prod.snd).sum = e.netDelta inst := by
  rw [contributions, List.sum_map_filterMap, Finset.sum_map_ascending, netDelta,
    Finset.sum_filter]
  refine Finset.sum_congr rfl fun s _ => ?_
  cases htarget : e.targets.lookup (key s inst) with
  | none => rw [if_neg (Finmap.lookup_eq_none.1 htarget), Option.elim_none]
  | some target =>
    have hget : e.targets.get (key s inst) = target := by simp [Finmap.get, htarget]
    rw [if_pos (Finmap.mem_iff.2 ⟨target, htarget⟩), hget]
    by_cases hzero : target - e.attributed s inst = 0
    · simp [hzero]
    · simp [hzero]

/-- What a transfer moves a strategy with a target by. -/
theorem sum_contributions_of (hs : s ∈ e.strategies) {target : Quantity}
    (htarget : e.targets.lookup (key s inst) = some target) :
    ((e.contributions inst).map fun c => if s = c.1 then c.2 else 0).sum =
      target - e.attributed s inst := by
  rcases contributes_or_reached hs htarget with hmem | ⟨hzero, hnot⟩
  · exact List.sum_map_ite_of_nodup (nodup_contributions e inst) hmem
  · rw [hzero]
    refine List.sum_eq_zero fun d hd => ?_
    obtain ⟨c, hc, rfl⟩ := List.mem_map.1 hd
    have hne : s ≠ c.1 := by
      rintro rfl
      exact hnot (List.mem_map_of_mem hc)
    exact if_neg hne

/-- Where nobody contributes, every strategy with a target is at it. -/
theorem contributions_eq_nil_iff : e.contributions inst = [] ↔
    ∀ s ∈ e.strategies, ∀ target, e.targets.lookup (key s inst) = some target →
      target = e.attributed s inst := by
  rw [List.eq_nil_iff_forall_not_mem]
  constructor
  · intro h s hs target htarget
    by_contra hne
    exact h _ (mem_contributions.2 ⟨hs, target, htarget, rfl, sub_ne_zero.2 hne⟩)
  · rintro h ⟨s, d⟩ hc
    obtain ⟨hs, target, htarget, rfl, hne⟩ := mem_contributions.1 hc
    exact hne (sub_eq_zero.2 (h s hs target htarget))

end Contributions

/-! ### One cycle -/

theorem SameOn.netDelta {inst : InstrumentId} {e e' : NettingEngine} (h : SameOn inst e e') :
    e'.netDelta inst = e.netDelta inst := by
  rw [← sum_contributions, h.contributions, sum_contributions]

/-- What a cycle never changes. -/
structure SameBook (e e' : NettingEngine) : Prop where
  targets : e'.targets = e.targets
  strategies : e'.strategies = e.strategies
  instruments : e'.instruments = e.instruments
  global : e'.global = e.global

section Cycle

variable {e : NettingEngine} {inst : InstrumentId} {insts : List InstrumentId}
variable (prices : Finmap fun _ : InstrumentId => Price)

theorem netInstrument_orders (e : NettingEngine) (orders : List NetOrder) (inst : InstrumentId) :
    (netInstrument prices (e, orders) inst).2 = orders ++ (e.netOrder? inst).toList := by
  unfold netOrder?
  rw [← sum_contributions]
  rcases netInstrument_cases prices e orders inst with
    ⟨hnil, heq⟩ | ⟨-, hzero, saved, log, heq⟩ | ⟨-, hne, log, heq⟩
  · rw [heq, hnil]
    simp
  · rw [heq, if_pos hzero]
    simp
  · rw [heq, if_neg hne]
    rfl

theorem foldl_orders (hnodup : insts.Nodup) (acc : NettingEngine × List NetOrder) :
    (insts.foldl (netInstrument prices) acc).2 = acc.2 ++ insts.filterMap acc.1.netOrder? := by
  induction insts generalizing acc with
  | nil => simp
  | cons inst insts ih =>
    obtain ⟨hnot, hnodup'⟩ := List.nodup_cons.1 hnodup
    -- the instruments that follow are still as they were
    have hrest : insts.filterMap (netInstrument prices acc inst).1.netOrder? =
        insts.filterMap acc.1.netOrder? := by
      refine List.filterMap_congr fun inst' hinst' => ?_
      have hne : inst' ≠ inst := fun heq => hnot (heq ▸ hinst')
      unfold netOrder?
      rw [(netInstrument_sameOn prices acc.1 acc.2 hne).netDelta]
    rw [List.foldl_cons, ih hnodup', hrest, netInstrument_orders, List.append_assoc]
    congr 1
    cases hopt : acc.1.netOrder? inst with
    | none => rw [List.filterMap_cons_none hopt, Option.toList_none, List.nil_append]
    | some o => rw [List.filterMap_cons_some hopt, Option.toList_some, List.singleton_append]

theorem computeCycle_orders (e : NettingEngine) :
    (e.computeCycle prices).2 = e.instruments.ascending.filterMap e.netOrder? :=
  foldl_orders prices e.instruments.nodup_ascending (e, [])

theorem computeCycle_sameBook (e : NettingEngine) : SameBook e (e.computeCycle prices).1 := by
  refine computeCycle_preserves (I := SameBook e) (fun e' orders inst h => ?_)
    ⟨rfl, rfl, rfl, rfl⟩
  rcases netInstrument_cases prices e' orders inst with
    ⟨-, heq⟩ | ⟨-, -, saved, log, heq⟩ | ⟨-, -, log, heq⟩
  · rw [heq]
    exact h
  · rw [heq]
    exact ⟨h.targets, h.strategies, h.instruments, h.global⟩
  · rw [heq]
    exact ⟨h.targets, h.strategies, h.instruments, h.global⟩

/-- On its instrument a cycle books the contributions if they net to zero, and else nothing. -/
theorem attributed_netInstrument (e : NettingEngine) (orders : List NetOrder)
    (inst : InstrumentId) (s : StrategyId) :
    (netInstrument prices (e, orders) inst).1.attributed s inst = e.attributed s inst +
      if e.netDelta inst = 0 then
        ((e.contributions inst).map fun c => if s = c.1 then c.2 else 0).sum else 0 := by
  rw [← sum_contributions]
  rcases netInstrument_cases prices e orders inst with
    ⟨hnil, heq⟩ | ⟨-, hzero, saved, log, heq⟩ | ⟨-, hne, log, heq⟩
  · rw [heq, hnil]
    simp
  · rw [heq, if_pos hzero]
    refine (attributed_book e inst _ s inst).trans ?_
    rw [if_pos rfl]
  · rw [heq, if_neg hne, add_zero]
    rfl

theorem foldl_attributed (hnodup : insts.Nodup) (hinst : inst ∈ insts)
    (acc : NettingEngine × List NetOrder) (s : StrategyId) :
    (insts.foldl (netInstrument prices) acc).1.attributed s inst = acc.1.attributed s inst +
      if acc.1.netDelta inst = 0 then
        ((acc.1.contributions inst).map fun c => if s = c.1 then c.2 else 0).sum else 0 := by
  induction insts generalizing acc with
  | nil => exact absurd hinst List.not_mem_nil
  | cons inst' insts ih =>
    obtain ⟨hnot, hnodup'⟩ := List.nodup_cons.1 hnodup
    rw [List.foldl_cons]
    rcases List.mem_cons.1 hinst with rfl | hinst'
    · rw [(foldl_sameOn prices hnot _).attributed]
      exact attributed_netInstrument prices acc.1 acc.2 inst s
    · have hne : inst ≠ inst' := fun heq => hnot (heq ▸ hinst')
      have hsame := netInstrument_sameOn prices acc.1 acc.2 hne
      rw [ih hnodup' hinst', hsame.attributed, hsame.netDelta, hsame.contributions]

theorem Known.contributions_eq_nil (hk : Known e) (hinst : inst ∉ e.instruments) :
    e.contributions inst = [] :=
  contributions_eq_nil_iff.2 fun s _ _ htarget =>
    absurd (hk.target s inst (Finmap.mem_iff.2 ⟨_, htarget⟩)).2 hinst

/-- An unknown instrument has no net delta. -/
theorem Known.netDelta_eq_zero (hk : Known e) (hinst : inst ∉ e.instruments) :
    e.netDelta inst = 0 := by
  rw [← sum_contributions, hk.contributions_eq_nil hinst]
  rfl

/-- **Where there is no net delta the contributions are booked; elsewhere nothing is.** -/
theorem attributed_computeCycle (hk : Known e) (s : StrategyId) (inst : InstrumentId) :
    (e.computeCycle prices).1.attributed s inst = e.attributed s inst +
      if e.netDelta inst = 0 then
        ((e.contributions inst).map fun c => if s = c.1 then c.2 else 0).sum else 0 := by
  by_cases hinst : inst ∈ e.instruments
  · exact foldl_attributed prices e.instruments.nodup_ascending
      (Finset.mem_ascending.2 hinst) (e, []) s
  · have hnot : inst ∉ e.instruments.ascending := fun h => hinst (Finset.mem_ascending.1 h)
    have hsame : SameOn inst e (e.computeCycle prices).1 := foldl_sameOn prices hnot (e, [])
    rw [hsame.attributed, hk.contributions_eq_nil hinst]
    simp

theorem attributed_of_ordered (hk : Known e) (hnet : e.netDelta inst ≠ 0) (s : StrategyId) :
    (e.computeCycle prices).1.attributed s inst = e.attributed s inst := by
  rw [attributed_computeCycle prices hk, if_neg hnet, add_zero]

theorem attributed_of_transferred (hk : Known e) (hnet : e.netDelta inst = 0) {s : StrategyId}
    {target : Quantity} (htarget : e.targets.lookup (key s inst) = some target) :
    (e.computeCycle prices).1.attributed s inst = target := by
  have hs : s ∈ e.strategies := (hk.target s inst (Finmap.mem_iff.2 ⟨_, htarget⟩)).1
  rw [attributed_computeCycle prices hk, if_pos hnet, sum_contributions_of hs htarget,
    add_sub_cancel]

end Cycle

/-! ### The next cycle -/

section Again

variable {e : NettingEngine} {inst : InstrumentId}
variable (prices : Finmap fun _ : InstrumentId => Price)

/-- After a cycle the ordered instruments have the contributions they had, the others none. -/
theorem contributions_computeCycle (hk : Known e) (inst : InstrumentId) :
    (e.computeCycle prices).1.contributions inst =
      if e.netDelta inst = 0 then [] else e.contributions inst := by
  have hbook := computeCycle_sameBook prices e
  split_ifs with hnet
  · refine contributions_eq_nil_iff.2 fun s _ target htarget => ?_
    rw [hbook.targets] at htarget
    exact (attributed_of_transferred prices hk hnet htarget).symm
  · unfold contributions
    rw [hbook.targets, hbook.strategies]
    simp only [attributed_of_ordered prices hk hnet]

theorem netDelta_computeCycle (hk : Known e) (inst : InstrumentId) :
    (e.computeCycle prices).1.netDelta inst = e.netDelta inst := by
  rw [← sum_contributions, contributions_computeCycle prices hk]
  split_ifs with hnet
  · exact hnet.symm
  · exact sum_contributions e inst

/-- Without contributions that net to zero a cycle books nothing. -/
theorem computeCycle_quiet
    (hquiet : ∀ inst, e.netDelta inst = 0 → e.contributions inst = []) :
    (e.computeCycle prices).1.attributedMap = e.attributedMap ∧
      (e.computeCycle prices).1.savedNotional = e.savedNotional := by
  have hall : (e.computeCycle prices).1.targets = e.targets ∧
      (e.computeCycle prices).1.strategies = e.strategies ∧
      (e.computeCycle prices).1.attributedMap = e.attributedMap ∧
      (e.computeCycle prices).1.savedNotional = e.savedNotional := by
    refine computeCycle_preserves (I := fun e' => e'.targets = e.targets ∧
      e'.strategies = e.strategies ∧ e'.attributedMap = e.attributedMap ∧
      e'.savedNotional = e.savedNotional) (fun e' orders inst h => ?_) ⟨rfl, rfl, rfl, rfl⟩
    obtain ⟨htargets, hstrategies, hattr, hsaved⟩ := h
    have hcontrib : e'.contributions inst = e.contributions inst := by
      unfold contributions attributed
      rw [htargets, hstrategies, hattr]
    rcases netInstrument_cases prices e' orders inst with
      ⟨-, heq⟩ | ⟨hne, hzero, saved, log, heq⟩ | ⟨-, -, log, heq⟩
    · rw [heq]
      exact ⟨htargets, hstrategies, hattr, hsaved⟩
    · rw [hcontrib] at hne hzero
      rw [sum_contributions] at hzero
      exact absurd (hquiet inst hzero) hne
    · rw [heq]
      exact ⟨htargets, hstrategies, hattr, hsaved⟩
  exact hall.2.2

/-- **A second cycle repeats the orders and books nothing.** -/
theorem computeCycle_again (hk : Known e)
    (prices' : Finmap fun _ : InstrumentId => Price) :
    let e' := (e.computeCycle prices).1
    (e'.computeCycle prices').2 = (e.computeCycle prices).2 ∧
      (e'.computeCycle prices').1.attributedMap = e'.attributedMap ∧
      (e'.computeCycle prices').1.savedNotional = e'.savedNotional := by
  intro e'
  refine ⟨?_, computeCycle_quiet prices' fun inst hzero => ?_⟩
  · rw [computeCycle_orders, computeCycle_orders, (computeCycle_sameBook prices e).instruments]
    refine List.filterMap_congr fun inst _ => ?_
    unfold netOrder?
    rw [netDelta_computeCycle prices hk]
  · rw [contributions_computeCycle prices hk, ← netDelta_computeCycle prices hk inst,
      if_pos hzero]

end Again

/-! ### Any reached engine -/

theorem mem_orders {e : NettingEngine} (hk : Known e)
    {prices : Finmap fun _ : InstrumentId => Price} {o : NetOrder} : o ∈ (e.computeCycle prices).2 ↔
      e.netDelta o.instrument ≠ 0 ∧ o.delta = e.netDelta o.instrument := by
  rw [computeCycle_orders, List.mem_filterMap]
  constructor
  · rintro ⟨inst, -, hsome⟩
    unfold netOrder? at hsome
    split_ifs at hsome with hzero
    cases hsome
    exact ⟨hzero, rfl⟩
  · rintro ⟨hne, hdelta⟩
    have hinst : o.instrument ∈ e.instruments := by
      by_contra hnot
      exact hne (hk.netDelta_eq_zero hnot)
    refine ⟨o.instrument, Finset.mem_ascending.2 hinst, ?_⟩
    unfold netOrder?
    rw [if_neg hne, ← hdelta]

/-- **A netting cycle emits exactly the net deltas.** -/
theorem cycle_emits_net_deltas (ops : List NettingOp)
    (prices : Finmap fun _ : InstrumentId => Price) :
    let e := nettingMachine.run {} ops
    let e' := (e.computeCycle prices).1
    let orders := (e.computeCycle prices).2
    (orders.map NetOrder.instrument).Pairwise (· < ·) ∧
      (∀ o, o ∈ orders ↔ e.netDelta o.instrument ≠ 0 ∧ o.delta = e.netDelta o.instrument) ∧
      (∀ inst, e.netDelta inst = 0 → ∀ s target, e.targets.lookup (key s inst) = some target →
        e'.attributed s inst = target) ∧
      (∀ inst, e'.globalPosition inst = e.globalPosition inst) ∧
      (∀ inst, e.netDelta inst ≠ 0 → ∀ s, e'.attributed s inst = e.attributed s inst) ∧
      ∀ prices', (e'.computeCycle prices').2 = orders ∧
        (∀ s inst, (e'.computeCycle prices').1.attributed s inst = e'.attributed s inst) ∧
        (e'.computeCycle prices').1.savedNotional = e'.savedNotional := by
  intro e e' orders
  have hk : Known e := known_run ops
  refine ⟨?_, fun o => mem_orders hk, fun inst hzero s target htarget => ?_, fun inst => ?_,
    fun inst hne s => attributed_of_ordered prices hk hne s, fun prices' => ?_⟩
  · rw [show orders = e.instruments.ascending.filterMap e.netOrder? from
      computeCycle_orders prices e]
    refine List.pairwise_map.2 (List.pairwise_filterMap.2 ?_)
    refine e.instruments.pairwise_lt_ascending.imp fun {inst inst'} hlt o ho o' ho' => ?_
    unfold netOrder? at ho ho'
    split_ifs at ho ho'
    cases ho
    cases ho'
    exact hlt
  · exact attributed_of_transferred prices hk hzero htarget
  · exact congrArg (Finmap.get · inst) (computeCycle_sameBook prices e).global
  · obtain ⟨horders, hattr, hsaved⟩ := computeCycle_again prices hk prices'
    exact ⟨horders, fun s inst => congrArg (Finmap.get · (key s inst)) hattr, hsaved⟩

end NettingEngine

end Oms
