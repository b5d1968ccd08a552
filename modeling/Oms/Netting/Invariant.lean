import Mathlib.Algebra.BigOperators.Ring.List
import Oms.Netting

/-!
# The netting invariant

The global position of every instrument is the sum of the attributed positions, except after a
fill that finds no recorded contributions: it is added to the global position and attributed to
nobody.

* `Known`: strategies and instruments the engine holds data of are known to it, and recorded
  contributions are non-empty, non-zero and of distinct known strategies;
* `Balanced`: global is the sum of attributed;
* `balanced_iff_fills_recorded`: the invariant holds along a run exactly if every fill with a
  quantity finds recorded contributions.
-/

namespace Oms

namespace NettingEngine

/-! ### Contributions -/

theorem mem_contributions {e : NettingEngine} {inst : InstrumentId} {s : StrategyId}
    {d : Quantity} : (s, d) ∈ e.contributions inst ↔ s ∈ e.strategies ∧
      ∃ target, e.targets.lookup (key s inst) = some target ∧
        d = target - e.attributed s inst ∧ d ≠ 0 := by
  unfold contributions
  rw [List.mem_filterMap]
  constructor
  · rintro ⟨s', hs', hsome⟩
    cases htarget : e.targets.lookup (key s' inst) with
    | none => simp [htarget] at hsome
    | some target =>
      simp only [htarget] at hsome
      split_ifs at hsome with hzero
      cases hsome
      exact ⟨Finset.mem_ascending.1 hs', target, htarget, rfl, hzero⟩
  · rintro ⟨hs, target, htarget, rfl, hne⟩
    refine ⟨s, Finset.mem_ascending.2 hs, ?_⟩
    simp only [htarget]
    rw [if_neg hne]

/-- Recorded contributions: non-empty, non-zero, of distinct known strategies. -/
structure Recorded (known : Finset StrategyId) (cs : List (StrategyId × Quantity)) : Prop where
  ne_nil : cs ≠ []
  nodup : (cs.map Prod.fst).Nodup
  ne_zero : ∀ c ∈ cs, c.2 ≠ 0
  mem : ∀ c ∈ cs, c.1 ∈ known

theorem Recorded.mono {known known' : Finset StrategyId} {cs : List (StrategyId × Quantity)}
    (h : Recorded known cs) (hsub : known ⊆ known') : Recorded known' cs :=
  ⟨h.ne_nil, h.nodup, h.ne_zero, fun c hc => hsub (h.mem c hc)⟩

/-- Each entry picks at most one pair, which it heads. -/
theorem sublist_map_fst {α β : Type} {f : α → Option (α × β)} (hf : ∀ a c, f a = some c → c.1 = a)
    (as : List α) : ((as.filterMap f).map Prod.fst).Sublist as := by
  induction as with
  | nil => exact List.Sublist.slnil
  | cons a as ih =>
    cases ha : f a with
    | none =>
      rw [List.filterMap_cons_none ha]
      exact ih.cons a
    | some c =>
      rw [List.filterMap_cons_some ha, List.map_cons, hf a c ha]
      exact ih.cons_cons a

/-- A strategy contributes at most once. -/
theorem nodup_contributions (e : NettingEngine) (inst : InstrumentId) :
    ((e.contributions inst).map Prod.fst).Nodup := by
  refine e.strategies.nodup_ascending.sublist (sublist_map_fst (fun s c hc => ?_) _)
  cases htarget : e.targets.lookup (key s inst) with
  | none => simp [htarget] at hc
  | some target =>
    simp only [htarget] at hc
    split_ifs at hc
    cases hc
    rfl

theorem recorded_contributions {e : NettingEngine} {inst : InstrumentId}
    (h : e.contributions inst ≠ []) : Recorded e.strategies (e.contributions inst) where
  ne_nil := h
  nodup := nodup_contributions e inst
  ne_zero := fun ⟨_, _⟩ hc => by
    obtain ⟨-, -, -, -, hne⟩ := mem_contributions.1 hc
    exact hne
  mem := fun ⟨_, _⟩ hc => (mem_contributions.1 hc).1

/-- The weights of recorded contributions have a positive total. -/
theorem Recorded.total_pos {known : Finset StrategyId} {cs : List (StrategyId × Quantity)}
    (h : Recorded known cs) : 0 < Apportion.total (weights cs) := by
  have hpos : ∀ c ∈ cs, 0 < magnitude c.2 := fun c hc => by
    rw [magnitude_eq_abs]
    exact abs_pos.2 (h.ne_zero c hc)
  have hne := h.ne_nil
  clear h
  unfold Apportion.total weights
  rw [List.map_map]
  induction cs with
  | nil => exact absurd rfl hne
  | cons c cs ih =>
    rw [List.map_cons, List.sum_cons]
    have hc := hpos c List.mem_cons_self
    by_cases hcs : cs = []
    · subst hcs
      simpa using hc
    · exact add_pos hc (ih (fun c hc => hpos c (List.mem_cons_of_mem _ hc)) hcs)

/-! ### One cycle -/

/-- What a cycle does on one instrument: nothing, a transfer between the strategies, or an order
whose contributions are recorded. -/
theorem netInstrument_cases (prices : Finmap fun _ : InstrumentId => Price) (e : NettingEngine)
    (orders : List NetOrder) (inst : InstrumentId) :
    (e.contributions inst = [] ∧ netInstrument prices (e, orders) inst = (e, orders)) ∨
    (e.contributions inst ≠ [] ∧ ((e.contributions inst).map Prod.snd).sum = 0 ∧
      ∃ saved log, netInstrument prices (e, orders) inst =
        ({ e.book inst (e.contributions inst) with savedNotional := saved, log := log }, orders)) ∨
    (e.contributions inst ≠ [] ∧ ((e.contributions inst).map Prod.snd).sum ≠ 0 ∧
      ∃ log, netInstrument prices (e, orders) inst =
        ({ e with contrib := e.contrib.insert inst (e.contributions inst), log := log },
          orders ++ [⟨inst, ((e.contributions inst).map Prod.snd).sum⟩])) := by
  unfold netInstrument
  dsimp only
  split_ifs with hnil hnet
  · exact Or.inl ⟨hnil, rfl⟩
  · exact Or.inr (Or.inl ⟨hnil, hnet, _, _, rfl⟩)
  · exact Or.inr (Or.inr ⟨hnil, hnet, _, rfl⟩)

/-- What every instrument of a cycle preserves, the cycle preserves. -/
theorem computeCycle_preserves {I : NettingEngine → Prop}
    {prices : Finmap fun _ : InstrumentId => Price}
    (hstep : ∀ e orders inst, I e → I (netInstrument prices (e, orders) inst).1)
    {e : NettingEngine} (h : I e) : I (e.computeCycle prices).1 := by
  have hfold : ∀ (insts : List InstrumentId) (acc : NettingEngine × List NetOrder), I acc.1 →
      I (insts.foldl (netInstrument prices) acc).1 := by
    intro insts
    induction insts with
    | nil => exact fun acc hacc => hacc
    | cons inst insts ih => exact fun acc hacc => ih _ (hstep acc.1 acc.2 inst hacc)
  exact hfold _ _ h

/-! ### What the engine knows -/

/-- Whatever the engine holds data of is known to it. -/
structure Known (e : NettingEngine) : Prop where
  target : ∀ s inst, key s inst ∈ e.targets → s ∈ e.strategies ∧ inst ∈ e.instruments
  attributed : ∀ s inst, s ∉ e.strategies → e.attributed s inst = 0
  contrib : ∀ inst cs, e.contrib.lookup inst = some cs → Recorded e.strategies cs

theorem known_init : Known {} where
  target := fun s inst h => absurd h Finmap.notMem_empty
  attributed := fun s inst _ => Finmap.get_empty _
  contrib := fun inst cs h => by simp at h

section Known

variable {e : NettingEngine} {inst : InstrumentId}

theorem Known.book (h : Known e) {moves : List (StrategyId × Quantity)}
    (hmoves : ∀ c ∈ moves, c.1 ∈ e.strategies) : Known (e.book inst moves) where
  target := h.target
  attributed := fun s inst' hs => by
    rw [attributed_book, h.attributed s inst' hs, zero_add]
    split_ifs
    · refine List.sum_eq_zero fun d hd => ?_
      obtain ⟨c, hc, rfl⟩ := List.mem_map.1 hd
      have hne : s ≠ c.1 := fun heq => hs (heq ▸ hmoves c hc)
      exact if_neg hne
    · rfl
  contrib := h.contrib

theorem Known.netInstrument (h : Known e) (prices : Finmap fun _ : InstrumentId => Price)
    (orders : List NetOrder) (inst : InstrumentId) :
    Known (netInstrument prices (e, orders) inst).1 := by
  rcases netInstrument_cases prices e orders inst with
    ⟨-, heq⟩ | ⟨hne, -, saved, log, heq⟩ | ⟨hne, -, log, heq⟩
  · rw [heq]
    exact h
  · rw [heq]
    have hbook : Known (e.book inst (e.contributions inst)) :=
      h.book (recorded_contributions hne).mem
    exact ⟨hbook.target, hbook.attributed, hbook.contrib⟩
  · rw [heq]
    refine ⟨h.target, h.attributed, fun inst' cs hcs => ?_⟩
    by_cases hinst : inst' = inst
    · subst hinst
      rw [Finmap.lookup_insert] at hcs
      cases hcs
      exact recorded_contributions hne
    · rw [Finmap.lookup_insert_of_ne _ hinst] at hcs
      exact h.contrib inst' cs hcs

/-- A fill on an instrument with recorded contributions is booked on the contributors. -/
theorem attributeFill_recorded {known : Finset StrategyId} {cs : List (StrategyId × Quantity)}
    (hcs : e.contrib.lookup inst = some cs) (h : Recorded known cs) (q : Quantity)
    (price : Price) :
    e.attributeFill inst q price =
      { e with global := e.global.adjust inst q }.book inst (shares cs q) := by
  unfold attributeFill
  dsimp only
  rw [hcs]
  dsimp only
  rw [if_neg h.ne_nil, if_neg h.total_pos.ne']

theorem attributeFill_unrecorded (hcs : e.contrib.lookup inst = none) (q : Quantity)
    (price : Price) :
    e.attributeFill inst q price = { e with global := e.global.adjust inst q } := by
  unfold attributeFill
  dsimp only
  rw [hcs]

theorem map_fst_shares (cs : List (StrategyId × Quantity)) (q : Quantity) :
    ((shares cs q).map Prod.fst).Perm (cs.map Prod.fst) := by
  have h : ((Apportion.largestRemainder allocBefore (magnitude q) (weights cs)).map
      Apportion.Alloc.key).Perm ((weights cs).map Prod.fst) :=
    Apportion.map_key_largestRemainder
  have hfst : (weights cs).map Prod.fst = cs.map Prod.fst := by
    rw [weights, List.map_map]
    rfl
  rw [shares, List.map_map, ← hfst]
  exact h

theorem Recorded.shares_mem {known : Finset StrategyId} {cs : List (StrategyId × Quantity)}
    (h : Recorded known cs) (q : Quantity) : ∀ c ∈ shares cs q, c.1 ∈ known := by
  intro c hc
  obtain ⟨c', hc', heq⟩ :=
    List.mem_map.1 ((map_fst_shares cs q).mem_iff.1 (List.mem_map_of_mem hc))
  exact heq ▸ h.mem c' hc'

/-- A fill is attributed without remainder. -/
theorem Recorded.sum_shares {known : Finset StrategyId} {cs : List (StrategyId × Quantity)}
    (h : Recorded known cs) (q : Quantity) : ((shares cs q).map Prod.snd).sum = q := by
  have hsum : ((Apportion.largestRemainder allocBefore (magnitude q) (weights cs)).map
      Apportion.Alloc.base).sum = magnitude q := Apportion.sum_largestRemainder h.total_pos
  have hscale : ((shares cs q).map Prod.snd).sum = (if q < 0 then -1 else 1) * magnitude q := by
    conv_rhs => rw [← hsum, ← List.sum_map_mul_left]
    rw [shares, List.map_map]
    rfl
  rw [hscale, magnitude]
  split_ifs <;> ring

theorem known_step (h : Known e) (op : NettingOp) : Known (e.step op) := by
  cases op with
  | setTarget s inst target =>
    have hsub : e.strategies ⊆ insert s e.strategies := Finset.subset_insert _ _
    refine ⟨fun s' inst' hmem => ?_, fun s' inst' hs' => ?_, fun inst' cs hcs => ?_⟩
    · rcases Finmap.mem_insert.1 hmem with heq | hmem
      · obtain ⟨rfl, rfl⟩ := key_inj.1 heq
        exact ⟨Finset.mem_insert_self _ _, Finset.mem_insert_self _ _⟩
      · obtain ⟨hs, hinst⟩ := h.target s' inst' hmem
        exact ⟨hsub hs, Finset.mem_insert_of_mem hinst⟩
    · exact h.attributed s' inst' fun hs => hs' (hsub hs)
    · exact (h.contrib inst' cs hcs).mono hsub
  | setAttributed s inst q =>
    have hsub : e.strategies ⊆ insert s e.strategies := Finset.subset_insert _ _
    refine ⟨fun s' inst' hmem => ?_, fun s' inst' hs' => ?_, fun inst' cs hcs => ?_⟩
    · obtain ⟨hs, hinst⟩ := h.target s' inst' hmem
      exact ⟨hsub hs, Finset.mem_insert_of_mem hinst⟩
    · have hne : key s' inst' ≠ key s inst := fun heq =>
        hs' (Finset.mem_insert.2 (Or.inl (key_inj.1 heq).1))
      show (e.attributedMap.insert (key s inst) q).get (key s' inst') = 0
      rw [Finmap.get_insert_of_ne _ _ hne]
      exact h.attributed s' inst' fun hs => hs' (hsub hs)
    · exact (h.contrib inst' cs hcs).mono hsub
  | computeCycle prices =>
    exact computeCycle_preserves (fun e orders inst he => he.netInstrument prices orders inst) h
  | attributeFill inst q price =>
    show Known (e.attributeFill inst q price)
    have hglobal : Known { e with global := e.global.adjust inst q } :=
      ⟨h.target, h.attributed, h.contrib⟩
    cases hcs : e.contrib.lookup inst with
    | none =>
      rw [attributeFill_unrecorded hcs]
      exact hglobal
    | some cs =>
      have hrec := h.contrib inst cs hcs
      rw [attributeFill_recorded hcs hrec]
      exact hglobal.book (hrec.shares_mem q)

end Known

/-! ### The invariant -/

/-- The global position of every instrument is the sum of the attributed positions. -/
def Balanced (e : NettingEngine) : Prop :=
  ∀ inst, e.globalPosition inst = ∑ s ∈ e.strategies, e.attributed s inst

theorem balanced_init : Balanced {} := fun _ => by
  simp [globalPosition]

theorem Balanced.checkInvariant {e : NettingEngine} (h : Balanced e) :
    e.checkInvariant = true :=
  @decide_eq_true _ Finset.decidableDforallFinset fun inst _ => (h inst).symm

section Balanced

variable {e : NettingEngine} {inst : InstrumentId}

/-- A strategy that becomes known has nothing attributed yet. -/
theorem Known.sum_insert (h : Known e) (s : StrategyId) (inst : InstrumentId) :
    ∑ s' ∈ insert s e.strategies, e.attributed s' inst =
      ∑ s' ∈ e.strategies, e.attributed s' inst := by
  by_cases hs : s ∈ e.strategies
  · rw [Finset.insert_eq_of_mem hs]
  · rw [Finset.sum_insert hs, h.attributed s inst hs, zero_add]

theorem Balanced.setTarget (hk : Known e) (h : Balanced e) (s : StrategyId)
    (inst : InstrumentId) (target : Quantity) : Balanced (e.setTarget s inst target) :=
  fun inst' => (h inst').trans (hk.sum_insert s inst').symm

theorem Balanced.setAttributed (hk : Known e) (h : Balanced e) (s : StrategyId)
    (inst : InstrumentId) (q : Quantity) : Balanced (e.setAttributed s inst q) := by
  intro inst'
  have hattr : ∀ s', (e.setAttributed s inst q).attributed s' inst' = e.attributed s' inst' +
      if s' = s then (if inst' = inst then q - e.attributed s inst else 0) else 0 := by
    intro s'
    show (e.attributedMap.insert (key s inst) q).get (key s' inst') = _
    rw [Finmap.get_insert]
    by_cases hkey : key s' inst' = key s inst
    · obtain ⟨rfl, rfl⟩ := key_inj.1 hkey
      rw [if_pos rfl, if_pos rfl, if_pos rfl, add_sub_cancel]
    · rw [if_neg hkey]
      split_ifs with hs hinst
      · exact absurd (key_inj.2 ⟨hs, hinst⟩) hkey
      · exact (add_zero _).symm
      · exact (add_zero _).symm
  show (e.global.adjust inst _).get inst' = ∑ s' ∈ insert s e.strategies, _
  rw [Finmap.get_adjust, Finset.sum_congr rfl fun s' _ => hattr s', Finset.sum_add_distrib,
    hk.sum_insert, Finset.sum_ite_eq', if_pos (Finset.mem_insert_self _ _), ← h inst']
  rfl

theorem Balanced.netInstrument (h : Balanced e) (prices : Finmap fun _ : InstrumentId => Price)
    (orders : List NetOrder) (inst : InstrumentId) :
    Balanced (netInstrument prices (e, orders) inst).1 := by
  rcases netInstrument_cases prices e orders inst with
    ⟨-, heq⟩ | ⟨hne, hzero, saved, log, heq⟩ | ⟨hne, -, log, heq⟩
  · rw [heq]
    exact h
  · rw [heq]
    intro inst'
    refine Eq.trans ?_ (sum_book e inst _ (recorded_contributions hne).mem inst').symm
    rw [hzero, ite_self, add_zero]
    exact h inst'
  · rw [heq]
    exact h

/-- A fill keeps the invariant exactly if it has no quantity or finds recorded contributions. -/
theorem balanced_attributeFill_iff (hk : Known e) (h : Balanced e) (inst : InstrumentId)
    (q : Quantity) (price : Price) :
    Balanced (e.attributeFill inst q price) ↔ (q ≠ 0 → inst ∈ e.contrib) := by
  cases hcs : e.contrib.lookup inst with
  | none =>
    rw [attributeFill_unrecorded hcs]
    have hmem : inst ∉ e.contrib := Finmap.lookup_eq_none.1 hcs
    constructor
    · intro hbal hq
      have hinst := hbal inst
      have hglobal : e.globalPosition inst + q = e.globalPosition inst := by
        refine Eq.trans ?_ (hinst.trans (h inst).symm)
        exact (Finmap.get_adjust_self _ _ _).symm
      exact absurd (add_eq_left.1 hglobal) hq
    · intro hq inst'
      have hzero : q = 0 := not_not.1 fun hne => hmem (hq hne)
      subst hzero
      refine Eq.trans ?_ (h inst')
      show (e.global.adjust inst 0).get inst' = _
      rw [Finmap.get_adjust, ite_self, add_zero]
      rfl
  | some cs =>
    have hrec := hk.contrib inst cs hcs
    rw [attributeFill_recorded hcs hrec]
    have hmem : inst ∈ e.contrib := Finmap.mem_iff.2 ⟨cs, hcs⟩
    refine ⟨fun _ _ => hmem, fun _ inst' => ?_⟩
    refine Eq.trans ?_ (sum_book _ inst _ (hrec.shares_mem q) inst').symm
    rw [hrec.sum_shares]
    show (e.global.adjust inst q).get inst' = _ + _
    rw [Finmap.get_adjust]
    exact congrArg (· + _) (h inst')

end Balanced

/-! ### Every run -/

/-- A fill has no quantity or finds recorded contributions. -/
def FillRecorded (e : NettingEngine) (op : NettingOp) : Prop :=
  ∀ inst q price, op = .attributeFill inst q price → q ≠ 0 → inst ∈ e.contrib

theorem known_run (ops : List NettingOp) : Known (nettingMachine.run {} ops) :=
  Machine.run_invariant (I := Known) (G := fun _ _ => True) (fun _ op h _ => known_step h op)
    known_init (Machine.admits_true _ _ _)

theorem balanced_step_iff {e : NettingEngine} (hk : Known e) (h : Balanced e) (op : NettingOp) :
    Balanced (e.step op) ↔ FillRecorded e op := by
  cases op with
  | setTarget s inst target =>
    exact ⟨fun _ _ _ _ heq => NettingOp.noConfusion heq, fun _ => h.setTarget hk s inst target⟩
  | setAttributed s inst q =>
    exact ⟨fun _ _ _ _ heq => NettingOp.noConfusion heq, fun _ => h.setAttributed hk s inst q⟩
  | computeCycle prices =>
    refine ⟨fun _ _ _ _ heq => NettingOp.noConfusion heq, fun _ => ?_⟩
    exact computeCycle_preserves (fun e orders inst he => he.netInstrument prices orders inst) h
  | attributeFill inst q price =>
    refine (balanced_attributeFill_iff hk h inst q price).trans ⟨fun hq => ?_, fun hq => ?_⟩
    · rintro inst' q' price' heq
      cases heq
      exact hq
    · exact hq inst q price rfl

/-- **The netting invariant holds all along a run exactly if every fill with a quantity finds
recorded contributions.** -/
theorem balanced_iff_fills_recorded (ops : List NettingOp) :
    (∀ pre, pre <+: ops → Balanced (nettingMachine.run {} pre) ∧
      (nettingMachine.run {} pre).checkInvariant = true) ↔
        nettingMachine.Admits FillRecorded {} ops := by
  have hstep : ∀ e op, Known e ∧ Balanced e →
      (Known (nettingMachine.step e op) ∧ Balanced (nettingMachine.step e op) ↔
        FillRecorded e op) := fun e op h =>
    (and_iff_right (known_step h.1 op)).trans (balanced_step_iff h.1 h.2 op)
  rw [← Machine.forall_prefix_iff_admits hstep ⟨known_init, balanced_init⟩]
  refine forall₂_congr fun pre _ => ⟨fun h => ⟨known_run pre, h.1⟩, fun h => ?_⟩
  exact ⟨h.2, h.2.checkInvariant⟩

/-- A fill on an instrument with a target, before any cycle. -/
theorem fill_before_cycle : (nettingMachine.run {}
    [.setTarget 1 5 60, .attributeFill 5 10 100]).checkInvariant = false := by
  decide

end NettingEngine

end Oms
