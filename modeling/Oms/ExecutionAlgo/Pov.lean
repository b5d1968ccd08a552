import Oms.ExecutionAlgo.Twap

/-!
# When POV stays within its parent

Children of POV are its own, or those of the TWAP it degraded to.

* `PovAlgo.Sound`: what own children and the held TWAP may still fill stays within the parent's
  quantity; `Sound.onFill`, `Sound.dropChild` keep it;
* `CrossesClean`: the deadline cross finds no child in flight; `onTimer_steady`: a timer call that
  crosses clean keeps the algo sound;
* `pov_never_overexecutes`: a run whose timer calls cross clean never fills more than the parent;
* `pov_overexecutes`: the cross counts what is in flight again, and both may fill.
-/

namespace Oms

open OrderManager

namespace PovAlgo

/-- The configuration of the held TWAP. -/
def heldConfig {W : Type} (cfg : AlgoConfig W) : AlgoConfig W :=
  { cfg with slices := cfg.residualTwapSlices }

/-- POV works `p`: its children are the working orders of the book, and what it filled and what its
children and the held TWAP may still fill stay within the parent's quantity. -/
structure Sound {W : Type} (cfg : AlgoConfig W) (p : ParentOrder) (a : PovAlgo W) (c : ChildBook) :
    Prop where
  config : a.config = cfg
  parent : a.parent = p
  positive : a.Positive
  filled : a.filled = c.executed
  plain : a.held = none →
    Splits c (fun _ => none) a.rest ∧ a.filled + a.toAlgoBase.inflight ≤ p.qty
  degraded : ∀ t, a.held = some t →
    t.Sound (heldConfig cfg) t.parent a.rest c ∧
      a.filled + a.toAlgoBase.inflight + (t.parent.qty - t.filled) ≤ p.qty

section Sound

variable {W : Type} {cfg : AlgoConfig W} {p : ParentOrder} {a : PovAlgo W} {c : ChildBook}
  {o : Order} {id : OrderIdRaw} {qty : Quantity}

/-- Nothing more than the parent's quantity was filled. -/
theorem Sound.executed_le (h : a.Sound cfg p c) : c.executed ≤ p.qty := by
  have hnonneg := h.positive.inflight_nonneg
  rw [← h.filled]
  cases hheld : a.held with
  | none =>
    have hle := (h.plain hheld).2
    linarith
  | some t =>
    obtain ⟨ht, hle⟩ := h.degraded t hheld
    have hbound := ht.bound
    have htwap := ht.positive.inflight_nonneg
    linarith

/-- The table of own children, and what the held TWAP hears of an order. -/
theorem held_forward (o : Order) (f : TwapAlgo W → TwapAlgo W) {b : AlgoBase W} :
    ({ a with toAlgoBase := b, twap := a.forward o f } : PovAlgo W).held =
      if a.rest o.internalId = none then a.held.map f else a.held := by
  unfold held forward
  dsimp only
  by_cases hchild : a.rest o.internalId = none
  · rw [if_pos hchild, if_neg fun h => mem_children_iff.1 h hchild]
    by_cases hdegraded : a.degraded
    · rw [if_pos hdegraded, if_pos hdegraded, if_pos hdegraded]
    · rw [if_neg hdegraded, if_neg hdegraded]
      rfl
  · rw [if_neg hchild, if_pos (mem_children_iff.2 hchild)]

theorem Sound.onFill (h : a.Sound cfg p c) (hqty : 0 < qty) (hrem : 0 ≤ o.remaining)
    (hchild : c.working o.internalId = some (o.remaining + qty))
    (hstatus : o.status = .Filled ↔ o.remaining = 0) (price : Price) :
    (a.onFill o qty price).Sound cfg p
      (c.set o.internalId (if o.remaining = 0 then none else some o.remaining) qty) := by
  have hheld := held_forward (a := a) o (fun t => t.onFill o qty price)
    (b := a.toAlgoBase.onFill o qty price)
  change (a.onFill o qty price).held = _ at hheld
  have hfilled : (a.onFill o qty price).filled = c.executed + qty :=
    congrArg (· + qty) h.filled
  by_cases hown : a.rest o.internalId = none
  · -- a child of the held TWAP
    rw [if_pos hown] at hheld
    have hrest : (a.onFill o qty price).rest = a.rest := rest_onFill_other hown price
    have hinflight : (a.onFill o qty price).toAlgoBase.inflight = a.toAlgoBase.inflight :=
      inflight_onFill_other hown price
    refine ⟨h.config, h.parent, ?_, hfilled, fun hnone => ?_, fun t' ht' => ?_⟩
    · intro id q hq
      rw [hrest] at hq
      exact h.positive id q hq
    · rw [hheld, Option.map_eq_none_iff] at hnone
      have hworking : c.working o.internalId = a.rest o.internalId :=
        (h.plain hnone).1.working_inner rfl
      rw [hown, hchild] at hworking
      cases hworking
    · rw [hheld] at ht'
      obtain ⟨t, ht, rfl⟩ := Option.map_eq_some_iff.1 ht'
      obtain ⟨hsound, hle⟩ := h.degraded t ht
      rw [hrest, hinflight]
      refine ⟨hsound.onFill hown hqty hrem hchild hstatus price, ?_⟩
      show a.filled + qty + a.toAlgoBase.inflight + (t.parent.qty - (t.filled + qty)) ≤ p.qty
      linarith
  · -- an own child
    rw [if_neg hown] at hheld
    have hrest : (a.onFill o qty price).rest = Function.update a.rest o.internalId
        (if o.remaining = 0 then none else some o.remaining) := rest_onFill hown hstatus price
    have hpositive : (a.onFill o qty price).Positive := by
      refine h.positive.update hrest fun q hq => ?_
      split_ifs at hq with hzero
      cases hq
      exact lt_of_le_of_ne hrem (Ne.symm hzero)
    refine ⟨h.config, h.parent, hpositive, hfilled, fun hnone => ?_, fun t ht => ?_⟩
    · rw [hheld] at hnone
      obtain ⟨hsplits, hle⟩ := h.plain hnone
      have hmine : a.rest o.internalId = some (o.remaining + qty) :=
        (hsplits.working_inner rfl).symm.trans hchild
      rw [hrest]
      refine ⟨hsplits.set_inner rfl, ?_⟩
      show a.filled + qty + (a.toAlgoBase.onFill o qty price).inflight ≤ p.qty
      rw [inflight_onFill hmine hstatus price]
      linarith
    · rw [hheld] at ht
      obtain ⟨hsound, hle⟩ := h.degraded t ht
      have hin := (hsound.splits.apart o.internalId).resolve_left hown
      have hmine : a.rest o.internalId = some (o.remaining + qty) :=
        (hsound.splits.symm.working_inner hin).symm.trans hchild
      rw [hrest]
      refine ⟨hsound.set_outer hin, ?_⟩
      show a.filled + qty + (a.toAlgoBase.onFill o qty price).inflight +
        (t.parent.qty - t.filled) ≤ p.qty
      rw [inflight_onFill hmine hstatus price]
      linarith

/-- The end of a child: own ones are dropped, and others are dropped by the held TWAP. -/
theorem Sound.dropChild (h : a.Sound cfg p c) {a' : PovAlgo W}
    (hbase : a'.toAlgoBase = a.toAlgoBase.dropChild o.internalId)
    (hheld : a'.held = if a.rest o.internalId = none then
      a.held.map fun t => { t with toAlgoBase := t.toAlgoBase.dropChild o.internalId }
      else a.held) : a'.Sound cfg p (c.set o.internalId none 0) := by
  have hrest : a'.rest = Function.update a.rest o.internalId none := by
    rw [hbase, rest_dropChild]
  have hinflight : a'.toAlgoBase.inflight ≤ a.toAlgoBase.inflight := by
    rw [hbase, inflight_dropChild]
    cases hq : a.rest o.internalId with
    | none => exact (sub_zero _).le
    | some q => exact sub_le_self _ (h.positive _ q hq).le
  have hfilled : a'.filled = a.filled := by
    rw [hbase]
    rfl
  refine ⟨?_, ?_, h.positive.update hrest nofun, ?_, fun hnone => ?_, fun t' ht' => ?_⟩
  · rw [hbase]
    exact h.config
  · rw [hbase]
    exact h.parent
  · rw [hfilled, h.filled]
    exact (add_zero _).symm
  · have hnone' : a.held = none := by
      rw [hheld] at hnone
      split_ifs at hnone
      · exact Option.map_eq_none_iff.1 hnone
      · exact hnone
    obtain ⟨hsplits, hle⟩ := h.plain hnone'
    rw [hrest, hfilled]
    exact ⟨hsplits.set_inner rfl, by linarith⟩
  · rw [hheld] at ht'
    rw [hrest, hfilled]
    by_cases hown : a.rest o.internalId = none
    · rw [if_pos hown] at ht'
      obtain ⟨t, ht, rfl⟩ := Option.map_eq_some_iff.1 ht'
      obtain ⟨hsound, hle⟩ := h.degraded t ht
      rw [Function.update_eq_self_iff.2 hown.symm]
      refine ⟨hsound.dropChild hown, ?_⟩
      show a.filled + a'.toAlgoBase.inflight + (t.parent.qty - t.filled) ≤ p.qty
      linarith
    · rw [if_neg hown] at ht'
      obtain ⟨hsound, hle⟩ := h.degraded t' ht'
      have hin := (hsound.splits.apart o.internalId).resolve_left hown
      exact ⟨hsound.set_outer hin, by linarith⟩

/-- Whatever the algo hears keeps it sound. -/
theorem Sound.heard {a' : PovAlgo W} {c' : ChildBook} (h : a.Sound cfg p c)
    (hheard : Heard c a c' a') : a'.Sound cfg p c' := by
  cases hheard with
  | nothing => exact h
  | @fill o qty price hqty hrem hchild hstatus => exact h.onFill hqty hrem hchild hstatus price
  | reject => exact h.dropChild rfl (held_forward _ _)
  | cancel => exact h.dropChild rfl (held_forward _ _)

end Sound

/-! ### Timer calls -/

/-- The algo is sound in a state that the manager reached from `om₀`. -/
structure Steady {W : Type} (om₀ : OrderManager) (cfg : AlgoConfig W) (p : ParentOrder)
    (a : PovAlgo W) (s : State W) : Prop where
  chain : Chain {} om₀ s.om
  sound : Unwrapped s.om → a.Sound cfg p (s.om.childBook cfg.workerOffset cfg.workerIndex)

/-- A timer call that crosses the residual of an algo that is not degraded finds no child in
flight. -/
def CrossesClean {W : Type} (now : Timestamp) (a : PovAlgo W) : Prop :=
  a.done = false → a.parent.endAt ≤ now → a.deadlineDone = false → a.held = none →
    a.inflight = 0

section Timer

variable {W : Type} {E : Env W} {om₀ : OrderManager} {cfg : AlgoConfig W} {p : ParentOrder}
  {a a' : PovAlgo W} {s s' : State W} {now : Timestamp} {qty : Quantity} {t : TwapAlgo W}

theorem inflight_of_plain (hheld : a.held = none) : a.inflight = a.toAlgoBase.inflight := by
  unfold inflight
  rw [hheld]
  exact add_zero _

/-- Soundness is about the parent, the children and the held TWAP. -/
theorem Steady.of_same (h : a.Steady om₀ cfg p s) (hconfig : a'.config = a.config)
    (hparent : a'.parent = a.parent) (hfilled : a'.filled = a.filled)
    (hchildren : a'.children = a.children) (hheld : a'.held = a.held) :
    a'.Steady om₀ cfg p s where
  chain := h.chain
  sound := fun hunwrapped => by
    have hsound := h.sound hunwrapped
    have hrest : a'.rest = a.rest := by
      funext id
      rw [AlgoBase.rest, hchildren, AlgoBase.rest]
    have hinflight : a'.toAlgoBase.inflight = a.toAlgoBase.inflight := by
      rw [AlgoBase.inflight, hchildren, AlgoBase.inflight]
    refine ⟨hconfig.trans hsound.config, hparent.trans hsound.parent, ?_,
      hfilled.trans hsound.filled, fun hnone => ?_, fun t ht => ?_⟩
    · unfold AlgoBase.Positive
      rw [hrest]
      exact hsound.positive
    · rw [hrest, hfilled, hinflight]
      exact hsound.plain (hheld ▸ hnone)
    · rw [hrest, hfilled, hinflight]
      exact hsound.degraded t (hheld ▸ ht)

/-- Writing the log does not touch the manager. -/
theorem Steady.world (h : a.Steady om₀ cfg p s) (w : W) :
    a.Steady om₀ cfg p { s with world := w } := ⟨h.chain, h.sound⟩

variable (hreg : om₀.Regular) (h : a.Steady om₀ cfg p s)
include hreg h

/-- Nothing is booked, filled or closed. -/
theorem Steady.idle (hchain : ∀ P, Chain P s.om s'.om) : a.Steady om₀ cfg p s' where
  chain := h.chain.trans (hchain {})
  sound := fun hunwrapped => by
    have hreg' := hreg.chain h.chain
    rw [childBook_idle ((hchain still).idle hreg'.wf hreg'.stamped)]
    exact h.sound ((hchain {}).unwrapped hreg'.wf hunwrapped)

/-- An own child within what is left is sent. -/
theorem Steady.send (hheld : a.held = none)
    (hle : qty ≤ a.parent.qty - a.filled - a.toAlgoBase.inflight) (price : Price)
    (type : OrderType) :
    ({ a with toAlgoBase := (a.sendChild E qty price type s).2.1 } : PovAlgo W).Steady om₀ cfg p
      (a.sendChild E qty price type s).2.2 where
  chain := h.chain.trans (sendChild_chain (hreg.chain h.chain).wf)
  sound := fun hunwrapped => by
    have hreg' := hreg.chain h.chain
    have hunwrapped₀ := (sendChild_chain hreg'.wf).unwrapped hreg'.wf hunwrapped
    have hsound := h.sound hunwrapped₀
    have hcases := sendChild_cases (E := E) a.toAlgoBase qty price type hreg' hunwrapped₀
    rw [hsound.config] at hcases
    rcases hcases with ⟨-, ha, hbook⟩ | ⟨-, hqty, ha, hfresh, hbook⟩
    · rw [ha, hbook]
      exact hsound
    · rw [ha, hbook]
      obtain ⟨hsplits, hbound⟩ := hsound.plain hheld
      have hnew := (hsplits.of_none hfresh).2
      refine ⟨hsound.config, hsound.parent, ?_, ?_, fun _ => ⟨?_, ?_⟩, fun t ht => ?_⟩
      · refine hsound.positive.update rest_addChild ?_
        rintro q ⟨⟩
        exact hqty
      · exact hsound.filled.trans (add_zero _).symm
      · rw [rest_addChild]
        exact hsplits.set_inner rfl
      · show a.filled + (a.addChild _ qty).inflight ≤ p.qty
        rw [inflight_addChild hnew]
        rw [hsound.parent] at hle
        linarith
      · change a.held = some t at ht
        rw [hheld] at ht
        cases ht

/-- The timer of the held TWAP runs. -/
theorem Steady.twapTimer (now : Timestamp) (hheld : a.held = some t) :
    ({ a with twap := some (t.onTimer E now s).1 } : PovAlgo W).Steady om₀ cfg p
      (t.onTimer E now s).2 := by
  have hreg' := hreg.chain h.chain
  have htwap : t.Steady s.om (heldConfig cfg) t.parent a.rest s :=
    ⟨.refl, rfl, fun hunwrapped => ((h.sound hunwrapped).degraded t hheld).1⟩
  have hsteady := TwapAlgo.onTimer_steady (E := E) now hreg' htwap
  have hdegraded : a.degraded = true := by
    by_contra hnot
    rw [held, if_neg hnot] at hheld
    cases hheld
  refine ⟨h.chain.trans hsteady.chain, fun hunwrapped => ?_⟩
  have hsound := h.sound (hsteady.chain.unwrapped hreg'.wf hunwrapped)
  have htsound := hsteady.sound hunwrapped
  refine ⟨hsound.config, hsound.parent, hsound.positive, hsound.filled.trans hsteady.executed.symm,
    fun hnone => ?_, fun t' ht' => ?_⟩
  · rw [held, if_pos hdegraded] at hnone
    cases hnone
  · rw [held, if_pos hdegraded, Option.some_inj] at ht'
    subst ht'
    rw [htsound.parent, TwapAlgo.onTimer_filled]
    exact ⟨htsound, (hsound.degraded t hheld).2⟩

omit hreg in
theorem settleDeadline_steady : a.settleDeadline.Steady om₀ cfg p s := by
  unfold settleDeadline
  by_cases hzero : a.inflight = 0
  · rw [if_pos hzero]
    exact h.of_same rfl rfl rfl rfl rfl
  · rw [if_neg hzero]
    exact h

omit hreg h in
theorem cancelAll_chain (P : Policy) : Chain P s.om (a.cancel E s).om := by
  unfold cancel
  cases a.held with
  | none => exact cancelChildren_chain P
  | some t => exact (cancelChildren_chain P).trans (cancelChildren_chain P)

theorem deadlineCross_steady (hdone : a.done = false) (hdeadline : a.parent.endAt ≤ now)
    (hclean : a.CrossesClean now) :
    (a.deadlineCross E now s).1.Steady om₀ cfg p (a.deadlineCross E now s).2 := by
  unfold deadlineCross
  dsimp only
  by_cases hcrossed : a.deadlineDone = true
  · rw [if_pos hcrossed]
    exact h
  rw [if_neg hcrossed]
  have hmark : ({ a with deadlineDone := true } : PovAlgo W).Steady om₀ cfg p s :=
    h.of_same rfl rfl rfl rfl rfl
  cases hheld : a.held with
  | some t =>
    have hheld' : ({ a with deadlineDone := true } : PovAlgo W).held = some t := hheld
    rw [hheld']
    exact hmark.twapTimer hreg now hheld'
  | none =>
    have hheld' : ({ a with deadlineDone := true } : PovAlgo W).held = none := hheld
    -- nothing is in flight, so the residual is what is left
    have hzero := hclean hdone hdeadline (Bool.eq_false_of_not_eq_true hcrossed) hheld
    rw [inflight_of_plain hheld] at hzero
    have hidle : ({ a with deadlineDone := true } : PovAlgo W).Steady om₀ cfg p
        (({ a with deadlineDone := true } : PovAlgo W).cancel E s) :=
      Steady.idle hreg hmark fun P => cancelAll_chain P
    rw [hheld']
    dsimp only
    split_ifs
    · refine Steady.send hreg (hidle.world _) hheld' ?_ _ _
      show _ ≤ a.parent.qty - a.filled - a.toAlgoBase.inflight
      rw [hzero, sub_zero]
    · exact hidle

omit hreg in
/-- The residual goes to a fresh TWAP. -/
theorem degradeToTwap_steady (hheld : a.held = none) :
    (a.degradeToTwap now s).1.Steady om₀ cfg p (a.degradeToTwap now s).2 where
  chain := h.chain
  sound := fun hunwrapped => by
    have hsound := h.sound hunwrapped
    obtain ⟨hsplits, hbound⟩ := hsound.plain hheld
    refine ⟨hsound.config, hsound.parent, hsound.positive, hsound.filled, nofun, ?_⟩
    rintro t ⟨⟩
    have hempty : Finmap.sumOver (∅ : Finmap fun _ : OrderIdRaw => Quantity)
        (fun _ rem => rem) = 0 := Finmap.sumOver_empty _
    have hresid : ∀ x : Quantity, x = a.toAlgoBase.inflight →
        0 ≤ a.remainingQuantity x ∧
          a.filled + a.toAlgoBase.inflight + a.remainingQuantity x ≤ p.qty := by
      rintro x rfl
      unfold AlgoBase.remainingQuantity
      dsimp only
      rw [hsound.parent]
      split_ifs with hpos
      · exact ⟨hpos.le, by linarith⟩
      · exact ⟨le_refl _, by linarith⟩
    have hinflight : a.toAlgoBase.inflight +
        Finmap.sumOver (∅ : Finmap fun _ : OrderIdRaw => Quantity) (fun _ rem => rem) =
          a.toAlgoBase.inflight := by
      rw [hempty, add_zero]
    obtain ⟨hnonneg, hle⟩ := hresid _ hinflight
    refine ⟨⟨congrArg heldConfig hsound.config, rfl, hsplits.symm, nofun, ?_, nofun⟩, ?_⟩
    · show 0 + Finmap.sumOver ∅ _ ≤ _
      rw [hempty, add_zero]
      exact hnonneg
    · refine le_trans (le_of_eq ?_) hle
      exact congrArg (a.filled + a.toAlgoBase.inflight + ·) (sub_zero _)

/-- An interval before the deadline. -/
theorem react_steady (hheld : a.held = none) (vol : Quantity) :
    (a.react E now vol s).1.Steady om₀ cfg p (a.react E now vol s).2 := by
  unfold react
  dsimp only
  split_ifs with hidle hshort hover hchild hchild
  · exact h.of_same rfl rfl rfl rfl rfl
  · exact (degradeToTwap_steady h hheld).twapTimer hreg now rfl
  · exact h
  · refine h.send hreg hheld ?_ _ _
    have hrem := TwapAlgo.remainingQuantity_le (not_le.1 hchild)
    rw [hrem, inflight_of_plain hheld]
  · exact h
  · refine h.send hreg hheld ?_ _ _
    have hle := not_lt.1 hover
    have hrem := TwapAlgo.remainingQuantity_le ((not_le.1 hchild).trans_le hle)
    rw [hrem, inflight_of_plain hheld] at hle
    exact hle

/-- A timer call that crosses clean keeps the algo sound. -/
theorem onTimer_steady (hclean : a.CrossesClean now) :
    (a.onTimer E now s).1.Steady om₀ cfg p (a.onTimer E now s).2 := by
  unfold onTimer
  split_ifs with hdone hdeadline
  · exact h
  · exact settleDeadline_steady (deadlineCross_steady hreg h (Bool.eq_false_of_not_eq_true hdone)
      hdeadline hclean)
  · cases hheld : a.held with
    | some t =>
      exact (h.twapTimer (E := E) hreg now hheld).of_same rfl rfl rfl rfl rfl
    | none =>
      have hobserve : (a.observe now (a.observedVolume s.world)).Steady om₀ cfg p s :=
        h.of_same rfl rfl rfl rfl rfl
      exact react_steady hreg hobserve hheld _

end Timer

/-! ### Every run -/

section Runs

variable {B : Type} {E : Env B} {cfg : AlgoConfig B} {p : ParentOrder} {s : State (B × PovAlgo B)}

/-- The algo is sound, as long as no generation came round. -/
structure Invariant (cfg : AlgoConfig B) (p : ParentOrder) (s : State (B × PovAlgo B)) : Prop where
  regular : s.om.Regular
  sound : Unwrapped s.om →
    s.world.2.Sound cfg p (s.om.childBook cfg.workerOffset cfg.workerIndex)

theorem invariant_init (hqty : 0 ≤ p.qty) (capacity : PoolCapacity) (b : B) :
    Invariant cfg p ⟨.init capacity, b, PovAlgo.start { config := cfg } p⟩ where
  regular := regular_init capacity
  sound := fun _ => by
    have hplain : (PovAlgo.start ({ config := cfg } : PovAlgo B) p).held = none := if_neg nofun
    refine ⟨rfl, rfl, nofun, ?_, fun _ => ⟨⟨fun id => ?_, fun _ => Or.inl rfl⟩, ?_⟩,
      fun t ht => nomatch hplain.symm.trans ht⟩
    · exact (OrderPool.everSum_init (taggedFill cfg.workerOffset cfg.workerIndex) capacity).symm
    · show (OrderManager.view _ _ id).bind _ = none
      rw [view_of_not_works _ (not_works_init capacity id)]
      rfl
    · show 0 + Finmap.sumOver ∅ _ ≤ p.qty
      rw [Finmap.sumOver_empty, add_zero]
      exact hqty

/-- Every operation whose timer call crosses clean keeps the algo sound. -/
theorem step_invariant (h : Invariant cfg p s) {op : AlgoOp}
    (hop : op.Foreign cfg.workerOffset cfg.workerIndex)
    (hclean : ∀ now, op = .timer now → s.world.2.CrossesClean now) :
    Invariant cfg p ((algoMachine E cfg.workerOffset cfg.workerIndex).step s op) := by
  cases op with
  | oms op =>
    have hchain : Chain {} s.om
        (s.step (E.withAlgo cfg.workerOffset cfg.workerIndex) op).om :=
      step_chain h.regular.wf op
    refine ⟨h.regular.chain hchain, fun hunwrapped => ?_⟩
    have hsound := h.sound (hchain.unwrapped h.regular.wf hunwrapped)
    exact hsound.heard (step_heard h.regular hop)
  | timer now =>
    have hsteady := onTimer_steady (E := E) (a := s.world.2) (s := ⟨s.om, s.world.1⟩) h.regular
      ⟨.refl, h.sound⟩ (hclean now rfl)
    exact ⟨h.regular.chain hsteady.chain, hsteady.sound⟩
  | cancel =>
    have hsteady := Steady.idle (s := ⟨s.om, s.world.1⟩) h.regular ⟨.refl, h.sound⟩
      fun P => cancelAll_chain (E := E) (a := s.world.2) P
    exact ⟨h.regular.chain hsteady.chain, hsteady.sound⟩

end Runs

end PovAlgo

/-- **POV stays within its parent when it crosses clean.** Along every run of timer calls and
operations of the manager in which no other order carries its tag, no generation comes round, and
each timer call that crosses the residual finds no child in flight, the orders with the tag of the
algo never fill more than the parent's quantity, those that ended included. -/
theorem pov_never_overexecutes {B : Type} (E : Env B) (cfg : AlgoConfig B) (p : ParentOrder)
    (hqty : 0 < p.qty) (capacity : PoolCapacity) (b : B) (ops : List AlgoOp) :
    let M := algoMachine (A := PovAlgo) E cfg.workerOffset cfg.workerIndex
    let s₀ : State (B × PovAlgo B) := ⟨.init capacity, b, PovAlgo.start { config := cfg } p⟩
    M.Admits (fun s op => op.Foreign cfg.workerOffset cfg.workerIndex ∧
      ∀ now, op = .timer now → s.world.2.CrossesClean now) s₀ ops →
    Unwrapped (M.run s₀ ops).om →
    (((M.run s₀ ops).om.pool.created.filter
      fun o => o.retrieveIntData cfg.workerOffset = cfg.workerIndex).map
        Order.filledSize).sum ≤ p.qty := by
  intro M s₀ hadm hunwrapped
  have hinv : PovAlgo.Invariant cfg p (M.run s₀ ops) :=
    Machine.run_invariant (I := PovAlgo.Invariant cfg p)
      (fun s op h hop => PovAlgo.step_invariant h hop.1 hop.2)
      (PovAlgo.invariant_init hqty.le capacity b) hadm
  rw [← OrderPool.everSum_ite]
  exact (hinv.sound hunwrapped).executed_le

/-- A parent of ten, and a volume that asks for all of it at once. -/
def povConfig : AlgoConfig Unit where
  workerIndex := 7
  mds := some { topOfBook := fun _ _ => {}, volumeSince := fun _ _ _ => 100 }

def povParent : ParentOrder where
  instrument := 3
  qty := 10
  endAt := 10
  limit := 5

def povRun (ops : List AlgoOp) : State (Unit × PovAlgo Unit) :=
  (algoMachine (A := PovAlgo) acceptingEnv 0 7).run
    ⟨.init twoSlots, (), PovAlgo.start { config := povConfig } povParent⟩ ops

/-- The only child is filled before the deadline. -/
theorem pov_never_overexecutes_filled_child :
    (((povRun [.timer 0, .oms (.fill 1 10 5 9 0), .timer 10]).om.pool.created.filter
      fun o => o.retrieveIntData 0 = 7).map Order.filledSize).sum ≤ 10 := by
  have hall := pov_never_overexecutes acceptingEnv povConfig povParent (by decide) twoSlots ()
    [.timer 0, .oms (.fill 1 10 5 9 0), .timer 10]
  have htimer : ∀ now, (AlgoOp.timer now).Foreign 0 7 := fun now => by simp [AlgoOp.Foreign]
  have hfill : (AlgoOp.oms (.fill 1 10 5 9 0)).Foreign 0 7 := by simp [AlgoOp.Foreign]
  refine hall ⟨⟨htimer 0, ?_⟩, ⟨hfill, fun _ h => by cases h⟩, ⟨htimer 10, ?_⟩, trivial⟩ fun _ =>
    Nat.zero_lt_succ 65535
  · rintro now ⟨⟩ - hdeadline
    exact absurd hdeadline (by decide)
  · rintro now ⟨⟩ - - - -
    decide

/-- The deadline cross counts a child whose cancel is not acknowledged again, and both fill. -/
theorem pov_overexecutes :
    ¬ ∀ ops : List AlgoOp, (∀ op ∈ ops, op.Foreign 0 7) →
      (((povRun ops).om.pool.created.filter fun o => o.retrieveIntData 0 = 7).map
        Order.filledSize).sum ≤ povParent.qty := by
  intro hall
  have htwice := hall
    [.timer 0, .timer 10, .oms (.fill 1 10 5 9 0), .oms (.fill 65537 10 5 8 0)] (by
      simp [AlgoOp.Foreign])
  exact absurd htwice (by decide)

end Oms
