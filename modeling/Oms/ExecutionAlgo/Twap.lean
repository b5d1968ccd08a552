import Mathlib.Tactic.Linarith
import Oms.ExecutionAlgo.Children

/-!
# TWAP never over-sends

* `AlgoBase.Sound`: the algo knows its working children, and no more than the parent's quantity is
  filled or in flight; `Sound.onFill`, `Sound.dropChild`, `Sound.addChild` keep it;
* `AlgoBase.Steady`: soundness after some calls of the manager; `Steady.send`, `Steady.idle`;
* `onTimer_steady`: a timer call keeps it, whatever slices it fires;
* `twap_never_oversends`: so it holds along every run, and the final slice, if it is sent, leaves
  nothing of the parent unsent.
-/

namespace Oms

open OrderManager

/-! ### Soundness -/

/-- An algo that works `p` beside the children of `outer`: it knows its working children, what is
filled or in flight stays within the parent's quantity, and it is done only when nothing is in
flight and either all is filled or it says that it is incomplete. -/
structure AlgoBase.Sound {W : Type} (cfg : AlgoConfig W) (p : ParentOrder)
    (outer : OrderIdRaw → Option Quantity) (a : AlgoBase W) (c : ChildBook) : Prop where
  config : a.config = cfg
  parent : a.parent = p
  splits : Splits c outer a.rest
  positive : a.Positive
  bound : a.filled + a.inflight ≤ p.qty
  finished : a.done = true →
    a.inflight = 0 ∧ (a.filled = p.qty ∨ a.stats.incompleteAtDeadline = true)

section Sound

variable {W : Type} {cfg : AlgoConfig W} {p : ParentOrder} {outer : OrderIdRaw → Option Quantity}
  {a : AlgoBase W} {c : ChildBook} {o : Order} {id : OrderIdRaw} {qty : Quantity}

/-- A fill of a child. -/
theorem AlgoBase.Sound.onFill (h : a.Sound cfg p outer c) (hout : outer o.internalId = none)
    (hqty : 0 < qty) (hrem : 0 ≤ o.remaining)
    (hchild : c.working o.internalId = some (o.remaining + qty))
    (hstatus : o.status = .Filled ↔ o.remaining = 0) (price : Price) :
    (a.onFill o qty price).Sound cfg p outer
      (c.set o.internalId (if o.remaining = 0 then none else some o.remaining) qty) := by
  have hrest : a.rest o.internalId = some (o.remaining + qty) :=
    (h.splits.working_inner hout).symm.trans hchild
  have hrest' : (a.onFill o qty price).rest = _ :=
    rest_onFill (by rw [hrest]; nofun) hstatus price
  have hinflight := inflight_onFill hrest hstatus price
  have hpositive : (a.onFill o qty price).Positive := by
    refine h.positive.update hrest' fun q hq => ?_
    split_ifs at hq with hzero
    cases hq
    exact lt_of_le_of_ne hrem (Ne.symm hzero)
  have hbound : (a.onFill o qty price).filled + (a.onFill o qty price).inflight ≤ p.qty := by
    have hle := h.bound
    rw [hinflight]
    show a.filled + qty + (a.inflight - qty) ≤ p.qty
    linarith
  have hnonneg := hpositive.inflight_nonneg
  refine ⟨h.config, h.parent, ?_, hpositive, hbound, fun hdone => ?_⟩
  · rw [hrest']
    exact h.splits.set_inner hout
  · change (if a.parent.qty ≤ a.filled + qty then true else a.done) = true at hdone
    change a.filled + qty + _ ≤ p.qty at hbound
    split_ifs at hdone with hfull
    · rw [h.parent] at hfull
      refine ⟨by linarith, Or.inl ?_⟩
      show a.filled + qty = p.qty
      linarith
    · -- a done algo has nothing in flight that could fill
      rw [hinflight, (h.finished hdone).1] at hnonneg
      linarith

/-- The end of a child. -/
theorem AlgoBase.Sound.dropChild (h : a.Sound cfg p outer c) (hout : outer id = none) :
    (a.dropChild id).Sound cfg p outer (c.set id none 0) := by
  have hrest : (a.dropChild id).rest = _ := rest_dropChild
  have hpositive : (a.dropChild id).Positive := h.positive.update hrest nofun
  have hinflight : (a.dropChild id).inflight = _ := inflight_dropChild
  have hgone : 0 ≤ (a.rest id).getD 0 := by
    cases hq : a.rest id with
    | none => exact le_refl _
    | some q => exact (h.positive id q hq).le
  have hnonneg := hpositive.inflight_nonneg
  refine ⟨h.config, h.parent, ?_, hpositive, ?_, fun hdone => ?_⟩
  · rw [hrest]
    exact h.splits.set_inner hout
  · have hle := h.bound
    rw [hinflight]
    show a.filled + _ ≤ p.qty
    linarith
  · obtain ⟨hzero, hend⟩ := h.finished hdone
    refine ⟨?_, hend⟩
    rw [hinflight, hzero] at hnonneg ⊢
    linarith

/-- A new child within what is left. -/
theorem AlgoBase.Sound.addChild (h : a.Sound cfg p outer c) (hdone : a.done = false)
    (hfresh : c.working id = none) (hqty : 0 < qty)
    (hle : qty ≤ a.parent.qty - a.filled - a.inflight) :
    (a.addChild id qty).Sound cfg p outer (c.set id (some qty) 0) := by
  obtain ⟨hout, hnew⟩ := h.splits.of_none hfresh
  refine ⟨h.config, h.parent, ?_, h.positive.update rest_addChild ?_, ?_, fun hdone' => ?_⟩
  · rw [rest_addChild]
    exact h.splits.set_inner hout
  · rintro q ⟨⟩
    exact hqty
  · rw [inflight_addChild hnew]
    rw [h.parent] at hle
    show a.filled + _ ≤ p.qty
    linarith
  · rw [show (a.addChild id qty).done = a.done from rfl, hdone] at hdone'
    cases hdone'

/-- A child of the other part is written. -/
theorem AlgoBase.Sound.set_outer (h : a.Sound cfg p outer c) (hin : a.rest id = none)
    {v : Option Quantity} : a.Sound cfg p (Function.update outer id v) (c.set id v qty) :=
  { h with splits := h.splits.set_outer hin }

/-- Going done with nothing in flight, and saying so when the parent is not filled. -/
theorem AlgoBase.Sound.finish (h : a.Sound cfg p outer c) (hzero : a.inflight = 0)
    {stats : AlgoStats} (hstats : a.filled < a.parent.qty → stats.incompleteAtDeadline = true) :
    AlgoBase.Sound cfg p outer { a with stats := stats, done := true } c := by
  refine ⟨h.config, h.parent, h.splits, h.positive, h.bound, fun _ => ⟨hzero, ?_⟩⟩
  rcases lt_or_ge a.filled a.parent.qty with hlt | hge
  · exact Or.inr (hstats hlt)
  · have hle := h.bound
    rw [hzero, add_zero] at hle
    rw [h.parent] at hge
    exact Or.inl (le_antisymm hle hge)

/-- A parent that is filled has nothing in flight. -/
theorem AlgoBase.Sound.inflight_eq_zero (h : a.Sound cfg p outer c)
    (hfull : a.parent.qty ≤ a.filled) : a.inflight = 0 := by
  have hle := h.bound
  rw [h.parent] at hfull
  exact le_antisymm (by linarith) h.positive.inflight_nonneg

end Sound

/-! ### Calls of the manager -/

/-- The algo is sound in a state that the manager reached from `om₀` without a fill of a child. -/
structure AlgoBase.Steady {W : Type} (om₀ : OrderManager) (cfg : AlgoConfig W) (p : ParentOrder)
    (outer : OrderIdRaw → Option Quantity) (a : AlgoBase W) (s : State W) : Prop where
  chain : Chain {} om₀ s.om
  executed : s.om.executed cfg.workerOffset cfg.workerIndex =
    om₀.executed cfg.workerOffset cfg.workerIndex
  sound : Unwrapped s.om →
    a.Sound cfg p outer (s.om.childBook cfg.workerOffset cfg.workerIndex)

section Steady

variable {W : Type} {E : Env W} {om₀ : OrderManager} {cfg : AlgoConfig W} {p : ParentOrder}
  {outer : OrderIdRaw → Option Quantity} {a : AlgoBase W} {s s' : State W} {qty : Quantity}
variable (hreg : om₀.Regular) (h : a.Steady om₀ cfg p outer s)
include hreg h

/-- Nothing is booked, filled or closed. -/
theorem AlgoBase.Steady.idle (hchain : ∀ P, Chain P s.om s'.om) :
    a.Steady om₀ cfg p outer s' where
  chain := h.chain.trans (hchain {})
  executed := by
    have hreg' := hreg.chain h.chain
    exact (((hchain still).idle hreg'.wf hreg'.stamped).executed _ _).trans h.executed
  sound := fun hunwrapped => by
    have hreg' := hreg.chain h.chain
    rw [childBook_idle ((hchain still).idle hreg'.wf hreg'.stamped)]
    exact h.sound ((hchain {}).unwrapped hreg'.wf hunwrapped)

/-- A child within what is left is sent. -/
theorem AlgoBase.Steady.send (hdone : a.done = false)
    (hle : qty ≤ a.parent.qty - a.filled - a.inflight) (price : Price) (type : OrderType) :
    (a.sendChild E qty price type s).2.1.Steady om₀ cfg p outer
      (a.sendChild E qty price type s).2.2 where
  chain := h.chain.trans (sendChild_chain (hreg.chain h.chain).wf)
  executed := (sendChild_executed (hreg.chain h.chain) _ _).trans h.executed
  sound := fun hunwrapped => by
    have hreg' := hreg.chain h.chain
    have hunwrapped₀ := (sendChild_chain hreg'.wf).unwrapped hreg'.wf hunwrapped
    have hsound := h.sound hunwrapped₀
    have hcases := sendChild_cases (E := E) a qty price type
      hreg' hunwrapped₀
    rw [hsound.config] at hcases
    rcases hcases with ⟨-, ha, hbook⟩ | ⟨-, hqty, ha, hfresh, hbook⟩
    · rw [ha, hbook]
      exact hsound
    · rw [ha, hbook]
      exact hsound.addChild hdone hfresh hqty hle

end Steady

/-! ### Timer calls -/

namespace TwapAlgo

section Timer

variable {W : Type} {E : Env W} {om₀ : OrderManager} {cfg : AlgoConfig W} {p : ParentOrder}
  {outer : OrderIdRaw → Option Quantity} {a : TwapAlgo W} {s : State W} {now : Timestamp}

/-- What is not filled and not in flight, if that is positive. -/
theorem remainingQuantity_le {b : AlgoBase W} {inflight : Quantity}
    (hpos : 0 < b.remainingQuantity inflight) :
    b.remainingQuantity inflight = b.parent.qty - b.filled - inflight := by
  unfold AlgoBase.remainingQuantity at hpos ⊢
  dsimp only at hpos ⊢
  split_ifs at hpos ⊢
  · rfl
  · exact absurd hpos (lt_irrefl _)

theorem sliceQty_le_remaining : a.sliceQty ≤ a.remainingQuantity a.inflight := by
  unfold sliceQty
  dsimp only
  generalize (if a.n - a.slicesDone ≤ 1 then _ else _) = qty
  split_ifs with hlt
  · exact le_refl _
  · exact not_lt.1 hlt

/-- A slice stays within what is left. -/
theorem sliceQty_le (hpos : 0 < a.sliceQty) :
    a.sliceQty ≤ a.parent.qty - a.filled - a.inflight := by
  have hle := sliceQty_le_remaining (a := a)
  rw [remainingQuantity_le (hpos.trans_le hle)] at hle
  exact hle

theorem fireSlice_done : (a.fireSlice E s).2.1.done = a.done := by
  unfold fireSlice AlgoBase.sendChild
  dsimp only
  split_ifs <;> rfl

theorem fireSlice_filled : (a.fireSlice E s).2.1.filled = a.filled := by
  unfold fireSlice
  dsimp only
  split_ifs
  · rfl
  · exact sendChild_filled

theorem fireSlices_filled (rounds : ℕ) (a : TwapAlgo W) (s : State W) :
    (a.fireSlices E now rounds s).1.filled = a.filled := by
  induction rounds generalizing a s with
  | zero => rfl
  | succ rounds ih =>
    unfold fireSlices
    split_ifs
    · exact (ih _ _).trans fireSlice_filled
    · rfl

/-- A timer call fills nothing. -/
theorem onTimer_filled : (a.onTimer E now s).1.filled = a.filled := by
  unfold onTimer
  split_ifs
  · rfl
  · have hcross : (a.deadlineCross E s).1.filled = a.filled := by
      unfold deadlineCross
      dsimp only
      split_ifs
      · rfl
      · exact sendChild_filled
      · rfl
    refine Eq.trans ?_ hcross
    unfold settleDeadline
    dsimp only
    split_ifs <;> rfl
  · exact fireSlices_filled _ a s

section Kept

variable (hreg : om₀.Regular) (h : a.Steady om₀ cfg p outer s) (hdone : a.done = false)
include hreg h hdone

theorem fireSlice_steady :
    (a.fireSlice E s).2.1.Steady om₀ cfg p outer (a.fireSlice E s).2.2 := by
  unfold fireSlice
  dsimp only
  split_ifs with hqty
  · exact h
  · exact h.send hreg hdone (sliceQty_le (not_le.1 hqty)) _ _

/-- The slice loop, round by round. -/
theorem fireSlices_steady (now : Timestamp) (rounds : ℕ) :
    (a.fireSlices E now rounds s).1.Steady om₀ cfg p outer (a.fireSlices E now rounds s).2 ∧
      (a.fireSlices E now rounds s).1.done = false := by
  induction rounds generalizing a s with
  | zero => exact ⟨h, hdone⟩
  | succ rounds ih =>
    unfold fireSlices
    split_ifs
    · exact ih (fireSlice_steady hreg h hdone) (fireSlice_done.trans hdone)
    · exact ⟨h, hdone⟩

theorem deadlineCross_steady :
    (a.deadlineCross E s).1.Steady om₀ cfg p outer (a.deadlineCross E s).2 := by
  unfold deadlineCross
  dsimp only
  split_ifs with hcrossed hresidual
  · exact h
  all_goals
    have hcancel : a.Steady om₀ cfg p outer (a.cancel E s) :=
      h.idle hreg fun P => cancelChildren_chain P
  · have hlog : a.Steady om₀ cfg p outer { a.cancel E s with
        world := a.config.log .Warn
          ("TWAP deadline: crossing residual=" ++ toString (a.parent.qty - a.filled - a.inflight))
          (a.cancel E s).world } :=
      hcancel.idle hreg fun _ => .refl
    exact hlog.send hreg hdone (le_refl _) _ _
  · exact hcancel

end Kept

theorem settleDeadline_steady (h : a.Steady om₀ cfg p outer s) :
    a.settleDeadline.Steady om₀ cfg p outer s := by
  unfold settleDeadline
  by_cases hzero : a.inflight = 0
  · rw [if_pos hzero]
    exact ⟨h.chain, h.executed,
      fun hunwrapped => (h.sound hunwrapped).finish hzero fun hlt => if_pos hlt⟩
  · rw [if_neg hzero]
    exact h

/-- A timer call keeps the algo sound. -/
theorem onTimer_steady (now : Timestamp) (hreg : om₀.Regular) (h : a.Steady om₀ cfg p outer s) :
    (a.onTimer E now s).1.Steady om₀ cfg p outer (a.onTimer E now s).2 := by
  unfold onTimer
  split_ifs with hdone hdeadline
  · exact h
  · exact settleDeadline_steady (deadlineCross_steady hreg h (Bool.eq_false_of_not_eq_true hdone))
  · obtain ⟨hsteady, -⟩ := fireSlices_steady (E := E) hreg h
      (Bool.eq_false_of_not_eq_true hdone) now (a.n - a.slicesDone)
    refine ⟨hsteady.chain, hsteady.executed, fun hunwrapped => ?_⟩
    have hsound := hsteady.sound hunwrapped
    dsimp only
    split_ifs with hfull
    · exact hsound.finish (hsound.inflight_eq_zero hfull) fun hlt => absurd hfull (not_le.2 hlt)
    · exact hsound

/-! ### The final slice -/

theorem fireSlices_cons (rounds : ℕ) (a : TwapAlgo W) (s : State W) :
    a.fireSlices E now (rounds + 1) s =
      if a.sliceDue now then
        (a.fireSlice E s).2.1.fireSlices E now rounds (a.fireSlice E s).2.2
      else (a, s) := rfl

/-- The rounds of the slice loop, the last one apart. -/
theorem fireSlices_succ (now : Timestamp) (rounds : ℕ) (a : TwapAlgo W) (s : State W) :
    a.fireSlices E now (rounds + 1) s =
      if (a.fireSlices E now rounds s).1.sliceDue now then
        ((a.fireSlices E now rounds s).1.fireSlice E (a.fireSlices E now rounds s).2).2
      else a.fireSlices E now rounds s := by
  induction rounds generalizing a s with
  | zero => rfl
  | succ rounds ih =>
    rw [fireSlices_cons (rounds + 1) a s, fireSlices_cons rounds a s]
    by_cases hdue : a.sliceDue now
    · rw [if_pos hdue, if_pos hdue]
      exact ih _ _
    · rw [if_neg hdue, if_neg hdue, if_neg hdue]

theorem fireSlice_slicesDone : (a.fireSlice E s).2.1.slicesDone = a.slicesDone + 1 ∧
    (a.fireSlice E s).2.1.n = a.n := by
  unfold fireSlice
  dsimp only
  split_ifs
  · exact ⟨rfl, rfl⟩
  · exact ⟨rfl, rfl⟩

/-- A round counts one slice at most. -/
theorem fireSlices_slicesDone (now : Timestamp) (rounds : ℕ) (a : TwapAlgo W) (s : State W) :
    (a.fireSlices E now rounds s).1.slicesDone ≤ a.slicesDone + rounds ∧
      (a.fireSlices E now rounds s).1.n = a.n := by
  induction rounds generalizing a s with
  | zero => exact ⟨le_refl _, rfl⟩
  | succ rounds ih =>
    rw [fireSlices_cons]
    split_ifs
    · obtain ⟨hle, hn⟩ := ih (a.fireSlice E s).2.1 (a.fireSlice E s).2.2
      obtain ⟨hone, hn'⟩ := fireSlice_slicesDone (E := E) (a := a) (s := s)
      rw [hone] at hle
      exact ⟨by omega, hn.trans hn'⟩
    · exact ⟨Nat.le_add_right _ _, rfl⟩

/-- The last slice is all that is left. -/
theorem sliceQty_last (hlast : a.slicesDone + 1 = a.n) :
    a.sliceQty = a.remainingQuantity a.inflight := by
  unfold sliceQty
  dsimp only
  have hone : a.n - a.slicesDone ≤ 1 := by omega
  rw [if_pos hone, ite_self]

/-- Sending the last slice leaves nothing of the parent unsent. -/
theorem fireSlice_last (hreg : s.om.Regular) (hunwrapped : Unwrapped s.om)
    (h : a.Sound cfg p outer (s.om.childBook cfg.workerOffset cfg.workerIndex))
    (hlast : a.slicesDone + 1 = a.n) (hsent : a.sliceQty ≤ 0 ∨ (a.fireSlice E s).1 ≠ 0) :
    (a.fireSlice E s).2.1.filled + (a.fireSlice E s).2.1.inflight = p.qty := by
  have hrem := sliceQty_last hlast
  have hbound := h.bound
  have hparent := h.parent
  unfold fireSlice at hsent ⊢
  dsimp only at hsent ⊢
  by_cases hqty : a.sliceQty ≤ 0
  · rw [if_pos hqty]
    have hnone : ¬ 0 < a.parent.qty - a.filled - a.inflight := by
      intro hpos
      rw [hrem, AlgoBase.remainingQuantity, if_pos hpos] at hqty
      exact absurd hpos (not_lt.2 hqty)
    rw [hparent] at hnone
    show a.filled + a.inflight = p.qty
    linarith
  · rw [if_neg hqty] at hsent ⊢
    have hpos := not_le.1 hqty
    have hid := hsent.resolve_left hqty
    rcases sendChild_cases (E := E) a.toAlgoBase a.sliceQty a.parent.limit .Limit hreg
      hunwrapped with
      ⟨hzero, -⟩ | ⟨-, -, ha, hfresh, -⟩
    · exact absurd hzero hid
    · rw [h.config] at hfresh
      rw [remainingQuantity_le (hrem ▸ hpos), hparent] at hrem
      show (a.sendChild E a.sliceQty a.parent.limit .Limit s).2.1.filled +
        (a.sendChild E a.sliceQty a.parent.limit .Limit s).2.1.inflight = p.qty
      rw [ha, inflight_addChild (h.splits.of_none hfresh).2, hrem]
      show a.filled + _ = p.qty
      linarith

/-- A timer call that fires the final slice, and sends it or finds nothing left. -/
theorem onTimer_last (hreg : s.om.Regular)
    (h : Unwrapped s.om → a.Sound cfg p outer (s.om.childBook cfg.workerOffset cfg.workerIndex))
    (hunwrapped : Unwrapped (a.onTimer E now s).2.om) (hdone : a.done = false)
    (hearly : now < a.parent.endAt) (hbefore : a.slicesDone < a.n)
    (hfinal : (a.onTimer E now s).1.slicesDone = a.n)
    (hsent :
      let last := a.fireSlices E now (a.n - 1 - a.slicesDone) s
      last.1.sliceQty ≤ 0 ∨ (last.1.fireSlice E last.2).1 ≠ 0) :
    (a.onTimer E now s).1.filled + (a.onTimer E now s).1.inflight = p.qty := by
  have htimer : a.onTimer E now s =
      ({ (a.fireSlices E now (a.n - a.slicesDone) s).1 with
          done := if (a.fireSlices E now (a.n - a.slicesDone) s).1.parent.qty ≤
              (a.fireSlices E now (a.n - a.slicesDone) s).1.filled then true
            else (a.fireSlices E now (a.n - a.slicesDone) s).1.done },
        (a.fireSlices E now (a.n - a.slicesDone) s).2) := by
    unfold onTimer
    rw [if_neg (by rw [hdone]; exact Bool.false_ne_true), if_neg (not_le.2 hearly)]
  rw [htimer] at hunwrapped hfinal ⊢
  obtain ⟨rounds, hrounds⟩ : ∃ rounds, a.n - a.slicesDone = rounds + 1 :=
    ⟨a.n - 1 - a.slicesDone, by omega⟩
  have hprev : a.n - 1 - a.slicesDone = rounds := by omega
  rw [hprev] at hsent
  have hsucc := fireSlices_succ (E := E) now rounds a s
  have hcount := fireSlices_slicesDone (E := E) now rounds a s
  have hsteady := fireSlices_steady (E := E) (s := s) hreg ⟨.refl, rfl, h⟩ hdone now rounds
  generalize a.fireSlices E now rounds s = last at hsent hsucc hcount hsteady
  have hreg' := hreg.chain hsteady.1.chain
  rw [hrounds, hsucc] at hunwrapped hfinal ⊢
  by_cases hdue : last.1.sliceDue now
  · rw [if_pos hdue] at hunwrapped hfinal ⊢
    have hone := fireSlice_slicesDone (E := E) (a := last.1) (s := last.2)
    have hlast : last.1.slicesDone + 1 = last.1.n := by
      rw [hcount.2]
      exact hone.1.symm.trans hfinal
    have hchain := (fireSlice_steady (E := E) hreg' ⟨.refl, rfl, hsteady.1.sound⟩
      hsteady.2).chain
    have hunwrapped' := hchain.unwrapped hreg'.wf hunwrapped
    exact fireSlice_last hreg' hunwrapped' (hsteady.1.sound hunwrapped') hlast hsent
  · -- without the last round a slice is missing
    rw [if_neg hdue] at hfinal
    have hle := hcount.1
    change last.1.slicesDone = a.n at hfinal
    omega

end Timer

/-! ### Every run -/

section Runs

variable {B : Type} {E : Env B} {cfg : AlgoConfig B} {p : ParentOrder} {c c' : ChildBook}
  {a a' : TwapAlgo B} {s : State (B × TwapAlgo B)}

/-- Whatever the algo hears keeps it sound. -/
theorem heard_sound (h : a.Sound cfg p (fun _ => none) c) (hheard : Heard c a c' a') :
    a'.Sound cfg p (fun _ => none) c' := by
  cases hheard with
  | nothing => exact h
  | @fill o qty price hqty hrem hchild hstatus =>
    exact h.onFill rfl hqty hrem hchild hstatus price
  | reject => exact h.dropChild rfl
  | cancel => exact h.dropChild rfl

/-- The algo is sound, as long as no generation came round. -/
structure Invariant (cfg : AlgoConfig B) (p : ParentOrder) (s : State (B × TwapAlgo B)) : Prop where
  regular : s.om.Regular
  sound : Unwrapped s.om →
    s.world.2.Sound cfg p (fun _ => none) (s.om.childBook cfg.workerOffset cfg.workerIndex)

/-- The algo starts sound. -/
theorem sound_start (hqty : 0 ≤ p.qty) (capacity : PoolCapacity) :
    (TwapAlgo.start ({ config := cfg } : TwapAlgo B) p).Sound cfg p (fun _ => none)
      ((OrderManager.init capacity).childBook cfg.workerOffset cfg.workerIndex) := by
  refine ⟨rfl, rfl, ⟨fun id => ?_, fun _ => Or.inl rfl⟩, nofun, ?_, nofun⟩
  · show (OrderManager.view _ _ id).bind _ = none
    rw [view_of_not_works _ (not_works_init capacity id)]
    rfl
  · show 0 + Finmap.sumOver ∅ _ ≤ p.qty
    rw [Finmap.sumOver_empty, add_zero]
    exact hqty

theorem invariant_init (hqty : 0 ≤ p.qty) (capacity : PoolCapacity) (b : B) :
    Invariant cfg p ⟨.init capacity, b, TwapAlgo.start { config := cfg } p⟩ where
  regular := regular_init capacity
  sound := fun _ => sound_start hqty capacity

/-- Every operation keeps the algo sound. -/
theorem step_invariant (h : Invariant cfg p s) {op : AlgoOp}
    (hop : op.Foreign cfg.workerOffset cfg.workerIndex) :
    Invariant cfg p ((algoMachine E cfg.workerOffset cfg.workerIndex).step s op) := by
  cases op with
  | oms op =>
    have hchain : Chain {} s.om
        (s.step (E.withAlgo cfg.workerOffset cfg.workerIndex) op).om :=
      step_chain h.regular.wf op
    refine ⟨h.regular.chain hchain, fun hunwrapped => ?_⟩
    have hsound := h.sound (hchain.unwrapped h.regular.wf hunwrapped)
    exact heard_sound hsound (step_heard h.regular hop)
  | timer now =>
    have hsteady := onTimer_steady (E := E) now (a := s.world.2)
      (s := ⟨s.om, s.world.1⟩) h.regular ⟨.refl, rfl, h.sound⟩
    exact ⟨h.regular.chain hsteady.chain, hsteady.sound⟩
  | cancel =>
    have hsteady := AlgoBase.Steady.idle (s := ⟨s.om, s.world.1⟩) h.regular ⟨.refl, rfl, h.sound⟩
      fun P => cancelChildren_chain (E := E) (a := s.world.2.toAlgoBase) P
    exact ⟨h.regular.chain hsteady.chain, hsteady.sound⟩

end Runs

end TwapAlgo

/-- **TWAP never over-sends and finishes honestly**, along every run of timer calls and operations
of the manager in which no other order carries its tag and no generation comes round: what is
filled or in flight stays within the parent's quantity; the algo is done only with nothing in
flight, and then all is filled or it says that it is incomplete; and a timer call that fires the
final slice, and sends it or finds nothing left, leaves nothing unsent. -/
theorem twap_never_oversends {B : Type} (E : Env B) (cfg : AlgoConfig B) (p : ParentOrder)
    (hqty : 0 < p.qty) (capacity : PoolCapacity) (b : B) (ops : List AlgoOp)
    (hops : ∀ op ∈ ops, op.Foreign cfg.workerOffset cfg.workerIndex) :
    let M := algoMachine (A := TwapAlgo) E cfg.workerOffset cfg.workerIndex
    let s := M.run ⟨.init capacity, b, TwapAlgo.start { config := cfg } p⟩ ops
    let a := s.world.2
    (Unwrapped s.om → a.parent = p ∧ a.filled + a.inflight ≤ p.qty ∧
      (a.done = true → a.inflight = 0 ∧
        (a.filled = p.qty ∨ a.stats.incompleteAtDeadline = true))) ∧
    ∀ now,
      let s' := M.step s (.timer now)
      -- the algo and the manager before the last round of the slice loop
      let last := a.fireSlices E now (a.n - 1 - a.slicesDone) ⟨s.om, s.world.1⟩
      Unwrapped s'.om → a.done = false → now < p.endAt →
      a.slicesDone < a.n → s'.world.2.slicesDone = a.n →
      last.1.sliceQty ≤ 0 ∨ (last.1.fireSlice E last.2).1 ≠ 0 →
      s'.world.2.filled + s'.world.2.inflight = p.qty := by
  intro M s a
  have hinv : TwapAlgo.Invariant cfg p s :=
    Machine.run_invariant (I := TwapAlgo.Invariant cfg p)
      (G := fun _ op => AlgoOp.Foreign cfg.workerOffset cfg.workerIndex op)
      (fun s op h hop => TwapAlgo.step_invariant h hop)
      (TwapAlgo.invariant_init hqty.le capacity b) (Machine.admits_of_forall hops)
  constructor
  · intro hunwrapped
    have hsound := hinv.sound hunwrapped
    exact ⟨hsound.parent, hsound.bound, hsound.finished⟩
  · intro now s' last hunwrapped hdone hearly hbefore hfinal hsent
    have hsteady := TwapAlgo.onTimer_steady (E := E) now (a := s.world.2)
      (s := ⟨s.om, s.world.1⟩) hinv.regular ⟨.refl, rfl, hinv.sound⟩
    have hparent : s.world.2.parent = p :=
      (hinv.sound (hsteady.chain.unwrapped hinv.regular.wf hunwrapped)).parent
    exact TwapAlgo.onTimer_last (a := s.world.2) (s := ⟨s.om, s.world.1⟩) hinv.regular hinv.sound
      hunwrapped hdone (by rw [hparent]; exact hearly) hbefore hfinal hsent

/-- A parent of ten in two slices. -/
def twapConfig : AlgoConfig Unit where
  workerIndex := 7
  slices := 2

def twapParent : ParentOrder where
  instrument := 3
  qty := 10
  endAt := 10
  limit := 5

def twapRun (ops : List AlgoOp) : State (Unit × TwapAlgo Unit) :=
  (algoMachine (A := TwapAlgo) acceptingEnv 0 7).run
    ⟨.init twoSlots, (), TwapAlgo.start { config := twapConfig } twapParent⟩ ops

/-- The first slice is filled in part, and the second one is sent. -/
theorem twap_never_oversends_two_slices :
    let s := twapRun [.timer 0, .oms (.fill 1 2 5 9 0)]
    let s' := (algoMachine (A := TwapAlgo) acceptingEnv 0 7).step s (.timer 5)
    s.world.2.filled + s.world.2.inflight ≤ 10 ∧
      s'.world.2.filled + s'.world.2.inflight = 10 := by
  have hall := twap_never_oversends acceptingEnv twapConfig twapParent (by decide)
    twoSlots () [.timer 0, .oms (.fill 1 2 5 9 0)] (by simp [AlgoOp.Foreign])
  exact ⟨(hall.1 fun _ => Nat.zero_lt_succ 65535).2.1,
    hall.2 5 (fun _ => Nat.zero_lt_succ 65535) (by decide) (by decide) (by decide) (by decide)
      (by decide)⟩

end Oms
