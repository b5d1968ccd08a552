import Oms.ExecutionAlgo.Pov

/-!
# When POV is done

POV is done when its parent is filled, when nothing is in flight after the deadline, or when the
TWAP it degraded to is done. The last one is only right if POV's own children filled what they had
left.

* `Sound.inflight_eq_zero_iff`: nothing is in flight exactly if no child works;
* `Premature`: the held TWAP is done with its residual, and the parent is not filled;
* `Finished`: the algo is done only if no child works, and all is filled or it says that it is
  incomplete; `Finished.heard`, `onTimer_finished` keep it;
* `pov_done_honest`: so it holds along every run without a premature timer call;
* `pov_done_early`: a premature one reports done with an own child still working.
-/

namespace Oms

open OrderManager

/-! ### Nothing in flight -/

section Empty

variable {W : Type} {a : AlgoBase W}

/-- Something remains of each child, so nothing is in flight without children only. -/
theorem AlgoBase.Positive.inflight_eq_zero_iff (h : a.Positive) :
    a.inflight = 0 ↔ ∀ id, a.rest id = none := by
  constructor
  · intro hzero id
    by_contra hsome
    obtain ⟨q, hq⟩ := Option.ne_none_iff_exists'.1 hsome
    have hpositive : (a.dropChild id).Positive := h.update rest_dropChild nofun
    have hnonneg := hpositive.inflight_nonneg
    rw [inflight_dropChild, hzero, hq, Option.getD_some] at hnonneg
    have hpos := h id q hq
    linarith
  · intro hnone
    have hempty : a.children = ∅ := by
      apply Finmap.ext_lookup
      intro id
      rw [Finmap.lookup_empty]
      exact hnone id
    rw [AlgoBase.inflight, hempty, Finmap.sumOver_empty]

end Empty

/-! ### The held TWAP -/

namespace TwapAlgo

variable {W : Type} {E : Env W} {a : TwapAlgo W} {s : State W} {now : Timestamp}

theorem sendChild_parent {b : AlgoBase W} {qty : Quantity} {price : Price} {type : OrderType} :
    (b.sendChild E qty price type s).2.1.parent = b.parent := by
  unfold AlgoBase.sendChild
  dsimp only
  split_ifs <;> rfl

theorem fireSlices_kept (rounds : ℕ) (a : TwapAlgo W) (s : State W) :
    (a.fireSlices E now rounds s).1.parent = a.parent ∧
      (a.fireSlices E now rounds s).1.done = a.done := by
  induction rounds generalizing a s with
  | zero => exact ⟨rfl, rfl⟩
  | succ rounds ih =>
    rw [fireSlices_cons]
    split_ifs
    · have hparent : (a.fireSlice E s).2.1.parent = a.parent := by
        unfold fireSlice
        dsimp only
        split_ifs
        · rfl
        · exact sendChild_parent
      exact ⟨(ih _ _).1.trans hparent, (ih _ _).2.trans fireSlice_done⟩
    · exact ⟨rfl, rfl⟩

/-- A timer call leaves the parent alone. -/
theorem onTimer_parent : (a.onTimer E now s).1.parent = a.parent := by
  unfold onTimer
  split_ifs
  · rfl
  · have hcross : (a.deadlineCross E s).1.parent = a.parent := by
      unfold deadlineCross
      dsimp only
      split_ifs
      · rfl
      · exact sendChild_parent
      · rfl
    refine Eq.trans ?_ hcross
    unfold settleDeadline
    dsimp only
    split_ifs <;> rfl
  · exact (fireSlices_kept _ a s).1

/-- Before its deadline, a TWAP is done exactly if it was, or if its parent is filled. -/
theorem onTimer_done_iff (hearly : now < a.parent.endAt) :
    (a.onTimer E now s).1.done = true ↔ a.done = true ∨ a.parent.qty ≤ a.filled := by
  unfold onTimer
  have hkept : (a.fireSlices E now (a.n - a.slicesDone) s).1.parent = a.parent ∧
      (a.fireSlices E now (a.n - a.slicesDone) s).1.done = a.done := fireSlices_kept _ a s
  have hfilled : (a.fireSlices E now (a.n - a.slicesDone) s).1.filled = a.filled :=
    fireSlices_filled _ a s
  by_cases hwas : a.done = true
  · simp [hwas]
  · rw [if_neg hwas, if_neg (not_le.2 hearly)]
    simp [hkept.1, hkept.2, hfilled, hwas]

end TwapAlgo

namespace PovAlgo

/-! ### Done -/

/-- A timer call before the deadline finds the held TWAP done with its residual although the parent
is not filled: an own child still works, or ended without filling what it had left. -/
def Premature {W : Type} (now : Timestamp) (a : PovAlgo W) : Prop :=
  a.done = false ∧ now < a.parent.endAt ∧ a.filled < a.parent.qty ∧
    ∃ t, a.held = some t ∧ (t.done = true ∨ t.parent.qty ≤ t.filled)

/-- The algo is done only if no child works, and all is filled or it says that it is incomplete. The
held TWAP has the deadline of the parent. -/
structure Finished {W : Type} (p : ParentOrder) (a : PovAlgo W) (c : ChildBook) : Prop where
  deadline : ∀ t, a.held = some t → t.parent.endAt = p.endAt
  finished : a.done = true → (∀ id, c.working id = none) ∧
    (p.qty ≤ a.filled ∨ a.stats.incompleteAtDeadline = true)

section Sound

variable {W : Type} {cfg : AlgoConfig W} {p : ParentOrder} {a a' : PovAlgo W} {c c' : ChildBook}

/-- Nothing is in flight exactly if the manager has no working child. -/
theorem Sound.inflight_eq_zero_iff (h : a.Sound cfg p c) :
    a.inflight = 0 ↔ ∀ id, c.working id = none := by
  have hown := h.positive.inflight_nonneg
  cases hheld : a.held with
  | none =>
    obtain ⟨hsplits, -⟩ := h.plain hheld
    rw [inflight_of_plain hheld, h.positive.inflight_eq_zero_iff]
    exact forall_congr' fun id => by rw [hsplits.working_inner rfl]
  | some t =>
    obtain ⟨ht, -⟩ := h.degraded t hheld
    have htwap := ht.positive.inflight_nonneg
    have hsum : a.inflight = a.toAlgoBase.inflight + t.toAlgoBase.inflight := by
      unfold inflight
      rw [hheld]
      rfl
    have hzero : a.inflight = 0 ↔ a.toAlgoBase.inflight = 0 ∧ t.toAlgoBase.inflight = 0 := by
      rw [hsum]
      exact add_eq_zero_iff_of_nonneg hown htwap
    rw [hzero, h.positive.inflight_eq_zero_iff, ht.positive.inflight_eq_zero_iff, ← forall_and]
    exact forall_congr' fun id => by rw [ht.splits.cover, Option.or_eq_none_iff]

/-- A parent that is filled has nothing in flight. -/
theorem Sound.none_of_filled (h : a.Sound cfg p c) (hfull : p.qty ≤ a.filled) :
    ∀ id, c.working id = none := by
  refine h.inflight_eq_zero_iff.1 ?_
  have hown := h.positive.inflight_nonneg
  cases hheld : a.held with
  | none =>
    have hle := (h.plain hheld).2
    rw [inflight_of_plain hheld]
    linarith
  | some t =>
    obtain ⟨ht, hle⟩ := h.degraded t hheld
    have htwap := ht.positive.inflight_nonneg
    have hbound := ht.bound
    unfold inflight
    rw [hheld]
    show a.toAlgoBase.inflight + t.toAlgoBase.inflight = 0
    linarith

/-- What an event does to the deadline of the held TWAP. -/
theorem Finished.deadline_forward (h : a.Finished p c) {o : Order} {f : TwapAlgo W → TwapAlgo W}
    (hf : ∀ t, (f t).parent = t.parent)
    (hheld : a'.held = if a.rest o.internalId = none then a.held.map f else a.held) :
    ∀ t, a'.held = some t → t.parent.endAt = p.endAt := by
  intro t' ht'
  rw [hheld] at ht'
  split_ifs at ht'
  · obtain ⟨t, ht, rfl⟩ := Option.map_eq_some_iff.1 ht'
    rw [hf]
    exact h.deadline t ht
  · exact h.deadline t' ht'

/-- Whatever the algo hears leaves it honest about being done. -/
theorem Finished.heard (hsound : a.Sound cfg p c) (h : a.Finished p c)
    (hheard : Heard c a c' a') : a'.Finished p c' := by
  have hsound' := hsound.heard hheard
  cases hheard with
  | nothing => exact h
  | @fill o qty price hqty hrem hchild hstatus =>
    refine ⟨h.deadline_forward (f := fun t => t.onFill o qty price) (fun _ => rfl)
      (held_forward _ _), fun hdone => ?_⟩
    change (if a.parent.qty ≤ a.filled + qty then true else a.done) = true at hdone
    split_ifs at hdone with hfull
    · rw [hsound.parent] at hfull
      exact ⟨hsound'.none_of_filled hfull, Or.inl hfull⟩
    · -- an algo that is done has no child to fill
      rw [(h.finished hdone).1 o.internalId] at hchild
      cases hchild
  | @reject o reason =>
    refine ⟨h.deadline_forward (f := fun t => t.onReject o reason) (fun _ => rfl)
      (held_forward _ _), fun hdone => ?_⟩
    obtain ⟨hnone, hend⟩ := h.finished hdone
    exact ⟨fun id => by simp [ChildBook.set, Function.update_apply, hnone id], hend⟩
  | @cancel o =>
    refine ⟨h.deadline_forward (f := fun t => t.onCancel o) (fun _ => rfl) (held_forward _ _),
      fun hdone => ?_⟩
    obtain ⟨hnone, hend⟩ := h.finished hdone
    exact ⟨fun id => by simp [ChildBook.set, Function.update_apply, hnone id], hend⟩

end Sound

/-! ### Timer calls -/

section Timer

variable {W : Type} {E : Env W} {cfg : AlgoConfig W} {p : ParentOrder} {a : PovAlgo W}
  {s : State W} {now : Timestamp}

theorem sendChild_done {b : AlgoBase W} {qty : Quantity} {price : Price} {type : OrderType} :
    (b.sendChild E qty price type s).2.1.done = b.done := by
  unfold AlgoBase.sendChild
  dsimp only
  split_ifs <;> rfl

/-- Without a held TWAP no timer call is premature. -/
theorem not_premature_of_plain (h : a.held = none) : ¬ a.Premature now := by
  rintro ⟨-, -, -, t, ht, -⟩
  rw [h] at ht
  cases ht

/-- The deadline cross does not mark the algo as done. -/
theorem deadlineCross_done : (a.deadlineCross E now s).1.done = a.done := by
  unfold deadlineCross
  dsimp only
  split_ifs
  · rfl
  · split
    · rfl
    · exact sendChild_done
  · split <;> rfl

theorem react_done (vol : Quantity) : (a.react E now vol s).1.done = a.done := by
  unfold react
  dsimp only
  split_ifs
  · rfl
  · rfl
  · rfl
  · exact sendChild_done
  · rfl
  · exact sendChild_done

/-- The deadline cross runs the timer of the held TWAP, which keeps its parent. -/
theorem deadlineCross_held {t' : TwapAlgo W} (h : (a.deadlineCross E now s).1.held = some t') :
    ∃ t, a.held = some t ∧ t'.parent = t.parent := by
  unfold deadlineCross at h
  dsimp only at h
  by_cases hcrossed : a.deadlineDone = true
  · rw [if_pos hcrossed] at h
    exact ⟨t', h, rfl⟩
  rw [if_neg hcrossed] at h
  cases hheld : ({ a with deadlineDone := true } : PovAlgo W).held with
  | some t =>
    have hdegraded : a.degraded = true := by
      by_contra hnot
      unfold held at hheld
      dsimp only at hheld
      rw [if_neg hnot] at hheld
      cases hheld
    rw [hheld] at h
    unfold held at h
    dsimp only at h
    rw [if_pos hdegraded, Option.some_inj] at h
    exact ⟨t, hheld, h ▸ TwapAlgo.onTimer_parent⟩
  | none =>
    have hnone : ∀ {x : PovAlgo W}, x.held = ({ a with deadlineDone := true } : PovAlgo W).held →
        x.held ≠ some t' := by
      intro x hx hsome
      rw [hx, hheld] at hsome
      cases hsome
    rw [hheld] at h
    dsimp only at h
    split_ifs at h
    all_goals exact absurd h (hnone rfl)

/-- Degrading hands the rest of the parent's window to the TWAP. -/
theorem react_held (hplain : a.held = none) (vol : Quantity) {t : TwapAlgo W}
    (h : (a.react E now vol s).1.held = some t) : t.parent.endAt = a.parent.endAt := by
  have hnone : ∀ {x : PovAlgo W}, x.held = a.held → x.held ≠ some t := by
    intro x hx hsome
    rw [hx, hplain] at hsome
    cases hsome
  unfold react at h
  dsimp only at h
  split_ifs at h
  · exact absurd h (hnone rfl)
  · unfold degradeToTwap held at h
    dsimp only at h
    rw [if_pos rfl, Option.some_inj] at h
    rw [← h, TwapAlgo.onTimer_parent]
    rfl
  all_goals exact absurd h (hnone rfl)

/-- After the deadline, done means that nothing is in flight. -/
theorem settleDeadline_finished {c c' : ChildBook} (h : a.Finished p c) (hdone : a.done ≠ true)
    (hsound : (a.deadlineCross E now s).1.settleDeadline.Sound cfg p c') :
    (a.deadlineCross E now s).1.settleDeadline.Finished p c' := by
  have hdeadline : ∀ t, (a.deadlineCross E now s).1.held = some t → t.parent.endAt = p.endAt := by
    intro t ht
    obtain ⟨t', ht', hsame⟩ := deadlineCross_held ht
    rw [hsame]
    exact h.deadline t' ht'
  have hnot : (a.deadlineCross E now s).1.done = a.done := deadlineCross_done
  have hparent := hsound.parent
  unfold settleDeadline at hsound hparent ⊢
  by_cases hzero : (a.deadlineCross E now s).1.inflight = 0
  · rw [if_pos hzero] at hsound hparent ⊢
    refine ⟨hdeadline, fun _ => ⟨hsound.inflight_eq_zero_iff.1 hzero, ?_⟩⟩
    -- what the children did not fill is reported as incomplete
    rcases lt_or_ge (a.deadlineCross E now s).1.filled p.qty with hlt | hge
    · rw [← hparent] at hlt
      exact Or.inr (if_pos hlt)
    · exact Or.inl hge
  · rw [if_neg hzero]
    refine ⟨hdeadline, fun hdone' => ?_⟩
    rw [hnot] at hdone'
    exact absurd hdone' hdone

/-- The timer of the held TWAP runs, and is not done with its residual too early. -/
theorem forwardTimer_finished {c c' : ChildBook} {t : TwapAlgo W} (h : a.Finished p c)
    (hparent : a.parent = p) (hdone : a.done ≠ true) (hbefore : now < a.parent.endAt)
    (hheld : a.held = some t) (hready : ¬ a.Premature now)
    (hsound : PovAlgo.Sound cfg p
      { a with
        twap := some (t.onTimer E now s).1
        done := if (t.onTimer E now s).1.done then true else a.done } c') :
    PovAlgo.Finished p
      { a with
        twap := some (t.onTimer E now s).1
        done := if (t.onTimer E now s).1.done then true else a.done } c' := by
  have hend : t.parent.endAt = a.parent.endAt := by rw [h.deadline t hheld, hparent]
  refine ⟨fun t' ht' => ?_, fun hdone' => ?_⟩
  · unfold held at ht'
    dsimp only at ht'
    split_ifs at ht'
    rw [← Option.some_inj.1 ht', TwapAlgo.onTimer_parent]
    exact h.deadline t hheld
  · -- the TWAP is done with its residual, so the parent is filled
    have htwap : (t.onTimer E now s).1.done = true := by
      dsimp only at hdone'
      split_ifs at hdone' with htwap
      · exact htwap
      · exact absurd hdone' hdone
    rw [TwapAlgo.onTimer_done_iff (hend ▸ hbefore)] at htwap
    have hfull : p.qty ≤ a.filled := by
      by_contra hlt
      rw [← hparent] at hlt
      exact hready ⟨Bool.eq_false_of_not_eq_true hdone, hbefore, not_le.1 hlt, t, hheld, htwap⟩
    exact ⟨hsound.none_of_filled hfull, Or.inl hfull⟩

/-- **A timer call that is not premature** leaves the algo honest about being done. -/
theorem onTimer_finished (hreg : s.om.Regular)
    (hsound : Unwrapped s.om →
      a.Sound cfg p (s.om.childBook cfg.workerOffset cfg.workerIndex))
    (h : a.Finished p (s.om.childBook cfg.workerOffset cfg.workerIndex))
    (hclean : a.CrossesClean now) (hready : ¬ a.Premature now)
    (hunwrapped : Unwrapped (a.onTimer E now s).2.om) :
    (a.onTimer E now s).1.Finished p
      ((a.onTimer E now s).2.om.childBook cfg.workerOffset cfg.workerIndex) := by
  have hsteady := onTimer_steady (E := E) hreg ⟨.refl, hsound⟩ hclean
  have hsound' := hsteady.sound hunwrapped
  have hparent := (hsound (hsteady.chain.unwrapped hreg.wf hunwrapped)).parent
  by_cases hdone : a.done = true
  · have hsame : a.onTimer E now s = (a, s) := if_pos hdone
    rw [hsame]
    exact h
  by_cases hdeadline : a.parent.endAt ≤ now
  · have hcross : a.onTimer E now s =
        ((a.deadlineCross E now s).1.settleDeadline, (a.deadlineCross E now s).2) := by
      unfold onTimer
      rw [if_neg hdone, if_pos hdeadline]
    rw [hcross] at hsound' ⊢
    exact settleDeadline_finished h hdone hsound'
  · cases hheld : a.held with
    | some t =>
      have htimer : a.onTimer E now s =
          ({ a with
              twap := some (t.onTimer E now s).1
              done := if (t.onTimer E now s).1.done then true else a.done },
            (t.onTimer E now s).2) := by
        unfold onTimer
        rw [if_neg hdone, if_neg hdeadline, hheld]
      rw [htimer] at hsound' ⊢
      exact forwardTimer_finished h hparent hdone (not_le.1 hdeadline) hheld hready hsound'
    | none =>
      have hreact : a.onTimer E now s =
          (a.observe now (a.observedVolume s.world)).react E now (a.observedVolume s.world) s := by
        unfold onTimer
        rw [if_neg hdone, if_neg hdeadline, hheld]
      rw [hreact]
      refine ⟨fun t ht => ?_, fun hdone' => ?_⟩
      · have hplain : (a.observe now (a.observedVolume s.world)).held = none := hheld
        exact (react_held hplain _ ht).trans (congrArg ParentOrder.endAt hparent)
      · rw [react_done] at hdone'
        exact absurd hdone' hdone

/-- A premature timer call reports done, with a part of the parent not filled. -/
theorem Premature.reports {c : ChildBook} (h : a.Finished p c) (hparent : a.parent = p)
    (hearly : a.Premature now) :
    (a.onTimer E now s).1.done = true ∧ (a.onTimer E now s).1.filled < p.qty ∧
      (a.onTimer E now s).1.stats = a.stats := by
  obtain ⟨hdone, hbefore, hlt, t, hheld, htwap⟩ := hearly
  have hend : t.parent.endAt = a.parent.endAt := by rw [h.deadline t hheld, hparent]
  have htimer : (t.onTimer E now s).1.done = true :=
    (TwapAlgo.onTimer_done_iff (by rw [hend]; exact hbefore)).2 htwap
  unfold onTimer
  rw [if_neg (by simp [hdone]), if_neg (not_le.2 hbefore), hheld]
  exact ⟨if_pos htimer, hparent ▸ hlt, rfl⟩

end Timer

/-! ### Every run -/

section Runs

variable {B : Type} {E : Env B} {cfg : AlgoConfig B} {p : ParentOrder} {s : State (B × PovAlgo B)}

theorem finished_init (b : PovAlgo B) (hb : b = PovAlgo.start { config := cfg } p) (c : ChildBook) :
    b.Finished p c where
  deadline := fun t ht => by
    have hplain : (PovAlgo.start ({ config := cfg } : PovAlgo B) p).held = none := if_neg nofun
    rw [hb, hplain] at ht
    cases ht
  finished := fun hdone => by
    rw [hb] at hdone
    cases hdone

/-- Every operation whose timer call crosses clean and is not premature. -/
theorem step_finished (h : Invariant cfg p s)
    (hfinished : Unwrapped s.om →
      s.world.2.Finished p (s.om.childBook cfg.workerOffset cfg.workerIndex))
    {op : AlgoOp} (hop : op.Foreign cfg.workerOffset cfg.workerIndex)
    (hready : ∀ now, op = .timer now →
      s.world.2.CrossesClean now ∧ ¬ s.world.2.Premature now)
    (hunwrapped :
      Unwrapped ((algoMachine E cfg.workerOffset cfg.workerIndex).step s op).om) :
    ((algoMachine E cfg.workerOffset cfg.workerIndex).step s op).world.2.Finished p
      (((algoMachine E cfg.workerOffset cfg.workerIndex).step s op).om.childBook
        cfg.workerOffset cfg.workerIndex) := by
  cases op with
  | oms op =>
    have hchain : Chain {} s.om
        (s.step (E.withAlgo cfg.workerOffset cfg.workerIndex) op).om :=
      step_chain h.regular.wf op
    have hunwrapped₀ := hchain.unwrapped h.regular.wf hunwrapped
    exact (hfinished hunwrapped₀).heard (h.sound hunwrapped₀) (step_heard h.regular hop)
  | timer now =>
    obtain ⟨hclean, hnot⟩ := hready now rfl
    have hsteady := onTimer_steady (E := E) (a := s.world.2) (s := ⟨s.om, s.world.1⟩) h.regular
      ⟨.refl, h.sound⟩ hclean
    have hunwrapped₀ := hsteady.chain.unwrapped h.regular.wf hunwrapped
    exact onTimer_finished (E := E) (a := s.world.2) (s := ⟨s.om, s.world.1⟩) h.regular h.sound
      (hfinished hunwrapped₀) hclean hnot hunwrapped
  | cancel =>
    have hchain := fun P => cancelAll_chain (E := E) (a := s.world.2) (s := ⟨s.om, s.world.1⟩) P
    have hunwrapped₀ := (hchain {}).unwrapped h.regular.wf hunwrapped
    show s.world.2.Finished p
      ((s.world.2.cancel E ⟨s.om, s.world.1⟩).om.childBook cfg.workerOffset cfg.workerIndex)
    rw [childBook_idle ((hchain still).idle h.regular.wf h.regular.stamped)]
    exact hfinished hunwrapped₀

end Runs

end PovAlgo

/-- **POV reports done only when it is done.** Along every run of timer calls and operations of the
manager in which no other order carries its tag, no generation comes round, each timer call that
crosses the residual finds no child in flight, and none is premature: once the algo is done, no
order with its tag works, and either the parent is filled or the algo says that it is incomplete. -/
theorem pov_done_honest {B : Type} (E : Env B) (cfg : AlgoConfig B) (p : ParentOrder)
    (hqty : 0 < p.qty) (capacity : PoolCapacity) (b : B) (ops : List AlgoOp) :
    let M := algoMachine (A := PovAlgo) E cfg.workerOffset cfg.workerIndex
    let s₀ : State (B × PovAlgo B) := ⟨.init capacity, b, PovAlgo.start { config := cfg } p⟩
    let s := M.run s₀ ops
    M.Admits (fun s op => op.Foreign cfg.workerOffset cfg.workerIndex ∧
      ∀ now, op = .timer now →
        s.world.2.CrossesClean now ∧ ¬ s.world.2.Premature now) s₀ ops →
    Unwrapped s.om → s.world.2.done = true →
    (∀ slot, s.om.pool.Working slot →
      (s.om.pool.slots slot).retrieveIntData cfg.workerOffset ≠ cfg.workerIndex) ∧
    (p.qty ≤ s.world.2.filled ∨ s.world.2.stats.incompleteAtDeadline = true) := by
  intro M s₀ s hadm hunwrapped hdone
  have hinv : PovAlgo.Invariant cfg p s ∧ (Unwrapped s.om →
      s.world.2.Finished p (s.om.childBook cfg.workerOffset cfg.workerIndex)) :=
    Machine.run_invariant
      (I := fun s : State (B × PovAlgo B) => PovAlgo.Invariant cfg p s ∧ (Unwrapped s.om →
        s.world.2.Finished p (s.om.childBook cfg.workerOffset cfg.workerIndex)))
      (fun s op h hop => ⟨PovAlgo.step_invariant h.1 hop.1 fun now heq => (hop.2 now heq).1,
        PovAlgo.step_finished h.1 h.2 hop.1 hop.2⟩)
      ⟨PovAlgo.invariant_init hqty.le capacity b, fun _ => PovAlgo.finished_init _ rfl _⟩ hadm
  obtain ⟨hnone, hend⟩ := (hinv.2 hunwrapped).finished hdone
  refine ⟨fun slot hw hown => ?_, hend⟩
  -- a working order with the tag is in the book under its id
  have hreg := hinv.1.regular
  have hworks := hreg.stamped.works_slot hreg.wf hw
  have hslot := (hreg.stamped slot hw.1).1
  have htag : (s.om.orderRef (s.om.pool.slots slot).internalId).retrieveIntData
      cfg.workerOffset = cfg.workerIndex := by
    rw [OrderManager.orderRef, hslot]
    exact hown
  have hchild := working_of_own hreg.stamped hworks.live htag
  rw [hnone] at hchild
  cases hchild

/-- A parent of ten, small volumes, and a shortfall that degrades the algo to a TWAP of one
slice. -/
def dryConfig : AlgoConfig Unit where
  workerIndex := 7
  mds := some { topOfBook := fun _ _ => {}, volumeSince := fun _ _ _ => 50 }
  catchUpThreshold := 5
  residualTwapSlices := 1

def dryRun (ops : List AlgoOp) : State (Unit × PovAlgo Unit) :=
  (algoMachine (A := PovAlgo) acceptingEnv 0 7).run
    ⟨.init twoSlots, (), PovAlgo.start { config := dryConfig } povParent⟩ ops

/-- The own child and the child of the TWAP are both filled. -/
theorem pov_done_honest_both_filled :
    let s := dryRun [.timer 0, .timer 1, .oms (.fill 65538 5 5 9 0), .oms (.fill 1 5 5 8 0)]
    (∀ slot, s.om.pool.Working slot → (s.om.pool.slots slot).retrieveIntData 0 ≠ 7) ∧
      (10 ≤ s.world.2.filled ∨ s.world.2.stats.incompleteAtDeadline = true) := by
  have htimer : ∀ now, (AlgoOp.timer now).Foreign 0 7 := fun now => by simp [AlgoOp.Foreign]
  have hfill : ∀ id trade, (AlgoOp.oms (.fill id 5 5 trade 0)).Foreign 0 7 :=
    fun id trade => by simp [AlgoOp.Foreign]
  refine pov_done_honest acceptingEnv dryConfig povParent (by decide) twoSlots ()
    [.timer 0, .timer 1, .oms (.fill 65538 5 5 9 0), .oms (.fill 1 5 5 8 0)]
    ⟨⟨htimer 0, ?_⟩, ⟨htimer 1, ?_⟩, ⟨hfill _ _, fun _ h => by cases h⟩,
      ⟨hfill _ _, fun _ h => by cases h⟩, trivial⟩
    (fun _ => Nat.zero_lt_succ 65535) (by decide)
  all_goals
    rintro now ⟨⟩
    exact ⟨fun _ hdeadline => absurd hdeadline (by decide), PovAlgo.not_premature_of_plain rfl⟩

/-- The TWAP is done with its residual, and the timer reports done while the own child works. -/
theorem pov_done_early :
    ¬ ∀ ops : List AlgoOp, (∀ op ∈ ops, op.Foreign 0 7) → (dryRun ops).world.2.done = true →
      (∀ slot, (dryRun ops).om.pool.Working slot →
        ((dryRun ops).om.pool.slots slot).retrieveIntData 0 ≠ 7) ∧
      (povParent.qty ≤ (dryRun ops).world.2.filled ∨
        (dryRun ops).world.2.stats.incompleteAtDeadline = true) := by
  intro hall
  obtain ⟨hnone, -⟩ := hall [.timer 0, .timer 1, .oms (.fill 65538 5 5 9 0), .timer 2]
    (by simp [AlgoOp.Foreign]) (by decide)
  exact hnone 0 ⟨by decide, by decide⟩ (by decide)

end Oms
