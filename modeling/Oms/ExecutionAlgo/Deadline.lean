import Oms.ExecutionAlgo.Finished

/-!
# What POV cancels at its deadline

After degradation the children are split between POV and the TWAP it holds, and at the deadline POV
leaves everything to that TWAP, which knows its own children only.

* `cancelCalls`: the ids for which a timer call asks the manager to cancel; `CancelsThenSubmits`,
  `onTimer_cancels`: at the deadline it does that, and submits one order at most;
* `Covers`: two tables of working orders without a common id;
* `PovAlgo.Tracked`: before the deadline, the tables of POV and of its TWAP are such, and the TWAP
  has not handled the deadline; `Tracked.heard`, `Tracked.onTimer` keep it;
* `pov_pulls_at_deadline_iff`: every working child is cancelled exactly if POV holds no TWAP, or all
  are children of a TWAP that is not done;
* `pov_leaves_child_at_deadline`: an own child from before degradation is left working.
-/

namespace Oms

open OrderManager

/-! ### Calls of `cancel` -/

section Calls

variable {W : Type} (E : Env W) (now : Timestamp)

/-- The orders that `cancel` asks the manager to cancel. -/
def AlgoBase.cancelCalls (a : AlgoBase W) : List OrderIdRaw := a.config.childOrder a.children.keys

/-- The orders that a timer call asks the manager to cancel. -/
def TwapAlgo.cancelCalls (a : TwapAlgo W) : List OrderIdRaw :=
  if a.done then []
  else if a.parent.endAt ≤ now then
    if a.deadlineDone then [] else a.toAlgoBase.cancelCalls
  else []

/-- The orders that a timer call asks the manager to cancel. -/
def PovAlgo.cancelCalls (a : PovAlgo W) : List OrderIdRaw :=
  if a.done then []
  else if a.parent.endAt ≤ now then
    if a.deadlineDone then []
    else
      match a.held with
      | some t => t.cancelCalls now
      | none => a.toAlgoBase.cancelCalls
  else
    match a.held with
    | some t => t.cancelCalls now
    | none => []

/-- The manager is asked to cancel `ids`, and then to submit one order at most. -/
def CancelsThenSubmits (ids : List OrderIdRaw) (s s' : State W) : Prop :=
  ∃ w, let s₁ : State W := { ids.foldl (fun s id => (s.cancel E id).2) s with world := w }
    s' = s₁ ∨ ∃ req, s' = (s₁.submit E req).2

variable {E now} {s : State W}

theorem sendChild_submits (a : AlgoBase W) (qty : Quantity) (price : Price) (type : OrderType)
    (s : State W) : (a.sendChild E qty price type s).2.2 = s ∨
      ∃ req, (a.sendChild E qty price type s).2.2 = (s.submit E req).2 := by
  unfold AlgoBase.sendChild
  dsimp only
  split_ifs
  · exact Or.inl rfl
  · exact Or.inr ⟨_, rfl⟩
  · exact Or.inr ⟨_, rfl⟩

theorem cancelsThenSubmits_nil (s : State W) : CancelsThenSubmits E [] s s :=
  ⟨s.world, Or.inl rfl⟩

/-- At its deadline a TWAP cancels its children and crosses with one order at most. -/
theorem TwapAlgo.onTimer_cancels {a : TwapAlgo W} (hdeadline : a.parent.endAt ≤ now) :
    CancelsThenSubmits E (a.cancelCalls now) s (a.onTimer E now s).2 := by
  unfold TwapAlgo.cancelCalls TwapAlgo.onTimer
  rw [if_pos hdeadline, if_pos hdeadline]
  by_cases hdone : a.done
  · rw [if_pos hdone, if_pos hdone]
    exact cancelsThenSubmits_nil s
  rw [if_neg hdone, if_neg hdone]
  unfold TwapAlgo.deadlineCross
  by_cases hcrossed : a.deadlineDone
  · rw [if_pos hcrossed, if_pos hcrossed]
    exact cancelsThenSubmits_nil s
  rw [if_neg hcrossed, if_neg hcrossed]
  dsimp only
  split_ifs
  · exact ⟨_, sendChild_submits _ _ _ _ _⟩
  · exact ⟨_, Or.inl rfl⟩

/-- At its deadline POV does the same, or leaves it to the TWAP. -/
theorem PovAlgo.onTimer_cancels {a : PovAlgo W} (hdeadline : a.parent.endAt ≤ now)
    (hheld : ∀ t, a.held = some t → t.parent.endAt ≤ now) :
    CancelsThenSubmits E (a.cancelCalls now) s (a.onTimer E now s).2 := by
  unfold PovAlgo.cancelCalls PovAlgo.onTimer
  rw [if_pos hdeadline, if_pos hdeadline]
  by_cases hdone : a.done
  · rw [if_pos hdone, if_pos hdone]
    exact cancelsThenSubmits_nil s
  rw [if_neg hdone, if_neg hdone]
  unfold PovAlgo.deadlineCross
  by_cases hcrossed : a.deadlineDone
  · rw [if_pos hcrossed, if_pos hcrossed]
    exact cancelsThenSubmits_nil s
  rw [if_neg hcrossed, if_neg hcrossed]
  have hmark : ({ a with deadlineDone := true } : PovAlgo W).held = a.held := rfl
  dsimp only
  rw [hmark]
  cases ht : a.held with
  | some t => exact t.onTimer_cancels (hheld t ht)
  | none =>
    have hcancel : ({ a with deadlineDone := true } : PovAlgo W).cancel E s =
        a.toAlgoBase.cancelCalls.foldl (fun s id => (s.cancel E id).2) s := by
      unfold PovAlgo.cancel
      rw [hmark, ht]
      rfl
    dsimp only
    rw [hcancel]
    split_ifs
    · exact ⟨_, sendChild_submits _ _ _ _ _⟩
    · exact ⟨_, Or.inl rfl⟩

end Calls

/-! ### Two tables of working orders -/

/-- The ids of two tables work, and no id is in both. -/
structure Covers (c : ChildBook) (outer inner : OrderIdRaw → Option Quantity) : Prop where
  outerWorks : ∀ id, outer id ≠ none → c.working id ≠ none
  innerWorks : ∀ id, inner id ≠ none → c.working id ≠ none
  apart : ∀ id, outer id = none ∨ inner id = none

section Covers

variable {c c' : ChildBook} {outer inner : OrderIdRaw → Option Quantity} {id : OrderIdRaw}
  {v : Option Quantity} {qty : Quantity}

theorem Covers.symm (h : Covers c outer inner) : Covers c inner outer :=
  ⟨h.innerWorks, h.outerWorks, fun id => (h.apart id).symm⟩

/-- No order stops working. -/
theorem Covers.mono (h : Covers c outer inner)
    (hc : ∀ id, c.working id ≠ none → c'.working id ≠ none) : Covers c' outer inner :=
  ⟨fun id hid => hc id (h.outerWorks id hid), fun id hid => hc id (h.innerWorks id hid), h.apart⟩

/-- An id outside one table is written in the book and in the other table. -/
theorem Covers.set_inner (h : Covers c outer inner) (hout : outer id = none) :
    Covers (c.set id v qty) outer (Function.update inner id v) := by
  refine ⟨fun k hk => ?_, fun k hk => ?_, fun k => ?_⟩
  · have hne : k ≠ id := fun heq => hk (heq ▸ hout)
    rw [ChildBook.working_set, if_neg hne]
    exact h.outerWorks k hk
  · rw [Function.update_apply] at hk
    rw [ChildBook.working_set]
    split_ifs at hk ⊢ with heq
    · exact hk
    · exact h.innerWorks k hk
  · rw [Function.update_apply]
    split_ifs with heq
    · exact Or.inl (heq ▸ hout)
    · exact h.apart k

/-- A new order belongs to neither table. -/
theorem Covers.fresh (h : Covers c outer inner) (hnew : c.working id = none) :
    outer id = none ∧ inner id = none :=
  ⟨not_imp_not.1 (h.outerWorks id) hnew, not_imp_not.1 (h.innerWorks id) hnew⟩

/-- An id outside both tables is written in the book. -/
theorem Covers.set_other (h : Covers c outer inner) (hout : outer id = none)
    (hin : inner id = none) : Covers (c.set id v qty) outer inner := by
  have hset : Covers (c.set id none qty) outer (Function.update inner id none) := h.set_inner hout
  rw [Function.update_eq_self_iff.2 hin.symm] at hset
  refine hset.mono fun k hk => ?_
  rw [ChildBook.working_set] at hk ⊢
  split_ifs at hk ⊢
  · exact absurd rfl hk
  · exact hk

/-- A table after its child `id` is written, which leaves a table without that child alone. -/
def writeChild (rest : OrderIdRaw → Option Quantity) (id : OrderIdRaw) (v : Option Quantity) :
    OrderIdRaw → Option Quantity :=
  if rest id = none then rest else Function.update rest id v

/-- A child is written in the book and by its owner. -/
theorem Covers.write (h : Covers c outer inner) : Covers (c.set id v qty) (writeChild outer id v)
    (if outer id = none then writeChild inner id v else inner) := by
  unfold writeChild
  by_cases hout : outer id = none
  · by_cases hin : inner id = none
    · rw [if_pos hout, if_pos hout, if_pos hin]
      exact h.set_other hout hin
    · rw [if_pos hout, if_pos hout, if_neg hin]
      exact h.set_inner hout
  · have hin := (h.apart id).resolve_left hout
    rw [if_neg hout, if_neg hout]
    exact (h.symm.set_inner hin).symm

/-- A child is sent by the owner of one table. -/
theorem Covers.send {W : Type} {E : Env W} {s : State W} {a : AlgoBase W} {price : Price}
    {type : OrderType} (h : Covers (s.om.childBook a.config.workerOffset a.config.workerIndex)
      outer a.rest) (hreg : s.om.Regular) :
    Covers ((a.sendChild E qty price type s).2.2.om.childBook a.config.workerOffset
      a.config.workerIndex) outer (a.sendChild E qty price type s).2.1.rest := by
  rcases sendChild_opens (E := E) a qty price type hreg with
    ⟨-, ha, hbook⟩ | ⟨-, -, ha, hnew, hbook⟩
  · rw [ha, hbook]
    exact h
  · rw [hbook]
    by_cases hid : (a.sendChild E qty price type s).1 = 0
    · rw [sendChild_of_zero hid]
      refine h.mono fun k hk => ?_
      rw [ChildBook.working_set]
      split_ifs
      · exact Option.some_ne_none _
      · exact hk
    · rw [ha hid, rest_addChild]
      exact h.set_inner (h.fresh hnew).1

end Covers

/-! ### Tracking both tables -/

namespace PovAlgo

/-- What remains of a child of the held TWAP, as the TWAP has it. -/
def heldRest {W : Type} (a : PovAlgo W) (id : OrderIdRaw) : Option Quantity :=
  a.held.bind fun t => t.rest id

/-- POV and the TWAP it holds each know their children; the TWAP has the deadline of the parent,
and has not handled it. -/
structure Tracked {W : Type} (cfg : AlgoConfig W) (p : ParentOrder) (a : PovAlgo W)
    (c : ChildBook) : Prop where
  config : a.config = cfg
  parent : a.parent = p
  covers : Covers c a.rest a.heldRest
  held : ∀ t, a.held = some t →
    t.config = heldConfig cfg ∧ t.parent.endAt = p.endAt ∧ t.deadlineDone = false

section Tracked

variable {W : Type} {cfg : AlgoConfig W} {p : ParentOrder} {a a' : PovAlgo W} {c c' : ChildBook}
  {id : OrderIdRaw} {v : Option Quantity} {qty : Quantity}

/-- One child is written, by its owner. -/
theorem Tracked.write (h : a.Tracked cfg p c) {f : TwapAlgo W → TwapAlgo W}
    (hconfig : a'.config = a.config) (hparent : a'.parent = a.parent)
    (hrest : a'.rest = writeChild a.rest id v)
    (hheld : a'.held = if a.rest id = none then a.held.map f else a.held)
    (hf : ∀ t, (f t).config = t.config ∧ (f t).parent = t.parent ∧
      (f t).deadlineDone = t.deadlineDone ∧ (f t).rest = writeChild t.rest id v) :
    a'.Tracked cfg p (c.set id v qty) := by
  have hinner : a'.heldRest =
      if a.rest id = none then writeChild a.heldRest id v else a.heldRest := by
    funext k
    unfold heldRest
    rw [hheld]
    by_cases hown : a.rest id = none
    · rw [if_pos hown, if_pos hown]
      unfold writeChild
      cases a.held with
      | none => rfl
      | some t =>
        show (f t).rest k = _
        rw [(hf t).2.2.2]
        rfl
    · rw [if_neg hown, if_neg hown]
  refine ⟨hconfig.trans h.config, hparent.trans h.parent, ?_, fun t' ht' => ?_⟩
  · rw [hrest, hinner]
    exact h.covers.write
  · rw [hheld] at ht'
    split_ifs at ht'
    · obtain ⟨t, ht, rfl⟩ := Option.map_eq_some_iff.1 ht'
      obtain ⟨hconf, hpar, hopen, -⟩ := hf t
      rw [hconf, hpar, hopen]
      exact h.held t ht
    · exact h.held t' ht'

/-- A fill writes the child of its order. -/
theorem rest_onFill_write {b : AlgoBase W} {o : Order}
    (hstatus : o.status = .Filled ↔ o.remaining = 0) (price : Price) :
    (b.onFill o qty price).rest =
      writeChild b.rest o.internalId (if o.remaining = 0 then none else some o.remaining) := by
  unfold writeChild
  by_cases hchild : b.rest o.internalId = none
  · rw [if_pos hchild]
    exact rest_onFill_other hchild price
  · rw [if_neg hchild]
    exact rest_onFill hchild hstatus price

theorem rest_dropChild_write {b : AlgoBase W} :
    (b.dropChild id).rest = writeChild b.rest id none := by
  unfold writeChild
  split_ifs with hchild
  · rw [rest_dropChild]
    exact Function.update_eq_self_iff.2 hchild.symm
  · exact rest_dropChild

/-- Whatever the algo hears, its tables stay those of working orders. -/
theorem Tracked.heard (h : a.Tracked cfg p c) (hheard : Heard c a c' a') : a'.Tracked cfg p c' := by
  cases hheard with
  | nothing => exact h
  | @fill o qty price hqty hrem hchild hstatus =>
    refine h.write rfl rfl (rest_onFill_write hstatus price)
      (held_forward o fun t => t.onFill o qty price) fun t => ⟨rfl, rfl, rfl, ?_⟩
    exact rest_onFill_write hstatus price
  | @reject o reason =>
    refine h.write rfl rfl rest_dropChild_write
      (held_forward o fun t => t.onReject o reason) fun t => ⟨rfl, rfl, rfl, ?_⟩
    exact rest_dropChild_write
  | @cancel o =>
    refine h.write rfl rfl rest_dropChild_write
      (held_forward o fun t => t.onCancel o) fun t => ⟨rfl, rfl, rfl, ?_⟩
    exact rest_dropChild_write

end Tracked

/-! ### Timer calls before the deadline -/

section Timer

variable {W : Type} {E : Env W} {cfg : AlgoConfig W} {p : ParentOrder} {a : PovAlgo W}
  {s : State W} {now : Timestamp} {outer : OrderIdRaw → Option Quantity} {t : TwapAlgo W}

/-- A TWAP that has not handled its deadline works beside another table. -/
structure Beside (cfg : AlgoConfig W) (outer : OrderIdRaw → Option Quantity) (t : TwapAlgo W)
    (s : State W) : Prop where
  regular : s.om.Regular
  config : t.config = cfg
  pending : t.deadlineDone = false
  covers : Covers (s.om.childBook cfg.workerOffset cfg.workerIndex) outer t.rest

/-- POV and the TWAP it holds know their children in a state of the manager. -/
structure Awaiting (cfg : AlgoConfig W) (p : ParentOrder) (a : PovAlgo W) (s : State W) : Prop where
  regular : s.om.Regular
  tracked : a.Tracked cfg p (s.om.childBook cfg.workerOffset cfg.workerIndex)

theorem sendChild_config {b : AlgoBase W} {qty : Quantity} {price : Price} {type : OrderType} :
    (b.sendChild E qty price type s).2.1.config = b.config := by
  unfold AlgoBase.sendChild
  dsimp only
  split_ifs <;> rfl

theorem Beside.fireSlice (h : Beside cfg outer t s) :
    Beside cfg outer (t.fireSlice E s).2.1 (t.fireSlice E s).2.2 := by
  obtain ⟨hreg, rfl, hpending, hcovers⟩ := h
  unfold TwapAlgo.fireSlice
  dsimp only
  split_ifs
  · exact ⟨hreg, rfl, hpending, hcovers⟩
  · exact ⟨hreg.chain (sendChild_chain hreg.wf), sendChild_config, hpending, hcovers.send hreg⟩

theorem Beside.fireSlices (rounds : ℕ) (h : Beside cfg outer t s) :
    Beside cfg outer (t.fireSlices E now rounds s).1 (t.fireSlices E now rounds s).2 := by
  induction rounds generalizing t s with
  | zero => exact h
  | succ rounds ih =>
    rw [TwapAlgo.fireSlices_cons]
    split_ifs
    · exact ih h.fireSlice
    · exact h

/-- A timer call before the deadline sends slices at most. -/
theorem Beside.onTimer (h : Beside cfg outer t s) (hearly : now < t.parent.endAt) :
    Beside cfg outer (t.onTimer E now s).1 (t.onTimer E now s).2 := by
  unfold TwapAlgo.onTimer
  by_cases hdone : t.done
  · rw [if_pos hdone]
    exact h
  · rw [if_neg hdone, if_neg (not_le.2 hearly)]
    have hslices : Beside cfg outer (t.fireSlices E now (t.n - t.slicesDone) s).1 _ :=
      h.fireSlices (t.n - t.slicesDone)
    exact ⟨hslices.regular, hslices.config, hslices.pending, hslices.covers⟩

/-- The held TWAP is replaced by one that works beside POV. -/
theorem Tracked.hold {c : ChildBook} (h : a.Tracked cfg p c) {a' : PovAlgo W} {t' : TwapAlgo W}
    (hbase : a'.config = a.config ∧ a'.parent = a.parent ∧ a'.rest = a.rest)
    (hheld : a'.held = some t') (hparent : t'.parent.endAt = p.endAt)
    (htwap : Beside (heldConfig cfg) a.rest t' s) : a'.Awaiting cfg p s := by
  obtain ⟨hconfig, hpar, hrest⟩ := hbase
  refine ⟨htwap.regular, hconfig.trans h.config, hpar.trans h.parent, ?_, fun t ht => ?_⟩
  · have hinner : a'.heldRest = t'.rest := by
      funext id
      rw [heldRest, hheld, Option.bind_some]
    rw [hrest, hinner]
    exact htwap.covers
  · rw [hheld, Option.some_inj] at ht
    subst ht
    exact ⟨htwap.config, hparent, htwap.pending⟩

/-- Without a held TWAP there are own children only. -/
theorem heldRest_of_plain (hheld : a.held = none) : a.heldRest = fun _ => none := by
  funext id
  rw [heldRest, hheld, Option.bind_none]

variable (h : a.Awaiting cfg p s)
include h

theorem Awaiting.twapTimer (hearly : now < p.endAt) (hheld : a.held = some t) :
    Beside (heldConfig cfg) a.rest (t.onTimer E now s).1 (t.onTimer E now s).2 := by
  obtain ⟨hconfig, hend, hpending⟩ := h.tracked.held t hheld
  have hinner : a.heldRest = t.rest := by
    funext id
    rw [heldRest, hheld, Option.bind_some]
  have hcovers := h.tracked.covers
  rw [hinner] at hcovers
  exact Beside.onTimer ⟨h.regular, hconfig, hpending, hcovers⟩ (hend ▸ hearly)

/-- An own child is sent. -/
theorem Awaiting.send (hheld : a.held = none) (qty : Quantity) (price : Price) (type : OrderType) :
    ({ a with toAlgoBase := (a.sendChild E qty price type s).2.1 } : PovAlgo W).Awaiting cfg p
      (a.sendChild E qty price type s).2.2 := by
  obtain ⟨hreg, rfl, hparent, hcovers, -⟩ := h
  rw [heldRest_of_plain hheld] at hcovers
  refine ⟨hreg.chain (sendChild_chain hreg.wf), sendChild_config,
    TwapAlgo.sendChild_parent.trans hparent, ?_, fun t ht => ?_⟩
  · have hinner : ({ a with toAlgoBase := (a.sendChild E qty price type s).2.1 } :
        PovAlgo W).heldRest = fun _ => none := heldRest_of_plain hheld
    rw [hinner]
    exact (hcovers.symm.send hreg).symm
  · change a.held = some t at ht
    rw [hheld] at ht
    cases ht

/-- An interval before the deadline. -/
theorem Awaiting.react (hearly : now < p.endAt) (hheld : a.held = none) (vol : Quantity) :
    (a.react E now vol s).1.Awaiting cfg p (a.react E now vol s).2 := by
  have hplain := h.tracked.covers
  rw [heldRest_of_plain hheld] at hplain
  unfold PovAlgo.react
  dsimp only
  split_ifs
  · exact ⟨h.regular, h.tracked.config, h.tracked.parent, h.tracked.covers, h.tracked.held⟩
  · refine h.tracked.hold ⟨rfl, rfl, rfl⟩ rfl ?_
      (Beside.onTimer ⟨h.regular, ?_, rfl, hplain⟩ ?_)
    · rw [TwapAlgo.onTimer_parent]
      show a.parent.endAt = p.endAt
      rw [h.tracked.parent]
    · exact congrArg heldConfig h.tracked.config
    · show now < a.parent.endAt
      rw [h.tracked.parent]
      exact hearly
  · exact h
  · exact h.send hheld _ _ _
  · exact h
  · exact h.send hheld _ _ _

/-- A timer call that does not handle the deadline. -/
theorem Awaiting.onTimer (hearly : a.done = true ∨ now < a.parent.endAt) :
    (a.onTimer E now s).1.Awaiting cfg p (a.onTimer E now s).2 := by
  unfold PovAlgo.onTimer
  by_cases hdone : a.done
  · rw [if_pos hdone]
    exact h
  have hbefore := hearly.resolve_left hdone
  have hearly' : now < p.endAt := h.tracked.parent ▸ hbefore
  rw [if_neg hdone, if_neg (not_le.2 hbefore)]
  cases hheld : a.held with
  | some t =>
    have hdegraded : a.degraded = true := by
      by_contra hnot
      rw [PovAlgo.held, if_neg hnot] at hheld
      cases hheld
    refine h.tracked.hold ⟨rfl, rfl, rfl⟩ (if_pos hdegraded) ?_ (h.twapTimer hearly' hheld)
    rw [TwapAlgo.onTimer_parent]
    exact (h.tracked.held t hheld).2.1
  | none =>
    have hobserve : (a.observe now (a.observedVolume s.world)).Awaiting cfg p s :=
      ⟨h.regular, h.tracked.config, h.tracked.parent, h.tracked.covers, h.tracked.held⟩
    exact hobserve.react hearly' hheld _

end Timer

/-! ### Runs up to the deadline -/

section Runs

variable {B : Type} {E : Env B} {cfg : AlgoConfig B} {p : ParentOrder} {s : State (B × PovAlgo B)}

theorem deadlineCross_deadlineDone {W : Type} {E : Env W} {a : PovAlgo W} {s : State W}
    {now : Timestamp} : (a.deadlineCross E now s).1.deadlineDone = true := by
  unfold deadlineCross
  dsimp only
  by_cases hcrossed : a.deadlineDone
  · rw [if_pos hcrossed]
    exact hcrossed
  · rw [if_neg hcrossed]
    split
    · rfl
    · split_ifs <;> rfl

/-- A timer call handles the deadline once it has passed, unless the algo is done. -/
theorem of_deadlineDone_onTimer {W : Type} {E : Env W} {a : PovAlgo W} {s : State W}
    {now : Timestamp} (hpending : (a.onTimer E now s).1.deadlineDone = false) :
    a.deadlineDone = false ∧ (a.done = true ∨ now < a.parent.endAt) := by
  unfold PovAlgo.onTimer at hpending
  by_cases hdone : a.done
  · rw [if_pos hdone] at hpending
    exact ⟨hpending, Or.inl hdone⟩
  rw [if_neg hdone] at hpending
  by_cases hend : a.parent.endAt ≤ now
  · rw [if_pos hend] at hpending
    have hhandled : (a.deadlineCross E now s).1.settleDeadline.deadlineDone = true := by
      unfold settleDeadline
      by_cases hzero : (a.deadlineCross E now s).1.inflight = 0
      · rw [if_pos hzero]
        exact deadlineCross_deadlineDone
      · rw [if_neg hzero]
        exact deadlineCross_deadlineDone
    rw [hhandled] at hpending
    cases hpending
  · refine ⟨?_, Or.inr (not_le.1 hend)⟩
    rw [if_neg hend] at hpending
    cases hheld : a.held with
    | some t =>
      rw [hheld] at hpending
      exact hpending
    | none =>
      rw [hheld] at hpending
      revert hpending
      dsimp only
      unfold PovAlgo.react
      dsimp only
      split_ifs <;> exact id

/-- Nothing that the algo hears handles the deadline. -/
theorem onOrderEvent_deadlineDone {W : Type} {offset : ScratchOffset} {index : ℤ} {e : OrderEvent}
    {om : OrderManager} {a : PovAlgo W} :
    (AlgoDispatcher.onOrderEvent offset index e om a).deadlineDone = a.deadlineDone := by
  unfold AlgoDispatcher.onOrderEvent AlgoDispatcher.notify
  split
  · rfl
  · split_ifs
    · rfl
    · split <;> rfl

theorem step_deadlineDone {offset : ScratchOffset} {index : ℤ} (op : Op) :
    (s.step (E.withAlgo offset index) op).world.2.deadlineDone = s.world.2.deadlineDone := by
  have hheard : (s.step (E.withAlgo offset index) op).world.2 =
      heardOf (AlgoDispatcher.onOrderEvent offset index) s.world.2 (announced s.om op) :=
    step_listening op
  rw [hheard]
  cases announced s.om op with
  | none => rfl
  | some x => exact onOrderEvent_deadlineDone

/-- A submit ends no order. -/
theorem submit_working {W : Type} {E : Env W} {s : State W} {offset : ScratchOffset} {index : ℤ}
    (hreg : s.om.Regular) (req : OrderRequest) (id : OrderIdRaw)
    (hid : (s.om.childBook offset index).working id ≠ none) :
    ((s.submit E req).2.om.childBook offset index).working id ≠ none := by
  rcases submit_cases (Env.canceller_true E) s req with ⟨-, -, hchain⟩ | ⟨venue, ex, w, hplacing⟩
  · rw [childBook_idle ((hchain still).idle hreg.wf hreg.stamped)]
    exact hid
  · rw [hplacing.place]
    obtain ⟨new, pool, hacq, -, hcases⟩ := place_cases (s := { s with world := w }) (E := E)
      hreg.wf hreg.stamped req venue ex hplacing.free
    rcases hcases with ⟨-, -, hopens, -⟩ | ⟨-, -, hidle, -⟩
    · by_cases hown : (req.stamp new (E.clock w) {}).retrieveIntData offset = index
      · rw [childBook_opens hopens hown, ChildBook.working_set]
        split_ifs
        · exact Option.some_ne_none _
        · exact hid
      · rw [childBook_opens_foreign hopens (not_works_of_acquire hreg.wf hacq rfl) hown]
        exact hid
    · rw [childBook_idle hidle]
      exact hid

/-- Until the deadline is handled, POV and its TWAP know their children. -/
def Pending (cfg : AlgoConfig B) (p : ParentOrder) (s : State (B × PovAlgo B)) : Prop :=
  s.world.2.deadlineDone = false → s.world.2.Awaiting cfg p ⟨s.om, s.world.1⟩

theorem pending_init (capacity : PoolCapacity) (b : B) :
    Pending cfg p ⟨.init capacity, b, PovAlgo.start { config := cfg } p⟩ := fun _ =>
  ⟨regular_init capacity, rfl, rfl,
    ⟨fun _ h => absurd rfl h, fun _ h => absurd rfl h, fun _ => Or.inl rfl⟩,
    fun t ht => by cases ht⟩

/-- Every operation. -/
theorem step_pending (h : Pending cfg p s) (op : AlgoOp) :
    Pending cfg p ((algoMachine E cfg.workerOffset cfg.workerIndex).step s op) := by
  intro hpending
  cases op with
  | oms op =>
    obtain ⟨hreg, htracked⟩ := h ((step_deadlineDone op).symm.trans hpending)
    have hreg : s.om.Regular := hreg
    have hchain : Chain {} s.om (s.step (E.withAlgo cfg.workerOffset cfg.workerIndex) op).om :=
      step_chain hreg.wf op
    refine ⟨hreg.chain hchain, ?_⟩
    by_cases hsubmit : ∃ req, op = .submit req
    · obtain ⟨req, rfl⟩ := hsubmit
      have hsame : (s.step (E.withAlgo cfg.workerOffset cfg.workerIndex) (.submit req)).world.2 =
          s.world.2 := step_other_algo rfl
      obtain ⟨hconfig, hparent, hcovers, hheld⟩ := htracked
      show (s.step (E.withAlgo cfg.workerOffset cfg.workerIndex) (.submit req)).world.2.Tracked
        cfg p _
      rw [hsame]
      exact ⟨hconfig, hparent, hcovers.mono fun id => submit_working hreg req id, hheld⟩
    · refine htracked.heard (step_heard (E := E) hreg fun req heq => ?_)
      cases heq
      exact absurd ⟨req, rfl⟩ hsubmit
  | timer now =>
    obtain ⟨hwas, hearly⟩ := of_deadlineDone_onTimer hpending
    exact (h hwas).onTimer hearly
  | cancel =>
    obtain ⟨hreg, htracked⟩ := h hpending
    have hchain : ∀ P, Chain P s.om (s.world.2.cancel E ⟨s.om, s.world.1⟩).om :=
      fun P => cancelAll_chain (s := ⟨s.om, s.world.1⟩) P
    have hreg : s.om.Regular := hreg
    refine ⟨hreg.chain (hchain {}), ?_⟩
    show s.world.2.Tracked cfg p ((s.world.2.cancel E ⟨s.om, s.world.1⟩).om.childBook _ _)
    rw [childBook_idle ((hchain still).idle hreg.wf hreg.stamped)]
    exact htracked

end Runs

/-! ### At the deadline -/

section Deadline

variable {W : Type} {cfg : AlgoConfig W} {p : ParentOrder} {a : PovAlgo W} {s : State W}
  {now : Timestamp} {t : TwapAlgo W} {id : OrderIdRaw}

/-- A child of POV, or of the TWAP it holds. -/
def Child (a : PovAlgo W) (id : OrderIdRaw) : Prop :=
  id ∈ a.children ∨ ∃ t, a.held = some t ∧ id ∈ t.children

theorem mem_cancelCalls {b : AlgoBase W} (hconfig : b.config.childOrder = cfg.childOrder)
    (hwalk : ∀ ids id, id ∈ cfg.childOrder ids ↔ id ∈ ids) :
    id ∈ b.cancelCalls ↔ id ∈ b.children := by
  rw [AlgoBase.cancelCalls, hconfig, hwalk, Finmap.mem_keys]

/-- A TWAP that is done asks for no cancel, and any other one cancels its children. -/
theorem Tracked.mem_twap_cancelCalls {c : ChildBook} (h : a.Tracked cfg p c)
    (hwalk : ∀ ids id, id ∈ cfg.childOrder ids ↔ id ∈ ids) (hend : p.endAt ≤ now)
    (hheld : a.held = some t) :
    id ∈ t.cancelCalls now ↔ t.done = false ∧ id ∈ t.children := by
  obtain ⟨hconfig, hendAt, hpending⟩ := h.held t hheld
  have hchildren : id ∈ t.toAlgoBase.cancelCalls ↔ id ∈ t.children :=
    mem_cancelCalls (congrArg AlgoConfig.childOrder hconfig) hwalk
  unfold TwapAlgo.cancelCalls
  rw [hendAt, if_pos hend, hpending]
  cases hdone : t.done with
  | true => simp
  | false => simpa using hchildren

/-- Which working children a timer call at the deadline asks to cancel. -/
theorem Tracked.cancels_iff {c : ChildBook} (h : a.Tracked cfg p c)
    (hwalk : ∀ ids id, id ∈ cfg.childOrder ids ↔ id ∈ ids) (hdone : a.done = false)
    (hpending : a.deadlineDone = false) (hend : p.endAt ≤ now) (works : OrderIdRaw → Prop) :
    (∀ id, a.Child id → works id → id ∈ a.cancelCalls now) ↔
      ∀ t, a.held = some t → (∀ id ∈ a.children, ¬ works id) ∧
        (t.done = true → ∀ id ∈ t.children, ¬ works id) := by
  have hcalls : a.cancelCalls now = match a.held with
      | some t => t.cancelCalls now
      | none => a.toAlgoBase.cancelCalls := by
    unfold cancelCalls
    rw [h.parent, if_pos hend, hdone, hpending]
    rfl
  cases hheld : a.held with
  | none =>
    rw [hheld] at hcalls
    dsimp only at hcalls
    refine iff_of_true ?_ fun t ht => by cases ht
    rintro id (hown | ⟨t, ht, -⟩) -
    · rw [hcalls]
      exact (mem_cancelCalls (congrArg AlgoConfig.childOrder h.config) hwalk).2 hown
    · rw [hheld] at ht
      cases ht
  | some t =>
    rw [hheld] at hcalls
    dsimp only at hcalls
    have hmem (id : OrderIdRaw) : id ∈ a.cancelCalls now ↔ t.done = false ∧ id ∈ t.children := by
      rw [hcalls]
      exact h.mem_twap_cancelCalls hwalk hend hheld
    constructor
    · rintro hall t' ⟨⟩
      refine ⟨fun id hown hworks => ?_, fun htwap id hid hworks => ?_⟩
      · -- the TWAP does not know a child of POV
        have hother := ((hmem id).1 (hall id (Or.inl hown) hworks)).2
        rcases h.covers.apart id with hnone | hnone
        · exact mem_children_iff.1 hown hnone
        · rw [heldRest, hheld, Option.bind_some] at hnone
          exact mem_children_iff.1 hother hnone
      · have hrunning := ((hmem id).1 (hall id (Or.inr ⟨t, hheld, hid⟩) hworks)).1
        rw [htwap] at hrunning
        cases hrunning
    · intro hcond id hchild hworks
      obtain ⟨hown, htwap⟩ := hcond t rfl
      rcases hchild with hid | ⟨t', ht', hid⟩
      · exact absurd hworks (hown id hid)
      · rw [hheld, Option.some_inj] at ht'
        subst ht'
        refine (hmem id).2 ⟨?_, hid⟩
        by_contra hrunning
        exact htwap (by simpa using hrunning) id hid hworks

end Deadline
end PovAlgo

/-- **What POV pulls at its deadline.** Along every run, at a timer call from the deadline on that
finds the parent not done and the deadline not handled: the call asks the manager to cancel
`cancelCalls`, and then to submit one order at most. These are all working children exactly if POV
holds no TWAP, or works no child of its own and its TWAP, if it is done, none either. -/
theorem pov_pulls_at_deadline_iff {B : Type} (E : Env B) (cfg : AlgoConfig B)
    (hwalk : ∀ ids id, id ∈ cfg.childOrder ids ↔ id ∈ ids) (p : ParentOrder)
    (capacity : PoolCapacity) (b : B) (ops : List AlgoOp) (now : Timestamp) :
    let s := (algoMachine (A := PovAlgo) E cfg.workerOffset cfg.workerIndex).run
      ⟨.init capacity, b, PovAlgo.start { config := cfg } p⟩ ops
    let a := s.world.2
    a.done = false → a.deadlineDone = false → p.endAt ≤ now →
      CancelsThenSubmits E (a.cancelCalls now) ⟨s.om, s.world.1⟩
        (a.onTimer E now ⟨s.om, s.world.1⟩).2 ∧
      ((∀ id, a.Child id → s.om.Works id → id ∈ a.cancelCalls now) ↔
        ∀ t, a.held = some t → (∀ id ∈ a.children, ¬ s.om.Works id) ∧
          (t.done = true → ∀ id ∈ t.children, ¬ s.om.Works id)) := by
  intro s a hdone hpending hend
  have hinv : PovAlgo.Pending cfg p s :=
    Machine.run_invariant (I := PovAlgo.Pending cfg p) (G := fun _ _ => True)
      (fun _ op h _ => PovAlgo.step_pending h op) (PovAlgo.pending_init capacity b)
      (Machine.admits_true _ _ _)
  have htracked := (hinv hpending).tracked
  refine ⟨PovAlgo.onTimer_cancels ?_ fun t ht => ?_,
    htracked.cancels_iff hwalk hdone hpending hend s.om.Works⟩
  · rw [htracked.parent]
    exact hend
  · rw [(htracked.held t ht).2.1]
    exact hend

/-- POV has not degraded, and its child is cancelled. -/
theorem pov_pulls_at_deadline_iff_plain : 1 ∈ (povRun [.timer 0]).world.2.cancelCalls 10 := by
  have hall := (pov_pulls_at_deadline_iff acceptingEnv povConfig (fun _ _ => Finset.mem_ascending)
    povParent twoSlots () [.timer 0] 10 (by decide) (by decide) (by decide)).2
  refine hall.2 (fun t ht => ?_) 1 (Or.inl (by decide)) (by decide)
  have hplain : (povRun [.timer 0]).world.2.held.isNone = true := by decide
  change (povRun [.timer 0]).world.2.held = some t at ht
  rw [ht] at hplain
  cases hplain

/-- Both children still work at the deadline, and only the one of the TWAP is cancelled. -/
theorem pov_leaves_child_at_deadline :
    (¬ ∀ ops now, (dryRun ops).world.2.done = false → (dryRun ops).world.2.deadlineDone = false →
      povParent.endAt ≤ now → ∀ id, (dryRun ops).world.2.Child id → (dryRun ops).om.Works id →
        id ∈ (dryRun ops).world.2.cancelCalls now) ∧
    ((dryRun [.timer 0, .timer 1, .timer 10]).om.orderRef 1).status = .Sent ∧
    ((dryRun [.timer 0, .timer 1, .timer 10]).om.orderRef 1).pendingCancel = false := by
  refine ⟨fun hall => ?_, by decide, by decide⟩
  have hcalled := hall [.timer 0, .timer 1] 10 (by decide) (by decide) (by decide) 1
    (Or.inl (by decide)) (by decide)
  exact absurd hcalled (by decide)

end Oms
