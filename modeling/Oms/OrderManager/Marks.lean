import Oms.OrderManager.Effects

/-!
# The scratch fields of the working orders

An order keeps the scratch fields that it was submitted with as long as it works.

* `Effect`, `Turn.effect`: a turn leaves the working orders alone, or fills, closes or opens one;
* `OrderManager.marks`: the scratch fields of the working order of an id; `scratch`: those of a new
  order;
* `Turns.marks_new`: what works with other fields than before was submitted with them;
* `Turns.marks_kept`: turns that reach no order leave the fields of the working orders alone;
* `Idle.works_iff`, `Closes.works_iff`, `Fills.works_iff`: which orders work after a turn;
* `onFill_executed`, `step_executed`: what an operation adds to the fills of the orders with a pair.
-/

namespace Oms

open OrderManager Relation

/-! ### The effect of a turn -/

/-- What a turn does to the working orders. -/
inductive Effect (P : Policy) (om om' : OrderManager) : Prop
  | idle (h : Idle om om')
  | fill {id : OrderIdRaw} {qty : Quantity} {price : Price} {trade : TradeId} {ts : Timestamp}
      (haddr : P.addresses (om.orderRef id).internalId id)
      (hworks : om.Works (om.orderRef id).internalId)
      (href : om.orderRef (om.orderRef id).internalId = om.orderRef id)
      (h : Fills om om' id qty price trade ts)
  | close {id : OrderIdRaw} (haddr : P.addresses (om.orderRef id).internalId id)
      (h : Closes om om' (om.orderRef id).internalId)
  | place {req : OrderRequest} {id : OrderIdRaw} {now : Timestamp} (hreq : P.request req)
      (hfresh : ¬ om.Works id) (h : Opens om om' id (req.stamp id now {}))

section Effect

variable {P : Policy} {om om' : OrderManager} {id : OrderIdRaw}

theorem Turn.effect (hturn : Turn P om om') (hwf : om.WF) (h : Stamped om) : Effect P om om' := by
  cases hturn with
  | quiet d => exact .idle (.of_pool rfl rfl rfl)
  | forgive id => exact .idle (.of_pool rfl rfl rfl)
  | write hlive hf => exact .idle ((Change.touch hlive hf.touch).idle hwf h)
  | fill hmoves haddr hok =>
    obtain ⟨hcur, hopen, -⟩ := validate_fill_ok_iff.1 hok
    exact .fill haddr (h.works ⟨hcur, hopen⟩) (h.orderRef_internalId ⟨hcur, hopen⟩)
      (fills_fill hwf h hok)
  | @close om' id f hmoves haddr hlive hf hwrite =>
    have hkeeps := modifyOrder_keeps om id hf.closing
    refine .close haddr (closes_close hwf h hlive hf.closing hwrite ?_ rfl ?_)
    all_goals rw [hwrite]
    · exact hkeeps.instrument.symm
    · exact hkeeps.side.symm
  | @place om₁ req venue now id hreq hres =>
    obtain ⟨hopens, hlive, hfresh, -⟩ := reserve_opens hwf hres
    have hbook := Change.reserve (P := {}) trivial hres
    have htouch : Change still om₁ (om₁.modifyOrder id (Order.markSent now)) :=
      .touch hlive (Order.markSent_touch now)
    exact .place hreq hfresh
      (hopens.idle (htouch.idle (hbook.wf hwf) (stamped_step hwf h hbook)))
  | unwind hmoves hreq hres hwrite => exact .idle (unwind_idle hwf h hres hwrite)

end Effect

/-! ### Marks -/

/-- The scratch fields of an order. -/
def fields : Observation (ScratchOffset → ℤ) where
  see := fun o _ => o.intData
  keeps := fun _ h => h.intData

/-- The scratch fields of the working order of an id. -/
def OrderManager.marks (om : OrderManager) (id : OrderIdRaw) : Option (ScratchOffset → ℤ) :=
  om.view fields id

/-- The scratch fields of a new order, which one pair of a field and an index marks. -/
def scratch (tag : ScratchOffset × ℤ) : ScratchOffset → ℤ :=
  Function.update (fun _ => 0) tag.1 tag.2

/-- The pair that a request marks its order with. -/
def OrderRequest.tag (req : OrderRequest) : ScratchOffset × ℤ := (req.workerOffset, req.workerIndex)

section Marks

variable {P : Policy} {om om' : OrderManager} {id : OrderIdRaw} {f : ScratchOffset → ℤ}

theorem marks_of_works (h : om.Works id) : om.marks id = some (om.orderRef id).intData :=
  view_of_works fields h

theorem marks_of_not_works (h : ¬ om.Works id) : om.marks id = none := view_of_not_works fields h

theorem works_iff_marks : om.Works id ↔ ∃ f, om.marks id = some f := by
  constructor
  · intro h
    exact ⟨_, marks_of_works h⟩
  · rintro ⟨f, hf⟩
    by_contra hnot
    rw [marks_of_not_works hnot] at hf
    cases hf

/-- What works with other scratch fields than before was submitted with them. -/
theorem Effect.marks_new (h : Effect P om om') (hf : om'.marks id = some f) :
    om.marks id = some f ∨ ∃ req, P.request req ∧ f = scratch req.tag := by
  cases h with
  | idle h =>
    rw [marks, h.view] at hf
    exact Or.inl hf
  | @fill k qty price trade ts haddr hworks href h =>
    rw [marks, h.view, Function.update_apply] at hf
    split_ifs at hf with hid
    · cases hf
      rw [hid, marks_of_works hworks, href]
      exact Or.inl rfl
    · exact Or.inl hf
  | close haddr h =>
    rw [marks, h.view, Function.update_apply] at hf
    split_ifs at hf
    exact Or.inl hf
  | place hreq hfresh h =>
    rw [marks, h.view, Function.update_apply] at hf
    split_ifs at hf
    · cases hf
      exact Or.inr ⟨_, hreq, rfl⟩
    · exact Or.inl hf

/-- Where no order is reached, the working orders keep their scratch fields. -/
theorem Effect.marks_kept (h : Effect P om om') (hP : ∀ i j, ¬ P.addresses i j)
    (hf : om.marks id = some f) : om'.marks id = some f := by
  cases h with
  | idle h =>
    rw [marks, h.view]
    exact hf
  | fill haddr => exact absurd haddr (hP _ _)
  | close haddr => exact absurd haddr (hP _ _)
  | @place req k now hreq hfresh h =>
    -- a new order takes an id under which none works
    have hne : id ≠ k := by
      rintro rfl
      rw [marks_of_not_works hfresh] at hf
      cases hf
    rw [marks, h.view, Function.update_of_ne hne]
    exact hf

/-- **Turns** leave the marks alone, except for what they submit, fill and close. -/
theorem Turns.marks_new (hturns : Turns P om om') (hreg : om.Regular)
    (hf : om'.marks id = some f) :
    om.marks id = some f ∨ ∃ req, P.request req ∧ f = scratch req.tag := by
  induction hturns with
  | refl => exact Or.inl hf
  | tail hturns hturn ih =>
    have hreg' := hreg.chain (Turns.chain hturns hreg.wf)
    rcases (hturn.effect hreg'.wf hreg'.stamped).marks_new hf with hold | hnew
    · exact ih hold
    · exact Or.inr hnew

theorem Turns.marks_kept (hturns : Turns P om om') (hreg : om.Regular)
    (hP : ∀ i j, ¬ P.addresses i j) (hf : om.marks id = some f) : om'.marks id = some f := by
  induction hturns with
  | refl => exact hf
  | tail hturns hturn ih =>
    have hreg' := hreg.chain (Turns.chain hturns hreg.wf)
    exact (hturn.effect hreg'.wf hreg'.stamped).marks_kept hP ih

end Marks

/-! ### Which orders work -/

section Works

variable {P : Policy} {om om' : OrderManager} {id k : OrderIdRaw}

theorem Idle.works_iff (h : Idle om om') : om'.Works k ↔ om.Works k := by
  rw [works_iff_marks, works_iff_marks, marks, h.view, marks]

theorem Closes.works_iff (h : Closes om om' id) : om'.Works k ↔ om.Works k ∧ k ≠ id := by
  rw [works_iff_marks, works_iff_marks, marks, h.view, Function.update_apply]
  by_cases hk : k = id
  · simp [hk]
  · simp [hk, marks]

/-- A fill leaves an order working, unless it was the last one. -/
theorem Fills.works_iff {qty : Quantity} {price : Price} {trade : TradeId} {ts : Timestamp}
    (h : Fills om om' id qty price trade ts) (hown : om.Works (om.orderRef id).internalId) :
    om'.Works k ↔ om.Works k ∧ (k = (om.orderRef id).internalId →
      qty ≠ (om.orderRef id).remaining) := by
  rw [works_iff_marks, marks, h.view, Function.update_apply]
  by_cases hk : k = (om.orderRef id).internalId
  · rw [if_pos hk, and_iff_right (hk ▸ hown), forall_prop_of_true hk]
    by_cases hqty : qty = (om.orderRef id).remaining
    · simp [hqty]
    · simp [hqty]
  · rw [if_neg hk, and_iff_left fun heq => absurd heq hk, works_iff_marks, marks]

/-- Where no order is reached, the working orders go on working. -/
theorem Turns.works_kept (hturns : Turns P om om') (hreg : om.Regular)
    (hP : ∀ i j, ¬ P.addresses i j) (h : om.Works k) : om'.Works k := by
  obtain ⟨f, hf⟩ := works_iff_marks.1 h
  exact works_iff_marks.2 ⟨f, hturns.marks_kept hreg hP hf⟩

end Works

/-! ### What the orders fill -/

/-- The operation is no fill, or one that is refused. -/
def NoFill (om : OrderManager) (op : Op) : Prop :=
  ∀ id qty price trade ts, op = .fill id qty price trade ts →
    om.validate id ⟨.Fill, trade, qty, price⟩ ≠ .Ok

theorem noFill_or (om : OrderManager) (op : Op) : NoFill om op ∨
    ∃ id qty price trade ts, op = .fill id qty price trade ts ∧
      om.validate id ⟨.Fill, trade, qty, price⟩ = .Ok := by
  by_cases h : NoFill om op
  · exact Or.inl h
  · unfold NoFill at h
    push Not at h
    exact Or.inr h

section Executed

variable {W : Type} {E : Env W} {s : State W} {P : Policy} {om om' : OrderManager}
  {offset : ScratchOffset} {index : ℤ}

/-- Where no order is reached, nothing is filled. -/
theorem Effect.executed_kept (h : Effect P om om') (hP : ∀ i j, ¬ P.addresses i j) :
    om'.executed offset index = om.executed offset index := by
  cases h with
  | idle h => exact h.executed offset index
  | fill haddr => exact absurd haddr (hP _ _)
  | close haddr => exact absurd haddr (hP _ _)
  | place hreq hfresh h => exact h.executed offset index

theorem Turns.executed_kept (hturns : Turns P om om') (hreg : om.Regular)
    (hP : ∀ i j, ¬ P.addresses i j) : om'.executed offset index = om.executed offset index := by
  induction hturns with
  | refl => rfl
  | tail hturns hturn ih =>
    have hreg' := hreg.chain (Turns.chain hturns hreg.wf)
    exact ((hturn.effect hreg'.wf hreg'.stamped).executed_kept hP).trans ih

/-- Submitting fills nothing. -/
theorem submit_executed (hreg : s.om.Regular) (req : OrderRequest) :
    (s.submit E req).2.om.executed offset index = s.om.executed offset index := by
  have hturns : Turns { addresses := fun _ _ => False } s.om (s.submit E req).2.om :=
    submit_turns trivial trivial
  exact hturns.executed_kept hreg fun _ _ => id

/-- An accepted fill counts for the pairs that the order carries. -/
theorem onFill_executed (hreg : s.om.Regular) {id : OrderIdRaw} {qty : Quantity} {price : Price}
    {trade : TradeId} (ts : Timestamp) (hok : s.om.validate id ⟨.Fill, trade, qty, price⟩ = .Ok) :
    (s.onFill E id qty price trade ts).om.executed offset index = s.om.executed offset index +
      if (s.om.orderRef id).retrieveIntData offset = index then qty else 0 := by
  rcases onFill_cases (E := E) hreg.wf hreg.stamped id qty price trade ts with ⟨-, h⟩ | ⟨hnot, -⟩
  · exact h.executed offset index
  · exact absurd hok hnot

/-- **Every other operation** fills nothing. -/
theorem step_executed (hreg : s.om.Regular) {op : Op} (hno : NoFill s.om op) :
    (s.step E op).om.executed offset index = s.om.executed offset index := by
  have hwf := hreg.wf
  have hstamped := hreg.stamped
  cases op with
  | submit req => exact submit_executed hreg req
  | confirm id exchId ts => exact (onConfirm_idle hwf hstamped exchId).executed offset index
  | fill id qty price trade ts =>
    rcases onFill_cases (E := E) hwf hstamped id qty price trade ts with ⟨hok, -⟩ | ⟨-, hidle⟩
    · exact absurd hok (hno id qty price trade ts rfl)
    · exact hidle.executed offset index
  | reject id reason ts =>
    by_cases hreason : reason = .CancelRejected
    · subst hreason
      exact (onCancelReject_idle hwf hstamped).executed offset index
    · rcases onReject_cases (E := E) hwf hstamped id hreason ts with ⟨-, hcloses⟩ | ⟨-, hidle⟩
      · exact hcloses.executed offset index
      · exact hidle.executed offset index
  | cancelAck id ts =>
    have hkind : EventKind.CancelAck ≠ .Fill := by decide
    rcases finishCancel_cases (E := E) hwf hstamped id hkind .Cancelled false ts with
      ⟨-, hcloses⟩ | ⟨-, hidle⟩
    · exact hcloses.executed offset index
    · exact hidle.executed offset index
  | unsolicitedCancel id ts =>
    have hkind : EventKind.UnsolicitedCancel ≠ .Fill := by decide
    rcases finishCancel_cases (E := E) hwf hstamped id hkind .UnsolicitedCancel true ts with
      ⟨-, hcloses⟩ | ⟨-, hidle⟩
    · exact hcloses.executed offset index
    · exact hidle.executed offset index
  | _ => exact (step_idle hwf hstamped rfl (fun _ heq => by cases heq)).executed offset index

end Executed

end Oms
