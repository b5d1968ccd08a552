import Oms.ExecutionAlgo.ChildBook

/-!
# The children of an algo, as the algo has them

* `AlgoBase.rest`: what the algo takes to remain of a child; `inflight_addChild`, `inflight_onFill`,
  `inflight_dropChild`: how the open quantity moves;
* `Splits`: the manager's book of the working children, split between two parts;
* `sendChild_cases`: sending a child adds it on both sides, or on neither.
-/

namespace Oms

open OrderManager

/-! ### Bookkeeping -/

section Bookkeeping

variable {W : Type} {a : AlgoBase W} {id : OrderIdRaw} {qty : Quantity} {o : Order}

/-- What remains of a child, as the algo has it. -/
def AlgoBase.rest (a : AlgoBase W) (id : OrderIdRaw) : Option Quantity := a.children.lookup id

theorem mem_children_iff : id ∈ a.children ↔ a.rest id ≠ none := by
  rw [AlgoBase.rest, Ne, Finmap.lookup_eq_none, not_not]

theorem rest_addChild : (a.addChild id qty).rest = Function.update a.rest id (some qty) :=
  Finmap.lookup_insert_update a.children id qty

theorem rest_dropChild : (a.dropChild id).rest = Function.update a.rest id none :=
  Finmap.lookup_erase_update a.children id

theorem rest_onFill (hchild : a.rest o.internalId ≠ none)
    (hstatus : o.status = .Filled ↔ o.remaining = 0) (price : Price) :
    (a.onFill o qty price).rest = Function.update a.rest o.internalId
      (if o.remaining = 0 then none else some o.remaining) := by
  have hmem := mem_children_iff.2 hchild
  unfold AlgoBase.rest AlgoBase.onFill
  dsimp only
  rw [if_pos hmem]
  by_cases hrem : o.remaining = 0
  · rw [if_pos (hstatus.2 hrem), if_pos hrem]
    exact Finmap.lookup_erase_update a.children _
  · rw [if_neg (mt hstatus.1 hrem), if_neg hrem]
    exact Finmap.lookup_insert_update a.children _ _

/-- A fill of an order that is no child leaves the children alone. -/
theorem rest_onFill_other (hother : a.rest o.internalId = none) (price : Price) :
    (a.onFill o qty price).rest = a.rest := by
  have hmem : o.internalId ∉ a.children := fun h => mem_children_iff.1 h hother
  unfold AlgoBase.rest AlgoBase.onFill
  dsimp only
  rw [if_neg hmem]

theorem term_children : a.children.term (fun _ rem => rem) id = (a.rest id).getD 0 := by
  unfold Finmap.term AlgoBase.rest
  cases a.children.lookup id <;> rfl

theorem inflight_addChild (hfresh : a.rest id = none) :
    (a.addChild id qty).inflight = a.inflight + qty := by
  show (a.children.insert id qty).sumOver _ = _
  rw [Finmap.sumOver_insert, term_children, hfresh, Option.getD_none, sub_zero]
  rfl

theorem inflight_dropChild : (a.dropChild id).inflight = a.inflight - (a.rest id).getD 0 := by
  show (a.children.erase id).sumOver _ = _
  rw [Finmap.sumOver_erase, term_children]
  rfl

/-- A fill moves its quantity from in flight to filled. -/
theorem inflight_onFill (hchild : a.rest o.internalId = some (o.remaining + qty))
    (hstatus : o.status = .Filled ↔ o.remaining = 0) (price : Price) :
    (a.onFill o qty price).inflight = a.inflight - qty := by
  have hmem : o.internalId ∈ a.children := mem_children_iff.2 (by rw [hchild]; nofun)
  have hterm : a.children.term (fun _ rem => rem) o.internalId = o.remaining + qty := by
    rw [term_children, hchild, Option.getD_some]
  unfold AlgoBase.onFill AlgoBase.inflight
  dsimp only
  rw [if_pos hmem]
  by_cases hrem : o.remaining = 0
  · rw [if_pos (hstatus.2 hrem), Finmap.sumOver_erase, hterm, hrem, zero_add]
  · rw [if_neg (mt hstatus.1 hrem), Finmap.sumOver_insert, hterm]
    ring

theorem inflight_onFill_other (hother : a.rest o.internalId = none) (price : Price) :
    (a.onFill o qty price).inflight = a.inflight := by
  have hmem : o.internalId ∉ a.children := fun h => mem_children_iff.1 h hother
  unfold AlgoBase.onFill AlgoBase.inflight
  dsimp only
  rw [if_neg hmem]

/-- Something remains of each child. -/
def AlgoBase.Positive (a : AlgoBase W) : Prop := ∀ id q, a.rest id = some q → 0 < q

theorem AlgoBase.Positive.inflight_nonneg (h : a.Positive) : 0 ≤ a.inflight :=
  Finmap.sumOver_nonneg _ _ fun id q hq => (h id q hq).le

/-- One child is written. -/
theorem AlgoBase.Positive.update {a' : AlgoBase W} {v : Option Quantity} (h : a.Positive)
    (hrest : a'.rest = Function.update a.rest id v) (hv : ∀ q, v = some q → 0 < q) :
    a'.Positive := by
  intro k q hq
  rw [hrest] at hq
  by_cases hk : k = id
  · subst hk
    rw [Function.update_self] at hq
    exact hv q hq
  · rw [Function.update_of_ne hk] at hq
    exact h k q hq

end Bookkeeping

/-! ### A split book -/

/-- The working children are those of one part and those of another, none in both. -/
structure Splits (c : ChildBook) (outer inner : OrderIdRaw → Option Quantity) : Prop where
  cover : ∀ id, c.working id = (outer id).or (inner id)
  apart : ∀ id, outer id = none ∨ inner id = none

section Splits

variable {c : ChildBook} {outer inner : OrderIdRaw → Option Quantity} {id : OrderIdRaw}
  {v : Option Quantity} {qty : Quantity}

theorem Splits.symm (h : Splits c outer inner) : Splits c inner outer where
  cover := fun id => by
    rcases h.apart id with hout | hin
    · rw [h.cover, hout, Option.none_or, Option.or_none]
    · rw [h.cover, hin, Option.none_or, Option.or_none]
  apart := fun id => (h.apart id).symm

/-- A child outside one part is in the other, if anywhere. -/
theorem Splits.working_inner (h : Splits c outer inner) (hout : outer id = none) :
    c.working id = inner id := by
  rw [h.cover, hout, Option.none_or]

/-- An id that does not work is in neither part. -/
theorem Splits.of_none (h : Splits c outer inner) (hnone : c.working id = none) :
    outer id = none ∧ inner id = none := by
  rw [h.cover, Option.or_eq_none_iff] at hnone
  exact hnone

theorem Splits.set_inner (h : Splits c outer inner) (hout : outer id = none) :
    Splits (c.set id v qty) outer (Function.update inner id v) := by
  constructor
  · intro k
    unfold ChildBook.set
    dsimp only
    by_cases hk : k = id
    · subst hk
      rw [Function.update_self, Function.update_self, hout, Option.none_or]
    · rw [Function.update_of_ne hk, Function.update_of_ne hk]
      exact h.cover k
  · intro k
    by_cases hk : k = id
    · subst hk
      exact Or.inl hout
    · rw [Function.update_of_ne hk]
      exact h.apart k

theorem Splits.set_outer (h : Splits c outer inner) (hin : inner id = none) :
    Splits (c.set id v qty) (Function.update outer id v) inner := (h.symm.set_inner hin).symm

end Splits

/-! ### Calls of the manager -/

section Calls

variable {W : Type} {E : Env W} {a : AlgoBase W} {s : State W} {qty : Quantity} {price : Price}
  {type : OrderType}

theorem sendChild_chain (hwf : s.om.WF) :
    Chain {} s.om (a.sendChild E qty price type s).2.2.om := by
  have hsubmit : Chain {} s.om (s.submit E (a.childRequest qty price type)).2.om :=
    submit_chain trivial hwf trivial
  unfold AlgoBase.sendChild
  split_ifs
  · exact .refl
  dsimp only
  split_ifs
  · exact hsubmit
  · exact hsubmit

/-- Sending fills nothing. -/
theorem sendChild_executed (hreg : s.om.Regular) (offset : ScratchOffset) (index : ℤ) :
    (a.sendChild E qty price type s).2.2.om.executed offset index =
      s.om.executed offset index := by
  have hsubmit : (s.submit E (a.childRequest qty price type)).2.om.executed offset index =
      s.om.executed offset index := submit_executed hreg _
  unfold AlgoBase.sendChild
  split_ifs
  · rfl
  dsimp only
  split_ifs
  · exact hsubmit
  · exact hsubmit

theorem sendChild_filled : (a.sendChild E qty price type s).2.1.filled = a.filled := by
  unfold AlgoBase.sendChild
  dsimp only
  split_ifs <;> rfl

/-- Without an id the algo books nothing. -/
theorem sendChild_of_zero (hid : (a.sendChild E qty price type s).1 = 0) :
    (a.sendChild E qty price type s).2.1 = a := by
  unfold AlgoBase.sendChild at hid ⊢
  dsimp only at hid ⊢
  split_ifs at hid ⊢ with hqty hne
  · rfl
  · exact absurd hid hne
  · rfl

/-- A child request carries the tag of the algo. -/
theorem childRequest_tag (id : OrderIdRaw) (now : Timestamp) :
    ((a.childRequest qty price type).stamp id now {}).retrieveIntData a.config.workerOffset =
      a.config.workerIndex := Function.update_self ..

/-- The manager opens an order under a new id, and the algo books it unless the id is `0`; or the
manager opens no order. -/
theorem sendChild_opens (a : AlgoBase W) (qty : Quantity) (price : Price) (type : OrderType)
    (hreg : s.om.Regular) :
    let r := a.sendChild E qty price type s
    let c := s.om.childBook a.config.workerOffset a.config.workerIndex
    let c' := r.2.2.om.childBook a.config.workerOffset a.config.workerIndex
    r.1 = 0 ∧ r.2.1 = a ∧ c' = c ∨
      (Unwrapped s.om → r.1 ≠ 0) ∧ 0 < qty ∧
        (r.1 ≠ 0 → r.2.1 = a.addChild r.1 qty) ∧ c.working r.1 = none ∧
        c' = c.set r.1 (some qty) 0 := by
  dsimp only
  unfold AlgoBase.sendChild
  split_ifs with hqty
  · exact Or.inl ⟨rfl, rfl, rfl⟩
  dsimp only
  rcases submit_cases (Env.canceller_true E) s (a.childRequest qty price type) with
    ⟨hid, -, hchain⟩ | ⟨venue, ex, w, hplacing⟩
  · rw [hid, if_neg (not_not.2 rfl)]
    exact Or.inl ⟨rfl, rfl, childBook_idle ((hchain still).idle hreg.wf hreg.stamped)⟩
  · rw [hplacing.place]
    obtain ⟨id, pool, hacq, hid, hcases⟩ := place_cases (s := { s with world := w }) (E := E)
      hreg.wf hreg.stamped (a.childRequest qty price type) venue ex hplacing.free
    rcases hcases with ⟨-, hret, hopens, -⟩ | ⟨-, hret, hidle, -⟩
    · have hfresh : ¬ s.om.Works id := not_works_of_acquire hreg.wf hacq rfl
      have hbook := childBook_opens hopens (childRequest_tag id _)
      have hrem : ((a.childRequest qty price type).stamp id (E.clock w) {}).remaining = qty :=
        sub_zero qty
      have hnone : (s.om.childBook a.config.workerOffset a.config.workerIndex).working id =
          none := by
        show (s.om.view _ id).bind _ = none
        rw [view_of_not_works _ hfresh]
        rfl
      rw [hret, apply_ite Prod.fst, ite_self, apply_ite Prod.snd, apply_ite Prod.snd, ite_self]
      refine Or.inr ⟨fun hunwrapped => id_ne_zero hreg.wf hreg.begun hunwrapped hacq hid,
        not_le.1 hqty, ?_, ?_, ?_⟩
      · intro hne
        rw [if_pos hne]
      · exact hnone
      · rw [hrem] at hbook
        exact hbook
    · rw [hret, if_neg (not_not.2 rfl)]
      exact Or.inl ⟨rfl, rfl, childBook_idle hidle⟩

/-- A child is added on both sides under a new id, or on neither. -/
theorem sendChild_cases (a : AlgoBase W) (qty : Quantity) (price : Price) (type : OrderType)
    (hreg : s.om.Regular) (hunwrapped : Unwrapped s.om) :
    let r := a.sendChild E qty price type s
    let c := s.om.childBook a.config.workerOffset a.config.workerIndex
    let c' := r.2.2.om.childBook a.config.workerOffset a.config.workerIndex
    r.1 = 0 ∧ r.2.1 = a ∧ c' = c ∨
      r.1 ≠ 0 ∧ 0 < qty ∧ r.2.1 = a.addChild r.1 qty ∧ c.working r.1 = none ∧
        c' = c.set r.1 (some qty) 0 := by
  rcases sendChild_opens (E := E) a qty price type hreg with h | ⟨hne, hqty, ha, hfresh, hbook⟩
  · exact Or.inl h
  · exact Or.inr ⟨hne hunwrapped, hqty, ha (hne hunwrapped), hfresh, hbook⟩

/-- A child whose id is not `0` was sent. -/
theorem sendChild_sent (a : AlgoBase W) (qty : Quantity) (price : Price) (type : OrderType)
    (hreg : s.om.Regular) (hid : (a.sendChild E qty price type s).1 ≠ 0) :
    let r := a.sendChild E qty price type s
    let c := s.om.childBook a.config.workerOffset a.config.workerIndex
    let c' := r.2.2.om.childBook a.config.workerOffset a.config.workerIndex
    0 < qty ∧ r.2.1 = a.addChild r.1 qty ∧ c.working r.1 = none ∧
      c' = c.set r.1 (some qty) 0 := by
  rcases sendChild_opens (E := E) a qty price type hreg with ⟨hzero, -⟩ | ⟨-, hqty, ha, hrest⟩
  · exact absurd hzero hid
  · exact ⟨hqty, ha hid, hrest⟩

theorem cancelChildren_chain (P : Policy) : Chain P s.om (a.cancel E s).om :=
  (foldl_turns (fun s id => cancel_turns id s) _ s).chain_of_still

end Calls

end Oms
