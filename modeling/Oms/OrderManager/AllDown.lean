import Oms.OrderManager.Chronicle
import Oms.OrderManager.Recorded
import Oms.OrderManager.Slots

/-!
# The all-down sweep

`OrderManager.cpp`, `submit` and `cancel_working_orders`: a submit that finds no venue asks for the
cancel of every working order, where the transport still permits, and so does the next one.

* `Blackout`: the worlds in which the router selects no venue, whatever the sweep does in them;
* `Asked`: what one sweep does about one order; `sweep_asked`, `submit_blacked`: it asks each
  working order once;
* `AskedTimes`: what a series of submits does about one order; `submits_blacked`;
* `AskedTimes.once`: a cancel that is taken is the last one.
-/

namespace Oms

open OrderManager

section Asked

variable {W : Type} {E : Env W} {B : Set W} {o o' : Order} {answers : List SendResult}

/-- What the sweep hears when it asks for the cancel of an order: nothing, where there is no client
or it is not connected. -/
def Env.answer (E : Env W) (o : Order) (w : W) : Option SendResult :=
  match E.registry.get (decodeOrderId o.internalId).venue with
  | none => none
  | some ex =>
    if ex.isConnected w then some (ex.cancelOrder o.internalId o.exchangeId w).1 else none

/-- The order after the answer. -/
def Order.heard (o : Order) (answer : Option SendResult) : Order :=
  if answer = some .Ok then o.markCancelSent else o

/-- One sweep: the order it leaves, and the answers it hears about the order. -/
inductive Asked (E : Env W) (B : Set W) (o : Order) : Order → List SendResult → Prop
  | skipped (h : ¬ o.Open ∨ o.pendingCancel = true) : Asked E B o o []
  | asked (hopen : o.Open) (hfree : o.pendingCancel = false) {w : W} (hw : w ∈ B) :
      Asked E B o (o.heard (E.answer o w)) (E.answer o w).toList

/-- A series of sweeps. -/
inductive AskedTimes (E : Env W) (B : Set W) : ℕ → Order → Order → List SendResult → Prop
  | never (o : Order) : AskedTimes E B 0 o o []
  | more {n : ℕ} {o o₁ o' : Order} {answers answers' : List SendResult} (h : Asked E B o o₁ answers)
      (h' : AskedTimes E B n o₁ o' answers') : AskedTimes E B (n + 1) o o' (answers ++ answers')

theorem heard_refused {r : SendResult} (o : Order) (h : r ≠ .Ok) : o.heard (some r) = o :=
  if_neg fun heq => h (Option.some.inj heq)

/-- A working order without a cancel in flight is asked about. -/
theorem Asked.of_open (h : Asked E B o o' answers) (hopen : o.Open)
    (hfree : o.pendingCancel = false) :
    ∃ w ∈ B, o' = o.heard (E.answer o w) ∧ answers = (E.answer o w).toList := by
  cases h with
  | skipped hskip =>
    rcases hskip with hnot | hpending
    · exact absurd hopen hnot
    · rw [hfree] at hpending
      cases hpending
  | @asked _ _ w hw => exact ⟨w, hw, rfl, rfl⟩

theorem AskedTimes.internalId {n : ℕ} (h : AskedTimes E B n o o' answers) :
    o'.internalId = o.internalId := by
  induction h with
  | never o => rfl
  | more h _ ih =>
    rw [ih]
    cases h with
    | skipped => rfl
    | asked =>
      unfold Order.heard
      split_ifs <;> rfl

theorem AskedTimes.append {m n : ℕ} {o₁ : Order} {answers' : List SendResult}
    (h : AskedTimes E B m o o₁ answers) (h' : AskedTimes E B n o₁ o' answers') :
    AskedTimes E B (m + n) o o' (answers ++ answers') := by
  induction h with
  | never o => rwa [Nat.zero_add]
  | more h _ ih =>
    rw [Nat.succ_add, List.append_assoc]
    exact .more h (ih h')

/-- An order that no sweep asks about stays as it is. -/
theorem AskedTimes.skipped {n : ℕ} (h : AskedTimes E B n o o' answers)
    (hskip : ¬ o.Open ∨ o.pendingCancel = true) : answers = [] ∧ o' = o := by
  induction h with
  | never o => exact ⟨rfl, rfl⟩
  | more h _ ih =>
    cases h with
    | skipped => exact ih hskip
    | asked hopen hfree =>
      rcases hskip with hnot | hpending
      · exact absurd hopen hnot
      · rw [hfree] at hpending
        cases hpending

/-- **A cancel that is taken is the last one**, and an order of which none is taken stays as it
is. -/
theorem AskedTimes.once {n : ℕ} (h : AskedTimes E B n o o' answers) :
    (∃ refusals, SendResult.Ok ∉ refusals ∧ answers = refusals ++ [.Ok] ∧ o' = o.markCancelSent) ∨
      SendResult.Ok ∉ answers ∧ o' = o := by
  induction h with
  | never o => exact Or.inr ⟨List.not_mem_nil, rfl⟩
  | @more n o o₁ o' answers answers' h h' ih =>
    cases h with
    | skipped => exact ih
    | @asked hopen hfree w hw =>
      by_cases hok : E.answer o w = some .Ok
      · rw [hok] at h' ⊢
        obtain ⟨rfl, rfl⟩ := h'.skipped (Or.inr rfl)
        exact Or.inl ⟨[], List.not_mem_nil, rfl, rfl⟩
      · have hnot : SendResult.Ok ∉ (E.answer o w).toList := by
          rwa [Option.mem_toList]
        rw [Order.heard, if_neg hok] at ih
        rcases ih with ⟨refusals, hrefusals, rfl, rfl⟩ | ⟨hanswers, rfl⟩
        · refine Or.inl ⟨(E.answer o w).toList ++ refusals, ?_, (List.append_assoc _ _ _).symm, rfl⟩
          exact fun h => (List.mem_append.1 h).elim hnot hrefusals
        · exact Or.inr ⟨fun h => (List.mem_append.1 h).elim hnot hanswers, rfl⟩

/-- A venue that takes cancels gets one. -/
theorem AskedTimes.taken {n : ℕ} (h : AskedTimes E B (n + 1) o o' answers) (hopen : o.Open)
    (hfree : o.pendingCancel = false) (htakes : ∀ w ∈ B, E.answer o w = some .Ok) :
    answers = [.Ok] ∧ o' = o.markCancelSent := by
  cases h with
  | more h h' =>
    obtain ⟨w, hw, rfl, rfl⟩ := h.of_open hopen hfree
    rw [htakes w hw] at h' ⊢
    obtain ⟨rfl, rfl⟩ := h'.skipped (Or.inr rfl)
    exact ⟨rfl, rfl⟩

/-- A venue that refuses cancels gets one at every sweep. -/
theorem AskedTimes.refused {n : ℕ} (h : AskedTimes E B n o o' answers) (hopen : o.Open)
    (hfree : o.pendingCancel = false)
    (hrefuses : ∀ w ∈ B, ∃ r, r ≠ SendResult.Ok ∧ E.answer o w = some r) :
    answers.length = n ∧ SendResult.Ok ∉ answers ∧ o' = o := by
  induction h with
  | never o => exact ⟨rfl, List.not_mem_nil, rfl⟩
  | @more n o o₁ o' answers answers' h h' ih =>
    obtain ⟨w, hw, rfl, rfl⟩ := h.of_open hopen hfree
    obtain ⟨r, hr, hanswer⟩ := hrefuses w hw
    rw [hanswer, heard_refused o hr] at ih
    obtain ⟨hlength, hnot, rfl⟩ := ih hopen hfree hrefuses
    rw [hanswer]
    refine ⟨?_, ?_, rfl⟩
    · rw [List.length_append, hlength]
      exact Nat.add_comm 1 n
    · intro hmem
      rcases List.mem_append.1 hmem with hhead | hrest
      · exact hr (List.mem_singleton.1 hhead).symm
      · exact hnot hrest

/-- A venue that cannot be reached gets none. -/
theorem AskedTimes.unreached {n : ℕ} (h : AskedTimes E B n o o' answers)
    (hnone : ∀ w ∈ B, E.answer o w = none) : answers = [] ∧ o' = o := by
  induction h with
  | never o => exact ⟨rfl, rfl⟩
  | more h h' ih =>
    cases h with
    | skipped => exact ih hnone
    | asked _ _ hw =>
      rw [hnone _ hw] at ih ⊢
      exact ih hnone

end Asked

/-! ### One sweep -/

section Sweep

variable {W : Type} {E : Env W} {B : Set W} {s s' s'' : State (W × List VenueCall)}
  {ids : List OrderIdRaw} {k : OrderIdRaw}

/-- The worlds in which the router selects no venue for the requests, whatever a sweep does in
them. -/
structure Blackout (E : Env W) (B : Set W) (reqs : List OrderRequest) : Prop where
  select : ∀ req ∈ reqs, ∀ w ∈ B, ∃ w' ∈ B,
    E.router.select req.instrument req.side req.size w = (none, w')
  log : ∀ w ∈ B, ∀ level line, E.log level line w ∈ B
  cancelOrder : ∀ w ∈ B, ∀ venue ex, E.registry.get venue = some ex →
    ∀ id exchId, (ex.cancelOrder id exchId w).2 ∈ B

/-- What a sweep over ids does to the orders, and what it asks the venues. -/
structure Swept (E : Env W) (B : Set W) (ids : List OrderIdRaw)
    (s s' : State (W × List VenueCall)) : Prop where
  world : s'.world.1 ∈ B
  frame : s'.om = { s.om with pool := s'.om.pool }
  allocated : s'.om.pool.allocated = s.om.pool.allocated
  works : ∀ k, s'.om.Works k ↔ s.om.Works k
  kept : ∀ slot, (∀ k ∈ ids, slotOf k ≠ slot) → s'.om.pool.slots slot = s.om.pool.slots slot
  calls : ∃ new, s'.world.2 = s.world.2 ++ new ∧ (∀ c ∈ new, ∃ k ∈ ids, ∃ r, c = .cancel k r) ∧
    ∀ k ∈ ids, Asked E B (s.om.orderRef k) (s'.om.orderRef k) (cancelsOf k new)

/-- What the sweep does about a working order. -/
theorem cancelWorkingOrder_noted (hk : s.om.Works k) :
    ((s.om.orderRef k).pendingCancel = true ∨ E.answer (s.om.orderRef k) s.world.1 = none) ∧
        s.cancelWorkingOrder E.noted k = s ∨
      (s.om.orderRef k).pendingCancel = false ∧ ∃ venue ex, E.registry.get venue = some ex ∧
        ∃ r, E.answer (s.om.orderRef k) s.world.1 = some r ∧
          s.cancelWorkingOrder E.noted k =
            { om := if r = .Ok then s.om.modifyOrder k Order.markCancelSent else s.om
              world := ((ex.cancelOrder k (s.om.orderRef k).exchangeId s.world.1).2,
                s.world.2 ++ [.cancel k r]) } := by
  have hcur : (!s.om.pool.isCurrent k) = false := congrArg not hk.live.current
  have hterm : isTerminal (s.om.orderRef k).status = false := hk.live.isOpen
  unfold State.cancelWorkingOrder Env.answer
  simp only [hcur, hterm, hk.own, Bool.false_or, Bool.false_eq_true, if_false]
  cases hpending : (s.om.orderRef k).pendingCancel with
  | true => exact Or.inl ⟨Or.inl rfl, rfl⟩
  | false =>
    rw [get_noted]
    cases hget : E.registry.get (decodeOrderId k).venue with
    | none => exact Or.inl ⟨Or.inr rfl, rfl⟩
    | some ex =>
      by_cases hconn : ex.isConnected s.world.1 = true
      · refine Or.inr ⟨rfl, _, ex, hget, _, if_pos hconn, ?_⟩
        have hconn' : ex.noted.isConnected s.world = true := hconn
        simp only [Option.map_some, hconn', Bool.false_eq_true, if_false, if_true]
        show (if (ex.cancelOrder k _ s.world.1).1 = .Ok then _ else _) = _
        split_ifs <;> rfl
      · have hconn' : ¬ ex.noted.isConnected s.world = true := hconn
        exact Or.inl ⟨Or.inr (if_neg hconn), if_neg hconn'⟩

/-- A cancel that is sent leaves every working order working. -/
theorem works_markCancelSent {om : OrderManager} (hk : om.Works k) (id : OrderIdRaw) :
    (om.modifyOrder k Order.markCancelSent).Works id ↔ om.Works id := by
  have href : (om.modifyOrder k Order.markCancelSent).orderRef id = _ := orderRef_write rfl id
  have hcur : (om.modifyOrder k Order.markCancelSent).pool.isCurrent id = om.pool.isCurrent id :=
    OrderPool.isCurrent_modify _
  rw [works_iff, works_iff, hcur, href]
  split_ifs with hslot
  · have hsame : om.orderRef id = om.orderRef k := congrArg om.pool.slots hslot
    rw [hsame]
    exact and_congr_right fun _ => and_congr_left fun _ =>
      iff_of_true (Order.markCancelSent_open _) hk.live.isOpen
  · rfl

/-- One order is asked about. -/
theorem swept_singleton {reqs : List OrderRequest} (hB : Blackout E B reqs)
    (hk : s.om.Works k) (hw : s.world.1 ∈ B) :
    Swept E B [k] s (s.cancelWorkingOrder E.noted k) := by
  rcases cancelWorkingOrder_noted (E := E) hk with
    ⟨hskip, heq⟩ | ⟨hfree, venue, ex, hget, r, hanswer, heq⟩
  · rw [heq]
    refine ⟨hw, rfl, rfl, fun _ => Iff.rfl, fun _ _ => rfl, [], by simp, by simp, ?_⟩
    intro k' hk'
    obtain rfl := List.mem_singleton.1 hk'
    rcases hskip with hpending | hnone
    · exact .skipped (Or.inr hpending)
    · by_cases hfree : (s.om.orderRef k').pendingCancel = false
      · have hasked := Asked.asked (E := E) hk.live.isOpen hfree hw
        rwa [hnone] at hasked
      · exact .skipped (Or.inr (by simpa using hfree))
  · have hasked := Asked.asked (E := E) hk.live.isOpen hfree hw
    rw [hanswer] at hasked
    have hcalls : ∀ c ∈ [VenueCall.cancel k r], ∃ k' ∈ [k], ∃ r, c = .cancel k' r := by
      simp
    rw [heq]
    by_cases hok : r = .Ok
    · rw [if_pos hok]
      refine ⟨hB.cancelOrder _ hw _ _ hget _ _, rfl, rfl, works_markCancelSent hk, ?_, _, rfl,
        hcalls, ?_⟩
      · intro slot hslot
        exact OrderPool.modify_slots_of_ne (hslot k List.mem_cons_self).symm
      · intro k' hk'
        obtain rfl := List.mem_singleton.1 hk'
        rw [cancelsOf_self]
        have hwrite : (s.om.modifyOrder k' Order.markCancelSent).orderRef k' =
            (s.om.orderRef k').heard (some r) := by
          rw [orderRef_modifyOrder, hok]
          rfl
        rw [hwrite]
        exact hasked
    · rw [if_neg hok]
      refine ⟨hB.cancelOrder _ hw _ _ hget _ _, rfl, rfl, fun _ => Iff.rfl, fun _ _ => rfl, _, rfl,
        hcalls, ?_⟩
      intro k' hk'
      obtain rfl := List.mem_singleton.1 hk'
      rw [cancelsOf_self]
      rwa [heard_refused _ hok] at hasked

/-- The rest of the ids are those of other slots. -/
theorem Swept.cons (h : Swept E B [k] s s') (h' : Swept E B ids s' s'')
    (hfresh : ∀ k' ∈ ids, slotOf k' ≠ slotOf k) : Swept E B (k :: ids) s s'' := by
  obtain ⟨new, hnew, hcalls, hasked⟩ := h.calls
  obtain ⟨new', hnew', hcalls', hasked'⟩ := h'.calls
  refine ⟨h'.world, ?_, h'.allocated.trans h.allocated, fun k' => (h'.works k').trans (h.works k'),
    ?_, new ++ new', ?_, ?_, ?_⟩
  · rw [h'.frame, h.frame]
  · intro slot hslot
    rw [h'.kept slot fun k' hk' => hslot k' (List.mem_cons_of_mem k hk'), h.kept slot]
    intro k' hk'
    obtain rfl := List.mem_singleton.1 hk'
    exact hslot k' List.mem_cons_self
  · rw [hnew', hnew, List.append_assoc]
  · intro c hc
    rcases List.mem_append.1 hc with hc | hc
    · obtain ⟨k', hk', r, rfl⟩ := hcalls c hc
      obtain rfl := List.mem_singleton.1 hk'
      exact ⟨k', List.mem_cons_self, r, rfl⟩
    · obtain ⟨k', hk', r, rfl⟩ := hcalls' c hc
      exact ⟨k', List.mem_cons_of_mem k hk', r, rfl⟩
  · intro k' hk'
    rw [cancelsOf_append]
    rcases List.mem_cons.1 hk' with rfl | hmem
    · -- the later ids leave the order alone
      have hnone : cancelsOf k' new' = [] := cancelsOf_eq_nil fun c hc => by
        obtain ⟨j, hj, r, rfl⟩ := hcalls' c hc
        exact ⟨j, fun heq => hfresh j hj (congrArg slotOf heq), r, rfl⟩
      have href : s''.om.orderRef k' = s'.om.orderRef k' := h'.kept _ hfresh
      rw [hnone, List.append_nil, href]
      exact hasked k' List.mem_cons_self
    · have hnone : cancelsOf k' new = [] := cancelsOf_eq_nil fun c hc => by
        obtain ⟨j, hj, r, rfl⟩ := hcalls c hc
        obtain rfl := List.mem_singleton.1 hj
        exact ⟨j, fun heq => hfresh k' hmem (congrArg slotOf heq.symm), r, rfl⟩
      have href : s'.om.orderRef k' = s.om.orderRef k' := h.kept _ fun j hj => by
        obtain rfl := List.mem_singleton.1 hj
        exact (hfresh k' hmem).symm
      rw [hnone, List.nil_append, ← href]
      exact hasked' k' hmem

/-- **A sweep asks about each of its orders once.** -/
theorem sweep_asked {reqs : List OrderRequest} (hB : Blackout E B reqs) (hnodup : ids.Nodup)
    (hworks : ∀ k ∈ ids, s.om.Works k) (hw : s.world.1 ∈ B) :
    Swept E B ids s (ids.foldl (State.cancelWorkingOrder E.noted) s) := by
  induction ids generalizing s with
  | nil =>
    exact ⟨hw, rfl, rfl, fun _ => Iff.rfl, fun _ _ => rfl, [], by simp, by simp, by simp⟩
  | cons k ids ih =>
    obtain ⟨hnot, hnodup⟩ := List.nodup_cons.1 hnodup
    have hk := hworks k List.mem_cons_self
    have hhead := swept_singleton hB hk hw
    refine hhead.cons (ih hnodup (fun k' hk' => ?_) hhead.world) fun k' hk' hslot => ?_
    · exact (hhead.works k').2 (hworks k' (List.mem_cons_of_mem k hk'))
    · -- working orders in one slot are one order
      have heq := (hworks k' (List.mem_cons_of_mem k hk')).eq_of_slot hslot
      rw [hk.own] at heq
      exact hnot (heq ▸ hk')

/-- A sweep of the working orders, slot by slot. -/
theorem Swept.slots (h : Swept E B ids s s') (hstamped : Stamped s.om)
    (hids : ∀ slot, s.om.pool.Working slot → (s.om.pool.slots slot).internalId ∈ ids)
    (hworks : ∀ k ∈ ids, s.om.Works k) :
    ∃ new, s'.world.2 = s.world.2 ++ new ∧ (∀ c ∈ new, ∃ k ∈ ids, ∃ r, c = .cancel k r) ∧
      ∀ slot, s.om.pool.allocated slot = true →
        Asked E B (s.om.pool.slots slot) (s'.om.pool.slots slot)
          (cancelsOf (s.om.pool.slots slot).internalId new) := by
  obtain ⟨new, hnew, hcalls, hasked⟩ := h.calls
  refine ⟨new, hnew, hcalls, fun slot halloc => ?_⟩
  have hslot := (hstamped slot halloc).1
  by_cases hopen : (s.om.pool.slots slot).Open
  · have hself := hasked _ (hids slot ⟨halloc, hopen⟩)
    rwa [orderRef, orderRef, hslot] at hself
  · -- an order that has ended is not among those that work
    have hother : ∀ k ∈ ids, slotOf k ≠ slot := by
      rintro k hk rfl
      exact hopen (hworks k hk).live.isOpen
    have hnone : cancelsOf (s.om.pool.slots slot).internalId new = [] :=
      cancelsOf_eq_nil fun c hc => by
        obtain ⟨k, hk, r, rfl⟩ := hcalls c hc
        exact ⟨k, fun heq => hother k hk (heq ▸ hslot), r, rfl⟩
    rw [hnone, h.kept slot hother]
    exact .skipped (Or.inl hopen)

end Sweep

/-! ### Submits -/

section Submits

variable {W : Type} {E : Env W} {B : Set W}

/-- The returned ids and the state after a series of submits, each at its own world. No event
arrives in between. -/
def submits (E : Env W) (om : OrderManager) (record : List VenueCall) :
    List (W × OrderRequest) → List OrderIdRaw × OrderManager × List VenueCall
  | [] => ([], om, record)
  | (w, req) :: calls =>
    let (id, s) := State.submit E.noted req ⟨om, w, record⟩
    let (ids, om, record) := submits E s.om s.world.2 calls
    (id :: ids, om, record)

/-- What a series of submits without a venue leaves of a manager, and what it asks the venues. -/
structure Blacked (E : Env W) (B : Set W) (n : ℕ) (om om' : OrderManager)
    (record record' : List VenueCall) : Prop where
  killed : om'.killed = om.killed
  live : om'.live = om.live
  position : ∀ inst, om'.position inst = om.position inst
  pending : ∀ inst, om'.pendingQuantity inst = om.pendingQuantity inst
  allocated : om'.pool.allocated = om.pool.allocated
  works : ∀ k, om'.Works k ↔ om.Works k
  calls : ∃ new, record' = record ++ new ∧ (∀ c ∈ new, ∃ k ∈ om.live, ∃ r, c = .cancel k r) ∧
    ∀ slot, om.pool.allocated slot = true →
      AskedTimes E B n (om.pool.slots slot) (om'.pool.slots slot)
        (cancelsOf (om.pool.slots slot).internalId new)

theorem submit_of_blackout {om : OrderManager} (record : List VenueCall) {w : W}
    {req : OrderRequest} {reqs : List OrderRequest} (hB : Blackout E B reqs) (hreq : req ∈ reqs)
    (hw : w ∈ B) (halive : om.killed = false) :
    ∃ w' ∈ B, State.submit E.noted req ⟨om, w, record⟩ =
      (0, State.cancelWorkingOrders E.noted
        (State.allDown E.noted ⟨om, w, record⟩ req (w', record))) := by
  obtain ⟨w', hw', hselect⟩ := hB.select req hreq w hw
  refine ⟨w', hw', submit_of_allDown (by simp [halive]) ?_⟩
  show ((E.router.select req.instrument req.side req.size w).1,
    (E.router.select req.instrument req.side req.size w).2, record) = _
  rw [hselect]

/-- **One submit without a venue** sweeps the working orders, and returns no id. -/
theorem submit_blacked {om : OrderManager} (record : List VenueCall) {w : W} {req : OrderRequest}
    {reqs : List OrderRequest} (hB : Blackout E B reqs) (hreq : req ∈ reqs) (hw : w ∈ B)
    (hwf : om.WF) (horderly : Orderly om) (halive : om.killed = false) :
    (State.submit E.noted req ⟨om, w, record⟩).1 = 0 ∧
      (State.submit E.noted req ⟨om, w, record⟩).2.om.rebalanceIncomplete = true ∧
      Blacked E B 1 om (State.submit E.noted req ⟨om, w, record⟩).2.om record
        (State.submit E.noted req ⟨om, w, record⟩).2.world.2 := by
  obtain ⟨w', hw', hsubmit⟩ := submit_of_blackout record hB hreq hw halive
  let s : State (W × List VenueCall) := State.allDown E.noted ⟨om, w, record⟩ req (w', record)
  have hsame : ∀ k, s.om.Works k ↔ om.Works k := fun k => works_of_pool rfl
  have hlive : ∀ k, k ∈ E.noted.liveOrder s.world s.om.live ↔ om.Works k := fun k =>
    (E.noted.mem_liveOrder _ _ k).trans (horderly.tidy.live_iff k)
  have hworks : ∀ k ∈ E.noted.liveOrder s.world s.om.live, s.om.Works k := fun k hk =>
    (hsame k).2 ((hlive k).1 hk)
  have hswept : Swept E B _ s (s.cancelWorkingOrders E.noted) :=
    sweep_asked hB (E.noted.nodup_liveOrder s.world s.om.live) hworks (hB.log w' hw' _ _)
  obtain ⟨new, hnew, hcalls, hasked⟩ := hswept.slots horderly.stamped
    (fun slot hw => (hlive _).2 (horderly.stamped.works_slot hwf hw)) hworks
  rw [hsubmit]
  refine ⟨rfl, by rw [hswept.frame]; rfl, ?_⟩
  refine ⟨by rw [hswept.frame]; rfl, by rw [hswept.frame]; rfl, fun _ => by rw [hswept.frame]; rfl,
    fun _ => by rw [hswept.frame]; rfl, hswept.allocated,
    fun k => (hswept.works k).trans (hsame k), new, hnew, ?_, ?_⟩
  · intro c hc
    obtain ⟨k, hk, r, rfl⟩ := hcalls c hc
    exact ⟨k, (E.noted.mem_liveOrder _ _ k).1 hk, r, rfl⟩
  · intro slot halloc
    have htimes := AskedTimes.more (hasked slot halloc) (.never _)
    rwa [List.append_nil] at htimes

theorem Blacked.refl (om : OrderManager) (record : List VenueCall) :
    Blacked E B 0 om om record record := by
  refine ⟨rfl, rfl, fun _ => rfl, fun _ => rfl, rfl, fun _ => Iff.rfl, [], ?_, by simp, ?_⟩
  · exact (List.append_nil record).symm
  · exact fun slot _ => .never _

theorem Blacked.trans {m n : ℕ} {om om' om'' : OrderManager}
    {record record' record'' : List VenueCall} (h : Blacked E B m om om' record record')
    (h' : Blacked E B n om' om'' record' record'') :
    Blacked E B (m + n) om om'' record record'' := by
  obtain ⟨new, hnew, hcalls, htimes⟩ := h.calls
  obtain ⟨new', hnew', hcalls', htimes'⟩ := h'.calls
  refine ⟨h'.killed.trans h.killed, h'.live.trans h.live,
    fun inst => (h'.position inst).trans (h.position inst),
    fun inst => (h'.pending inst).trans (h.pending inst), h'.allocated.trans h.allocated,
    fun k => (h'.works k).trans (h.works k), new ++ new', ?_, ?_, ?_⟩
  · rw [hnew', hnew, List.append_assoc]
  · intro c hc
    rcases List.mem_append.1 hc with hc | hc
    · exact hcalls c hc
    · rw [← h.live]
      exact hcalls' c hc
  · intro slot halloc
    have hfirst := htimes slot halloc
    have hrest := htimes' slot (by rwa [h.allocated])
    rw [hfirst.internalId] at hrest
    rw [cancelsOf_append]
    exact hfirst.append hrest

/-- **A series of submits without a venue** returns no id, and leaves the manager as its sweeps
do. -/
theorem submits_blacked {om : OrderManager} (record : List VenueCall)
    {calls : List (W × OrderRequest)} {reqs : List OrderRequest} (hB : Blackout E B reqs)
    (hcalls : ∀ c ∈ calls, c.1 ∈ B ∧ c.2 ∈ reqs) (hwf : om.WF) (horderly : Orderly om)
    (halive : om.killed = false) :
    (∀ id ∈ (submits E om record calls).1, id = 0) ∧
      (calls ≠ [] → (submits E om record calls).2.1.rebalanceIncomplete = true) ∧
      Blacked E B calls.length om (submits E om record calls).2.1 record
        (submits E om record calls).2.2 := by
  induction calls generalizing om record with
  | nil => exact ⟨nofun, fun h => absurd rfl h, .refl om record⟩
  | cons c calls ih =>
    obtain ⟨w, req⟩ := c
    obtain ⟨hw, hreq⟩ := hcalls _ List.mem_cons_self
    obtain ⟨hid, hincomplete, hblacked⟩ :=
      submit_blacked record hB hreq hw hwf horderly halive
    have hturns : Turns own om (State.submit E.noted req ⟨om, w, record⟩).2.om :=
      submit_turns (E := E.noted) (s := ⟨om, w, record⟩) trivial trivial
    obtain ⟨hwf', horderly'⟩ := hturns.invariant (fun _ _ => orderly_turn) hwf horderly
    obtain ⟨hids, hincomplete', hrest⟩ := ih _ (fun c hc => hcalls c (List.mem_cons_of_mem _ hc))
      hwf' horderly' (hblacked.killed.trans halive)
    refine ⟨?_, fun _ => ?_, ?_⟩
    · intro id hmem
      rcases List.mem_cons.1 hmem with rfl | hmem
      · exact hid
      · exact hids id hmem
    · cases calls with
      | nil => exact hincomplete
      | cons => exact hincomplete' (List.cons_ne_nil _ _)
    · rw [List.length_cons, Nat.add_comm]
      exact hblacked.trans hrest

/-- What a series of `n` submits without a venue does about a stored order `o`, which it leaves as
`o'`, and the answers it hears about it. -/
structure SweptOut (E : Env W) (B : Set W) (n : ℕ) (o o' : Order) (answers : List SendResult) :
    Prop where
  taken : o.Open → o.pendingCancel = false → (∀ w ∈ B, E.answer o w = some .Ok) →
    answers = [.Ok] ∧ o' = { o with pendingCancel := true, status := .SentCancel }
  refused : o.Open → o.pendingCancel = false →
    (∀ w ∈ B, ∃ r, r ≠ SendResult.Ok ∧ E.answer o w = some r) →
    answers.length = n ∧ SendResult.Ok ∉ answers ∧ o' = o
  skipped : (¬ o.Open ∨ o.pendingCancel = true ∨ ∀ w ∈ B, E.answer o w = none) →
    answers = [] ∧ o' = o
  /-- whatever the venue does in between -/
  once : (∃ refusals, SendResult.Ok ∉ refusals ∧ answers = refusals ++ [.Ok] ∧
      o' = { o with pendingCancel := true, status := .SentCancel }) ∨
    SendResult.Ok ∉ answers ∧ o' = o

/-- **The all-down sweep cancels each working order once.** In every manager that a run with minted
ids reaches, and whose kill switch is not tripped, a series of submits without a venue places no
order, marks the rebalance incomplete, leaves the books alone, and gets one cancel out for every
working order whose venue takes it; only a venue that refuses is asked again. -/
theorem allDown_cancels_once (E : Env W) (capacity : PoolCapacity) (w : W) (ops : List Op)
    (hops : (machine E).Admits CarriesMinted ⟨.init capacity, w⟩ ops)
    (hunwrapped : Unwrapped ((machine E).run ⟨.init capacity, w⟩ ops).om)
    (halive : ((machine E).run ⟨.init capacity, w⟩ ops).om.killed = false)
    (B : Set W) (calls : List (W × OrderRequest)) (hne : calls ≠ [])
    (hB : Blackout E B (calls.map Prod.snd)) (hcalls : ∀ c ∈ calls, c.1 ∈ B) :
    let om := ((machine E).run ⟨.init capacity, w⟩ ops).om
    let (ids, om', record) := submits E om [] calls
    (∀ id ∈ ids, id = 0) ∧ om'.rebalanceIncomplete = true ∧
      (∀ c ∈ record, ∃ id, om.Works id ∧ ∃ r, c = .cancel id r) ∧
      (∀ inst, om'.position inst = om.position inst ∧
        om'.pendingQuantity inst = om.pendingQuantity inst) ∧
      om'.pool.allocated = om.pool.allocated ∧
      ∀ slot, om.pool.allocated slot = true →
        SweptOut E B calls.length (om.pool.slots slot) (om'.pool.slots slot)
          (cancelsOf (om.pool.slots slot).internalId record) := by
  obtain ⟨hwf, -, horderly⟩ := run_orderly capacity w ops hops hunwrapped
  obtain ⟨hids, hincomplete, hblacked⟩ := submits_blacked [] hB
    (fun c hc => ⟨hcalls c hc, List.mem_map_of_mem hc⟩) hwf horderly halive
  obtain ⟨new, hnew, hmem, htimes⟩ := hblacked.calls
  rw [List.nil_append] at hnew
  subst hnew
  refine ⟨hids, hincomplete hne, fun c hc => ?_,
    fun inst => ⟨hblacked.position inst, hblacked.pending inst⟩, hblacked.allocated,
    fun slot halloc => ?_⟩
  · obtain ⟨id, hid, hr⟩ := hmem c hc
    exact ⟨id, (horderly.tidy.live_iff id).1 hid, hr⟩
  · have h := htimes slot halloc
    refine ⟨fun hopen hfree => ?_, h.refused, fun hskip => ?_, h.once⟩
    · obtain ⟨n, hn⟩ := Nat.exists_eq_succ_of_ne_zero (mt List.length_eq_zero_iff.1 hne)
      rw [hn] at h
      exact h.taken hopen hfree
    · rcases hskip with hclosed | hpending | hnone
      · exact h.skipped (Or.inl hclosed)
      · exact h.skipped (Or.inr hpending)
      · exact h.unreached hnone

end Submits

/-! ### A venue that goes dark -/

/-- One venue, which answers every cancel alike. The router knows it as long as the world says
`true`. -/
def dimmedEnv (answer : SendResult) : Env (Unit × Bool) :=
  { acceptingEnv.beside with
    registry := ⟨[some { acceptingClient.beside with cancelOrder := fun _ _ w => (answer, w) }]⟩
    router := ⟨fun _ _ _ w => (if w.2 then some 0 else none, w)⟩ }

/-- The manager after two orders, of which one is filled while the router still knows the venue. -/
def dimmedOps : List Op :=
  [.submit { instrument := 7, size := 10, price := 5 },
    .submit { instrument := 8, size := 10, price := 5 }, .fill 1 10 5 9 0]

/-- Two submits in the dark. -/
def darkCalls : List ((Unit × Bool) × OrderRequest) := [(((), false), {}), (((), false), {})]

section Dimmed

variable (answer : SendResult)

/-- In the dark it stays dark. -/
theorem dimmed_blackout (reqs : List OrderRequest) :
    Blackout (dimmedEnv answer) {w | w.2 = false} reqs where
  select := fun req _ w hw => ⟨w, hw, by
    show ((if w.2 then some 0 else none), w) = (none, w)
    rw [show w.2 = false from hw]
    rfl⟩
  log := fun w hw _ _ => hw
  cancelOrder := fun w hw venue ex hex id exchId => by
    unfold ExchangeRegistry.get dimmedEnv at hex
    dsimp only at hex
    cases hvenue : venue.toNat with
    | zero =>
      rw [hvenue] at hex
      cases hex
      exact hw
    | succ n =>
      rw [hvenue] at hex
      cases hex

end Dimmed

/-- The order that works is asked about once, in two submits. -/
theorem allDown_cancels_once_dimmed :
    let om := ((machine (dimmedEnv .Ok)).run ⟨.init twoSlots, (), true⟩ dimmedOps).om
    let (_, om', record) := submits (dimmedEnv .Ok) om [] darkCalls
    cancelsOf (om.pool.slots 1).internalId record = [.Ok] ∧
      (om'.pool.slots 1).status = .SentCancel ∧
      cancelsOf (om.pool.slots 0).internalId record = [] := by
  have hminted : (machine (dimmedEnv .Ok)).Admits CarriesMinted ⟨.init twoSlots, (), true⟩
      dimmedOps := by
    refine ⟨nofun, nofun, ?_, trivial⟩
    intro id hid
    cases hid
    decide
  have hunwrapped : Unwrapped
      ((machine (dimmedEnv .Ok)).run ⟨.init twoSlots, (), true⟩ dimmedOps).om := by
    intro slot
    have hnone : ((machine (dimmedEnv .Ok)).run ⟨.init twoSlots, (), true⟩
      dimmedOps).om.pool.history.releases slot = 0 := rfl
    rw [hnone]
    decide
  obtain ⟨-, -, -, -, -, hslots⟩ := allDown_cancels_once (dimmedEnv .Ok) twoSlots ((), true)
    dimmedOps hminted hunwrapped rfl {w | w.2 = false} darkCalls (by decide) (dimmed_blackout _ _)
    (by simp [darkCalls])
  have hworks := (hslots 1 rfl).taken rfl rfl fun w _ => rfl
  have hended := (hslots 0 rfl).skipped (Or.inl (by decide))
  exact ⟨hworks.1, congrArg Order.status hworks.2, hended.1⟩

/-- **A venue that refuses cancels is asked at every submit**, though its order is none of those
that get a cancel. -/
theorem refusing_venue_asked_again :
    let E := dimmedEnv .RateLimited
    let B : Set (Unit × Bool) := {w | w.2 = false}
    let ops : List Op := [.submit { instrument := 7, size := 10, price := 5 }]
    let om := ((machine E).run ⟨.init twoSlots, (), true⟩ ops).om
    (machine E).Admits CarriesMinted ⟨.init twoSlots, (), true⟩ ops ∧ Unwrapped om ∧
      om.killed = false ∧ Blackout E B (darkCalls.map Prod.snd) ∧ (∀ c ∈ darkCalls, c.1 ∈ B) ∧
      om.Works 1 ∧ (om.orderRef 1).pendingCancel = false ∧
      (∀ w ∈ B, E.answer (om.orderRef 1) w = some .RateLimited) ∧
      cancelsOf 1 (submits E om [] darkCalls).2.2 = [.RateLimited, .RateLimited] := by
  refine ⟨⟨nofun, trivial⟩, fun slot => ?_, rfl, dimmed_blackout _ _, by simp [darkCalls],
    by decide, rfl, fun w _ => rfl, by decide⟩
  change 0 < 2 ^ 16
  decide

end Oms
