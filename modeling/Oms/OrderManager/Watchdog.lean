import Oms.OrderManager.Chronicle
import Oms.OrderManager.Slots
import Oms.OrderManager.Traded

/-!
# The ack watchdog

`README.md`, failure mode 1: no confirmation arrives. The scan takes an order to be still awaiting
its ack as long as its status is `Sent`, but a cancel and a cancel-reject rewrite the status too.

* `Indexed`: the live index has the id of every working order, so a scan visits them all;
* `scan_flags`: a scan flags every order in it that is due;
* `Patient`, `watched_step`: when an operation leaves the watchdog able to see the orders that
  await their ack;
* `step_ackTimeoutCount`, `flaggedOnce_step`: each timeout counted is the only one of its order.
-/

namespace Oms

open OrderManager Relation

/-! ### The live index -/

/-- The live index has the id of every working order. -/
def Indexed (om : OrderManager) : Prop :=
  ∀ slot, om.pool.Working slot → (om.pool.slots slot).internalId ∈ om.live

section Indexed

variable {P : Policy} {om om' : OrderManager} {id : OrderIdRaw} {f : Order → Order}

theorem indexed_init (capacity : PoolCapacity) : Indexed (init capacity) :=
  fun _ hw => Bool.noConfusion hw.1

/-- Writing a working order, which leaves the index only if the write ends it. -/
theorem Indexed.written (h : Indexed om) (hstamped : Stamped om) (hlive : om.Live id)
    (hwritten : SlotWritten om om' id f) (hid : ∀ o : Order, (f o).internalId = o.internalId)
    (hindex : om'.live = om.live ∨
      om'.live = om.live.erase id ∧ ¬ (f (om.orderRef id)).Open) : Indexed om' := by
  rintro slot ⟨halloc', hopen'⟩
  obtain ⟨halloc, heq⟩ := hwritten slot halloc'
  rw [heq] at hopen' ⊢
  by_cases hslot : slot = slotOf id
  · subst hslot
    rw [if_pos rfl] at hopen' ⊢
    rw [hid]
    rcases hindex with heq | ⟨-, hclosed⟩
    · rw [heq]
      exact h _ ⟨halloc, hlive.isOpen⟩
    · exact absurd hopen' hclosed
  · rw [if_neg hslot] at hopen' ⊢
    have hmem := h slot ⟨halloc, hopen'⟩
    rcases hindex with heq | ⟨heq, -⟩
    · rwa [heq]
    · rw [heq, Finset.mem_erase]
      refine ⟨?_, hmem⟩
      rintro rfl
      exact hslot (hstamped slot halloc).1.symm

/-- Booking an order, which stays in the index as long as it works. -/
theorem Indexed.booked (h : Indexed om) (hwf : om.WF) (hstamped : Stamped om)
    {om₁ : OrderManager} {req : OrderRequest} {venue : VenueId} {now : Timestamp}
    (hres : om.reserve req venue now = some (id, om₁))
    (hid : ∀ o : Order, (f o).internalId = o.internalId)
    (hkept : SlotsKept (om₁.modifyOrder id f) om')
    (hindex : om'.live = insert id om.live ∨
      om'.live = (insert id om.live).erase id ∧ ∀ o, ¬ (f o).Open) : Indexed om' := by
  rintro slot ⟨halloc', hopen'⟩
  rcases booked_slots hwf hres hkept slot halloc' with ⟨-, -, heq⟩ | ⟨hslot, halloc, heq⟩
  · rw [heq] at hopen' ⊢
    rcases hindex with hlive | ⟨-, hclosed⟩
    · rw [hlive, hid]
      exact Finset.mem_insert_self id _
    · exact absurd hopen' (hclosed _)
  · rw [heq] at hopen' ⊢
    have hmem := Finset.mem_insert_of_mem (b := id) (h slot ⟨halloc, hopen'⟩)
    rcases hindex with hlive | ⟨hlive, -⟩
    · rwa [hlive]
    · rw [hlive, Finset.mem_erase]
      refine ⟨?_, hmem⟩
      rintro rfl
      exact hslot (hstamped slot halloc).1.symm

theorem Indexed.turn (h : Indexed om) (hwf : om.WF) (hstamped : Stamped om)
    (hturn : Turn P om om') : Indexed om' := by
  cases hturn with
  | quiet d => exact h
  | forgive id => exact h
  | @write id f hlive hf =>
    exact h.written hstamped hlive (f := f) (.of_pool rfl)
      (fun o => (hf.touch.keeps o).internalId) (Or.inl rfl)
  | @fill id qty price trade ts hmoves haddr hok =>
    obtain ⟨hcur, hopen, -⟩ := validate_fill_ok_iff.1 hok
    refine h.written hstamped ⟨hcur, hopen⟩ (slotWritten_fill om id qty price trade ts)
      (fun _ => rfl) ?_
    rcases fill_cases om id qty price trade ts with ⟨-, heq⟩ | ⟨hclosed, om₂, hom₂, heq⟩
    · exact Or.inl (by rw [heq]; rfl)
    · refine Or.inr ⟨?_, hclosed⟩
      rw [heq, retire_live]
      rcases hom₂ with rfl | rfl <;> rfl
  | @close om' id f hmoves haddr hlive hf hwrite =>
    have hwritten : SlotWritten om om' id f := .of_pool (by rw [hwrite]; rfl)
    refine h.written hstamped hlive (hwritten.kept (slotsKept_retire _ _ _ _ _))
      (fun o => (hf.closing.keeps o).internalId) (Or.inr ⟨?_, hf.closing.not_open _⟩)
    rw [retire_live, hwrite]
    rfl
  | @place om₁ req venue now id hreq hres =>
    refine h.booked (f := Order.markSent now) hwf hstamped hres (fun _ => rfl) (.of_pool rfl)
      (Or.inl ?_)
    obtain ⟨pool, -, -, rfl⟩ := hwf.reserve_cases hres
    rfl
  | @unwind om₁ om' req venue now id hmoves hreq hres hwrite =>
    have hkept : SlotsKept (om₁.modifyOrder id Order.failSend) om' := .of_pool (by rw [hwrite]; rfl)
    refine h.booked (f := Order.failSend) hwf hstamped hres (fun _ => rfl)
      (hkept.trans (slotsKept_retire om' id req.instrument req.size req.side))
      (Or.inr ⟨?_, Order.failSend_not_open⟩)
    rw [retire_live, hwrite]
    obtain ⟨pool, -, -, rfl⟩ := hwf.reserve_cases hres
    rfl

end Indexed

section Machine

variable {W : Type} {E : Env W} {s : State W} {id : OrderIdRaw}

/-- The index and the ids of the orders stay sound. -/
theorem step_indexed (hwf : s.om.WF) (hstamped : Stamped s.om) (h : Indexed s.om) (op : Op) :
    (s.step E op).om.WF ∧ Stamped (s.step E op).om ∧ Indexed (s.step E op).om := by
  have hturns : Turns {} s.om (s.step E op).om :=
    step_turns ⟨fun _ _ => ⟨trivial, trivial⟩, fun _ _ => ⟨trivial, fun _ => trivial⟩⟩
  refine Turns.invariant (I := fun om => Stamped om ∧ Indexed om) ?_ hturns hwf ⟨hstamped, h⟩
  rintro om om' hwf ⟨hstamped, h⟩ hturn
  exact ⟨((hturn.chain hwf).invariant (I := Stamped) (fun _ _ => stamped_step) hwf hstamped).2,
    h.turn hwf hstamped hturn⟩

/-! ### What a scan flags -/

/-- The order of an id is flagged, or the watchdog finds it late. -/
def OrderManager.Due (om : OrderManager) (now timeout : Timestamp) (id : OrderIdRaw) : Prop :=
  (om.orderRef id).ackTimedOut = true ∨
    (om.orderRef id).status = .Sent ∧ timeout ≤ now - (om.orderRef id).ts.sent

/-- The watchdog leaves the slots as they are, and an order alone or flagged. -/
theorem checkAckTimeout_orderRef (now timeout : Timestamp) (s : State W) (k id : OrderIdRaw) :
    (s.checkAckTimeout E now timeout k).om.pool.isCurrent id = s.om.pool.isCurrent id ∧
      ((s.checkAckTimeout E now timeout k).om.orderRef id = s.om.orderRef id ∨
        ((s.checkAckTimeout E now timeout k).om.orderRef id).ackTimedOut = true) := by
  rcases checkAckTimeout_cases (E := E) now timeout s k with ⟨-, heq⟩ | ⟨-, f, hf, heq⟩
  · rw [heq]
    exact ⟨rfl, Or.inl rfl⟩
  · rw [heq]
    refine ⟨OrderPool.isCurrent_modify _, ?_⟩
    have hwrite : (s.om.modifyOrder k f).orderRef id = _ := orderRef_write rfl id
    show (s.om.modifyOrder k f).orderRef id = _ ∨
      ((s.om.modifyOrder k f).orderRef id).ackTimedOut = true
    rw [hwrite]
    split_ifs
    · exact Or.inr (hf.flags _)
    · exact Or.inl rfl

/-- The watchdog flags an order that is due. -/
theorem checkAckTimeout_flags (now timeout : Timestamp) (s : State W)
    (hcur : s.om.pool.isCurrent id = true) (hdue : s.om.Due now timeout id) :
    ((s.checkAckTimeout E now timeout id).om.orderRef id).ackTimedOut = true := by
  rcases checkAckTimeout_cases (E := E) now timeout s id with ⟨hnot, heq⟩ | ⟨-, f, hf, heq⟩
  · rw [heq]
    by_contra hflag
    rw [Bool.not_eq_true] at hflag
    rcases hdue with htrue | ⟨hsent, hlate⟩
    · rw [htrue] at hflag
      cases hflag
    · exact hnot ⟨hcur, hflag, hsent, hlate⟩
  · rw [heq]
    show ((s.om.modifyOrder id f).orderRef id).ackTimedOut = true
    rw [orderRef_modifyOrder]
    exact hf.flags _

/-- A scan flags every order in it that is due. -/
theorem scan_flags (now timeout : Timestamp) (ids : List OrderIdRaw) (s : State W)
    (hid : id ∈ ids) (hcur : s.om.pool.isCurrent id = true) (hdue : s.om.Due now timeout id) :
    ((ids.foldl (State.checkAckTimeout E now timeout) s).om.orderRef id).ackTimedOut = true := by
  induction ids generalizing s with
  | nil => cases hid
  | cons k ids ih =>
    rw [List.foldl_cons]
    obtain ⟨hcur', hkeep⟩ := checkAckTimeout_orderRef (E := E) now timeout s k id
    by_cases hlater : id ∈ ids
    · refine ih _ hlater (hcur'.trans hcur) ?_
      rcases hkeep with hsame | hflag
      · rwa [OrderManager.Due, hsame]
      · exact Or.inl hflag
    · obtain rfl : id = k := (List.mem_cons.1 hid).resolve_right hlater
      have hflag := checkAckTimeout_flags (E := E) now timeout s hcur hdue
      -- nothing later in the scan takes the flag away
      rcases (scan_slots (E := E) now timeout ids _).2 (slotOf id) with
        ⟨-, hsame⟩ | ⟨-, hunflagged, -⟩
      · rw [orderRef, hsame]
        exact hflag
      · exact absurd hflag (by rw [orderRef, hunflagged]; decide)

end Machine

/-! ### Orders that await their ack -/

/-- An order that its venue has not answered is flagged, or has the status that a scan looks for. -/
def AckWatched (story : List News) (o : Order) : Prop :=
  o.Open → (∀ news ∈ story, news.isAck = false) → o.ackTimedOut = true ∨ o.status = .Sent

section Patience

variable {W : Type} (E : Env W) {c : Chronicle W News} {id : OrderIdRaw}

/-- The venue has not answered the order of an id, and the watchdog has not flagged it. -/
structure Chronicle.Awaiting (c : Chronicle W News) (id : OrderIdRaw) : Prop where
  unacked : ∀ news ∈ c.story (slotOf id), news.isAck = false
  unflagged : (c.state.om.orderRef id).ackTimedOut = false

/-- For no working order that awaits its ack a cancel goes out or a cancel-reject is accepted. -/
def Patient (c : Chronicle W News) : Op → Prop
  | .cancel id => c.state.om.Live id → c.Awaiting id → c.state.cancelGoesOut E id = false
  | .submit req => ∀ id ∈ c.state.sweptBy E req, ¬ c.Awaiting id
  | .reject id reason _ => reason = .CancelRejected → id ∉ c.state.om.expectedFalseCancelRejects →
      c.state.om.Live id → ¬ c.Awaiting id
  | _ => True

/-- The writes that hide a working order from the watchdog. -/
inductive Order.Hiding : (Order → Order) → Prop
  | markCancelSent : Hiding markCancelSent
  | rejectCancel : Hiding rejectCancel

theorem Order.Hiding.hides {f : Order → Order} (h : Hiding f) (o : Order) :
    (f o).Open ∧ (f o).ackTimedOut = o.ackTimedOut ∧ (f o).status ≠ .Sent := by
  cases h with
  | markCancelSent => exact ⟨markCancelSent_open o, rfl, fun h => by cases h⟩
  | rejectCancel =>
    refine ⟨rejectCancel_open o, rfl, ?_⟩
    unfold Order.rejectCancel
    dsimp only
    split_ifs <;> exact fun h => by cases h

/-- A write that hides an order which awaits its ack. -/
theorem not_watched {E : Env W} (op : Op) (hawait : c.Awaiting id)
    (htold : c.state.told E op (slotOf id) = [])
    (hbefore : c.state.om.pool.allocated (slotOf id) = true)
    (hafter : (c.state.step E op).om.pool.allocated (slotOf id) = true)
    {f : Order → Order} (hf : Order.Hiding f)
    (hwrite : (c.state.step E op).om.pool.slots (slotOf id) = f (c.state.om.orderRef id)) :
    ¬ Told AckWatched ((chronicle E (State.told E)).step c op) := by
  intro h
  have hslot : AckWatched
      (if c.state.om.pool.allocated (slotOf id) then
        c.story (slotOf id) ++ c.state.told E op (slotOf id) else [])
      ((c.state.step E op).om.pool.slots (slotOf id)) := h (slotOf id) hafter
  obtain ⟨hopen, hflag, hstatus⟩ := hf.hides (c.state.om.orderRef id)
  rw [if_pos hbefore, htold, List.append_nil, hwrite] at hslot
  rcases hslot hopen hawait.unacked with htrue | hsent
  · rw [hflag, hawait.unflagged] at htrue
    cases htrue
  · exact hstatus hsent

variable {E : Env W} {op : Op}

/-- An impatient operation hides an order from the watchdog. -/
theorem patient_of_watched (hwatched : Told AckWatched ((chronicle E (State.told E)).step c op)) :
    Patient E c op := by
  cases op with
  | cancel id =>
    intro hlive hawait
    by_contra hout
    rw [Bool.not_eq_false] at hout
    rcases cancel_cases (E := E) c.state id with ⟨-, hom⟩ | ⟨hnot, -⟩
    · have hstep : (c.state.step E (.cancel id)).om =
          c.state.om.modifyOrder id Order.markCancelSent := hom
      refine not_watched (.cancel id) hawait rfl hlive.allocated ?_ .markCancelSent ?_ hwatched
      · rw [hstep]
        exact hlive.allocated
      · rw [hstep]
        exact OrderPool.modify_slots_self
    · exact hnot ⟨hlive, hout⟩
  | submit req =>
    intro id hid hawait
    obtain ⟨hkilled, hcur, w, hselect⟩ := mem_sweptBy hid
    obtain ⟨halloc, hslots⟩ := submit_allDown hkilled hselect
    have hbefore := (OrderPool.isCurrent_iff.1 hcur).2.1
    refine not_watched (.submit req) hawait rfl hbefore ((congrFun halloc _).trans hbefore)
      .markCancelSent ?_ hwatched
    exact (hslots (slotOf id)).trans (if_pos (List.mem_map_of_mem hid))
  | reject id reason ts =>
    rintro rfl hexp hlive hawait
    rcases onCancelReject_cases (E := E) c.state id ts with ⟨-, hpool⟩ | ⟨hnot, -⟩
    · have hstep : (c.state.step E (.reject id .CancelRejected ts)).om.pool =
          c.state.om.pool.modify (slotOf id) Order.rejectCancel := hpool
      refine not_watched (.reject id .CancelRejected ts) hawait rfl hlive.allocated ?_ .rejectCancel
        ?_ hwatched
      · rw [hstep]
        exact hlive.allocated
      · rw [hstep]
        exact OrderPool.modify_slots_self
    · exact hnot ⟨hexp, hlive⟩
  | _ => trivial

/-- A patient operation hides no order from the watchdog. -/
theorem watched_of_patient (hwf : c.state.om.WF) (h : Told AckWatched c)
    (hpatient : Patient E c op) : Told AckWatched ((chronicle E (State.told E)).step c op) := by
  refine told_step hwf h ?_ ?_
  · intro req o hop hnew hopen hstory
    cases hnew with
    | sent id now => exact Or.inr rfl
    | failed id now => exact absurd hopen (Order.failSend_not_open _)
  · intro slot news o halloc hwatched hstep hopen hstory
    rw [List.forall_mem_append] at hstory
    -- an order whose status is rewritten was answered, or is flagged
    have hhide : ∀ id, slot = slotOf id → ¬ c.Awaiting id →
        (c.state.om.pool.slots slot).ackTimedOut = true := by
      rintro id rfl hawait
      by_contra hflag
      exact hawait ⟨hstory.1, Bool.not_eq_true _ ▸ hflag⟩
    cases hstep with
    | same => exact hwatched hopen hstory.1
    | confirm hop hslot hlive =>
      have hack := hstory.2 .confirm List.mem_cons_self
      cases hack
    | fill hop hslot hok =>
      have hack := hstory.2 (.fill _ _) List.mem_cons_self
      cases hack
    | @cancel id hop hslot hlive hout =>
      subst hop
      refine Or.inl (hhide id hslot fun hawait => ?_)
      rw [hpatient hlive hawait] at hout
      cases hout
    | @sweep req id hop hslot hid =>
      subst hop
      exact Or.inl (hhide id hslot (hpatient id hid))
    | @rejectCancel id ts hop hslot hexp hlive =>
      subst hop
      exact Or.inl (hhide id hslot (hpatient rfl hexp hlive))
    | close hslot hlive hf => exact absurd hopen (hf.closing.not_open _)
    | timeOut hf hunflagged => exact Or.inl (hf.flags _)

end Patience

/-! ### What is counted -/

/-- An order is told to have timed out once if it is flagged, and never otherwise. -/
def FlaggedOnce (story : List News) (o : Order) : Prop :=
  story.count .timedOut = if o.ackTimedOut then 1 else 0

section Counting

variable {W : Type} {E : Env W} {s : State W} {op : Op}

theorem flaggedOnce_step {c : Chronicle W News} (hwf : c.state.om.WF) (h : Told FlaggedOnce c) :
    Told FlaggedOnce ((chronicle E (State.told E)).step c op) := by
  refine told_step hwf h (fun req o _ hnew => by cases hnew <;> rfl) ?_
  intro slot news o halloc hflagged hstep
  unfold FlaggedOnce at hflagged ⊢
  rw [List.count_append, hflagged]
  cases hstep with
  | close hslot hlive hf => cases hf <;> rfl
  | timeOut hf hunflagged =>
    rw [hunflagged, hf.flags]
    rfl
  | _ => rfl

theorem retire_ackTimeoutCount (om : OrderManager) (id : OrderIdRaw) (inst : InstrumentId)
    (rem : Quantity) (side : Side) :
    (om.retire id inst rem side).ackTimeoutCount = om.ackTimeoutCount := by
  rw [OrderManager.retire, expire_frame]
  rfl

theorem fill_ackTimeoutCount (om : OrderManager) (id : OrderIdRaw) (qty : Quantity) (price : Price)
    (trade : TradeId) (ts : Timestamp) :
    (om.fill id qty price trade ts).ackTimeoutCount = om.ackTimeoutCount := by
  rcases fill_cases om id qty price trade ts with ⟨-, heq⟩ | ⟨-, om₂, hom₂, heq⟩
  · rw [heq]
    rfl
  · rw [heq, retire_ackTimeoutCount]
    rcases hom₂ with rfl | rfl <;> rfl

theorem tripKillSwitch_ackTimeoutCount (reason : String) (s : State W) :
    (s.tripKillSwitch E reason).om.ackTimeoutCount = s.om.ackTimeoutCount := by
  rw [tripKillSwitch_om]
  unfold OrderManager.tripKillSwitch
  split_ifs <;> rfl

theorem sweep_ackTimeoutCount (ids : List OrderIdRaw) (s : State W) :
    (ids.foldl (State.cancelWorkingOrder E) s).om.ackTimeoutCount = s.om.ackTimeoutCount := by
  induction ids generalizing s with
  | nil => rfl
  | cons id ids ih =>
    rw [List.foldl_cons, ih, cancelWorkingOrder_om]
    split_ifs <;> rfl

theorem place_ackTimeoutCount (hwf : s.om.WF) (req : OrderRequest) (venue : VenueId)
    (ex : ExchangeClient W) :
    (s.place E req venue ex).2.om.ackTimeoutCount = s.om.ackTimeoutCount := by
  unfold State.place
  dsimp only
  split
  · rfl
  · rename_i id om₁ hres
    obtain ⟨pool, -, -, rfl⟩ := hwf.reserve_cases hres
    split_ifs
    · rfl
    · exact retire_ackTimeoutCount _ _ _ _ _

theorem submit_ackTimeoutCount (hwf : s.om.WF) (req : OrderRequest) :
    (s.submit E req).2.om.ackTimeoutCount = s.om.ackTimeoutCount := by
  fun_cases State.submit E req s with
  | case1 hkilled => rfl
  | case2 hon w hselect => exact sweep_ackTimeoutCount _ _
  | case3 hon venue w hselect s' hget => rfl
  | case4 hon venue w hselect s' ex hget hfull => exact tripKillSwitch_ackTimeoutCount _ _
  | case5 hon venue w hselect s' ex hget hfree =>
    exact place_ackTimeoutCount (s := s') hwf req venue ex

/-- A scan counts the orders it finds overdue. -/
theorem scan_ackTimeoutCount (now timeout : Timestamp) (ids : List OrderIdRaw) (s : State W) :
    (ids.foldl (State.checkAckTimeout E now timeout) s).om.ackTimeoutCount =
      s.om.ackTimeoutCount + (s.overdue E now timeout ids).length := by
  induction ids generalizing s with
  | nil => rfl
  | cons id ids ih =>
    rw [List.foldl_cons, ih, State.overdue, List.length_append, ← Nat.add_assoc]
    congr 1
    rcases checkAckTimeout_cases (E := E) now timeout s id with ⟨hnot, heq⟩ | ⟨hover, f, -, heq⟩
    · rw [heq, if_neg hnot]
      rfl
    · rw [heq, if_pos hover]
      rfl

theorem onFill_ackTimeoutCount (id : OrderIdRaw) (qty : Quantity) (price : Price)
    (trade : TradeId) (ts : Timestamp) :
    (s.onFill E id qty price trade ts).om.ackTimeoutCount = s.om.ackTimeoutCount := by
  unfold State.onFill
  split
  · exact fill_ackTimeoutCount _ _ _ _ _ _
  · dsimp only
    split_ifs
    · exact tripKillSwitch_ackTimeoutCount _ _
    · rfl
  · rfl

theorem onReject_ackTimeoutCount (id : OrderIdRaw) (reason : RejectReason) (ts : Timestamp) :
    (s.onReject E id reason ts).om.ackTimeoutCount = s.om.ackTimeoutCount := by
  unfold State.onReject State.onCancelReject
  dsimp only
  split_ifs
  · rfl
  · split <;> rfl
  · split
    · exact retire_ackTimeoutCount _ _ _ _ _
    · rfl

theorem finishCancel_ackTimeoutCount (id : OrderIdRaw) (ts : Timestamp) (kind : EventKind)
    (pub : OrderEventKind) (unsolicited : Bool) :
    (s.finishCancel E id ts kind pub unsolicited).om.ackTimeoutCount = s.om.ackTimeoutCount := by
  unfold State.finishCancel
  split
  · refine (retire_ackTimeoutCount _ _ _ _ _).trans ?_
    cases unsolicited <;> rfl
  · rfl

/-- The counter moves by the orders an operation counts. -/
theorem step_ackTimeoutCount (hwf : s.om.WF) (op : Op) :
    (s.step E op).om.ackTimeoutCount = s.om.ackTimeoutCount + (s.counted E op).length := by
  cases op with
  | submit req => exact submit_ackTimeoutCount hwf req
  | cancel id =>
    show (s.cancel E id).2.om.ackTimeoutCount = _
    rcases cancel_cases (E := E) s id with ⟨-, heq⟩ | ⟨-, heq⟩
    · rw [heq]
      rfl
    · rw [heq]
      rfl
  | confirm id exchId ts =>
    show (s.onConfirm E id exchId ts).om.ackTimeoutCount = _
    unfold State.onConfirm
    split <;> rfl
  | fill id qty price trade ts => exact onFill_ackTimeoutCount id qty price trade ts
  | reject id reason ts => exact onReject_ackTimeoutCount id reason ts
  | cancelAck id ts => exact finishCancel_ackTimeoutCount id ts _ _ _
  | unsolicitedCancel id ts => exact finishCancel_ackTimeoutCount id ts _ _ _
  | checkAckTimeouts now timeout => exact scan_ackTimeoutCount now timeout _ s
  | venueDisconnect venue => rfl
  | venueReconnect venue => rfl
  | setUnknownFillHardstopThreshold n => rfl
  | resetRebalanceCycle => rfl
  | clearReconcileRequest => rfl

end Counting

/-! ### Every run -/

section Runs

variable {W : Type} {E : Env W}

/-- A scan leaves no working order unflagged that its venue has not answered in time. -/
def Chronicle.MissesNone (E : Env W) (c : Chronicle W News) : Prop :=
  ∀ now timeout id, c.state.om.Works id → (∀ news ∈ c.story (slotOf id), news.isAck = false) →
    timeout ≤ now - (c.state.om.orderRef id).ts.sent →
      ((c.state.checkAckTimeouts E now timeout).om.orderRef id).ackTimedOut = true

/-- What holds of the manager in every chronicle. -/
structure Chronicle.Sound (c : Chronicle W News) : Prop where
  wf : c.state.om.WF
  stamped : Stamped c.state.om
  indexed : Indexed c.state.om

variable {c : Chronicle W News}

theorem sound_blank (capacity : PoolCapacity) (w : W) :
    (Chronicle.blank capacity w : Chronicle W News).Sound where
  wf := wf_init capacity
  stamped := stamped_init capacity
  indexed := indexed_init capacity

theorem Chronicle.Sound.step (h : c.Sound) (op : Op) :
    ((chronicle E (State.told E)).step c op).Sound := by
  obtain ⟨hwf, hstamped, hindexed⟩ := step_indexed (E := E) h.wf h.stamped h.indexed op
  exact ⟨hwf, hstamped, hindexed⟩

/-- Scans miss no order exactly if each that awaits its ack has the status they look for. -/
theorem missesNone_iff_watched (h : c.Sound) : c.MissesNone E ↔ Told AckWatched c := by
  constructor
  · intro hnone slot halloc hopen hstory
    by_contra hhidden
    rw [not_or, Bool.not_eq_true] at hhidden
    have hworks := h.stamped.works_slot h.wf ⟨halloc, hopen⟩
    have hslot := (h.stamped slot halloc).1
    have hflag := hnone (c.state.om.orderRef (c.state.om.pool.slots slot).internalId).ts.sent 0 _
      hworks (by rwa [hslot]) (sub_self _).ge
    -- the scan passes over the order, since its status is not `Sent`
    rcases (scan_slots (E := E) _ 0 (E.liveOrder c.state.world c.state.om.live) c.state).2 slot with
      ⟨-, hsame⟩ | ⟨-, -, hsent, -⟩
    · rw [orderRef, hslot, State.checkAckTimeouts, hsame, hhidden.1] at hflag
      cases hflag
    · exact hhidden.2 hsent
  · intro hwatched now timeout id hworks hstory hlate
    have hmem : id ∈ E.liveOrder c.state.world c.state.om.live := by
      rw [E.mem_liveOrder]
      have hindexed := h.indexed (slotOf id) ⟨hworks.live.allocated, hworks.live.isOpen⟩
      have hown : (c.state.om.pool.slots (slotOf id)).internalId = id := hworks.own
      rwa [hown] at hindexed
    refine scan_flags now timeout _ _ hmem hworks.live.current ?_
    rcases hwatched (slotOf id) hworks.live.allocated hworks.live.isOpen hstory with hflag | hsent
    · exact Or.inl hflag
    · exact Or.inr ⟨hsent, hlate⟩

/-- **The watchdog misses no unacknowledged order exactly in the runs that are patient**: in which
no cancel goes out for an order that awaits its ack, and no cancel-reject of one is accepted. In
every run it counts an order at most once. -/
theorem missesNone_iff_patient (E : Env W) (capacity : PoolCapacity) (w : W) (ops : List Op) :
    let C := chronicle E (State.told E)
    let start : Chronicle W News := .blank capacity w
    ((∀ pre, pre <+: ops → (C.run start pre).MissesNone E) ↔ C.Admits (Patient E) start ops) ∧
      (∀ pre, pre <+: ops → ∀ slot, (C.run start pre).state.om.pool.allocated slot = true →
        ((C.run start pre).story slot).count .timedOut ≤ 1) ∧
      (C.run start ops).state.om.ackTimeoutCount =
        (C.trace (fun c op => c.state.counted E op) start ops).length := by
  intro C start
  have hsound : ∀ pre, (C.run start pre).Sound := fun pre =>
    Machine.run_invariant (G := fun _ _ => True) (fun _ op h _ => h.step op)
      (sound_blank capacity w) (C.admits_true _ _)
  refine ⟨?_, fun pre _ slot halloc => ?_, ?_⟩
  · have hstep : ∀ c op, c.Sound ∧ Told AckWatched c →
        ((C.step c op).Sound ∧ Told AckWatched (C.step c op) ↔ Patient E c op) := fun c op h =>
      ⟨fun h' => patient_of_watched h'.2,
        fun hpatient => ⟨h.1.step op, watched_of_patient h.1.wf h.2 hpatient⟩⟩
    have hstart : start.Sound ∧ Told AckWatched start :=
      ⟨sound_blank capacity w, told_blank capacity w⟩
    rw [← Machine.forall_prefix_iff_admits hstep hstart ops]
    refine forall₂_congr fun pre _ => ?_
    rw [missesNone_iff_watched (hsound pre)]
    exact (and_iff_right (hsound pre)).symm
  · have hflagged : (C.run start pre).Sound ∧ Told FlaggedOnce (C.run start pre) :=
      Machine.run_invariant (G := fun _ _ => True)
        (I := fun c : Chronicle W News => c.Sound ∧ Told FlaggedOnce c)
        (fun _ op h _ => ⟨h.1.step op, flaggedOnce_step h.1.wf h.2⟩)
        ⟨sound_blank capacity w, told_blank capacity w⟩ (C.admits_true _ _)
    have hcount : ((C.run start pre).story slot).count .timedOut = _ := hflagged.2 slot halloc
    rw [hcount]
    split_ifs <;> decide
  · have hcounted : (C.run start ops).Sound ∧ (C.run start ops).state.om.ackTimeoutCount =
        ([] ++ C.trace (fun c op => c.state.counted E op) start ops).length :=
      Machine.run_trace_invariant (G := fun _ _ => True)
        (I := fun c ids => c.Sound ∧ c.state.om.ackTimeoutCount = ids.length)
        (fun c op ids h _ => ⟨h.1.step op, by
          rw [List.length_append, ← h.2]
          exact step_ackTimeoutCount h.1.wf op⟩)
        ⟨sound_blank capacity w, rfl⟩ (C.admits_true _ _)
    exact hcounted.2

end Runs

/-- A cancel goes out before the ack, and the scan passes over the order. -/
theorem cancelled_unacked_missed :
    ¬ ∀ pre, pre <+: [.submit { instrument := 7, size := 10, price := 5 }, .cancel 1] →
      ((chronicle acceptingEnv (State.told acceptingEnv)).run (.blank twoSlots ()) pre).MissesNone
        acceptingEnv := by
  intro h
  have hflag := h _ List.prefix_rfl 1000000 1 1 (by decide) (by decide) (by decide)
  revert hflag
  decide

end Oms
