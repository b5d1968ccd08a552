import Oms.OrderManager.Books

/-!
# Fills are applied exactly once

A fill is remembered in the trade ids of its order while the order works, and by the terminal
status of the order after `retire` erased them, until the slot is released. `Remembered` is the
invariant that joins the two; it holds along every run, for every id and trade id.
-/

namespace Oms

open OrderManager

/-- As long as the slot of `id` was not released after the `n`-th time, a further fill of `trade`
for `id` is refused: the order has ended, or has seen the trade. -/
def Remembered (id : OrderIdRaw) (trade : TradeId) (n : ℕ) (om : OrderManager) : Prop :=
  n ≤ om.pool.history.releases (slotOf id) ∧
    (om.pool.history.releases (slotOf id) = n → om.pool.isCurrent id = true ∧
      ((om.orderRef id).Open → trade ∈ om.tradesOf id))

section Step

variable {P : Policy} {om om' : OrderManager} {id : OrderIdRaw} {trade : TradeId} {n : ℕ}

theorem tradesOf_shelve_of_ne {id' : OrderIdRaw} (h : id ≠ id') :
    (om.shelve id').tradesOf id = om.tradesOf id := by
  unfold tradesOf
  show ((om.tradeIds.erase id').lookup id).getD ∅ = _
  rw [Finmap.lookup_erase_ne h]

theorem tradesOf_applyFill (id' : OrderIdRaw) (qty : Quantity) (price : Price) (trade' : TradeId)
    (ts : Timestamp) :
    (om.applyFill id' qty price trade' ts).tradesOf id =
      if id = id' then insert trade' (om.tradesOf id') else om.tradesOf id := by
  unfold tradesOf applyFill
  dsimp only
  split_ifs with h
  · subst h
    rw [Finmap.lookup_insert]
    rfl
  · rw [Finmap.lookup_insert_of_ne _ h]
    rfl

theorem mem_tradesOf_applyFill {id' : OrderIdRaw} {qty : Quantity} {price : Price}
    {trade' : TradeId} {ts : Timestamp} (h : trade ∈ om.tradesOf id) :
    trade ∈ (om.applyFill id' qty price trade' ts).tradesOf id := by
  rw [tradesOf_applyFill]
  split_ifs with hid
  · exact Finset.mem_insert_of_mem (hid ▸ h)
  · exact h

/-- Writing a working order keeps what is remembered, if it keeps the trade ids. -/
theorem Remembered.write (h : Remembered id trade n om) {id' : OrderIdRaw} {f : Order → Order}
    (hopen : (om.orderRef id').Open) (hpool : om'.pool = om.pool.modify (slotOf id') f)
    (htrades : trade ∈ om.tradesOf id → trade ∈ om'.tradesOf id) :
    Remembered id trade n om' := by
  refine ⟨by rw [hpool]; exact h.1, fun hn => ?_⟩
  rw [hpool] at hn ⊢
  obtain ⟨hcur, hseen⟩ := h.2 hn
  refine ⟨hcur, fun hopen' => htrades (hseen ?_)⟩
  by_cases hslot : slotOf id = slotOf id'
  · rw [orderRef, hslot]
    exact hopen
  · rw [orderRef, hpool, OrderPool.modify_slots_of_ne hslot] at hopen'
    exact hopen'

theorem remembered_step (hwf : om.WF) (h : Remembered id trade n om) (hchange : Change P om om') :
    Remembered id trade n om' := by
  cases hchange with
  | quiet d => exact h
  | forgive id' => exact h
  | touch hlive hf => exact h.write hlive.isOpen rfl fun ht => ht
  | fill hmoves haddr hok =>
    exact h.write (validate_fill_ok_iff.1 hok).2.1 rfl mem_tradesOf_applyFill
  | @settle id' f hmoves hlive hf => exact h.write (f := f) hlive.isOpen rfl fun ht => ht
  | expect haddr hended => exact h
  | @shelve id' hended =>
    refine ⟨h.1, fun hn => ⟨(h.2 hn).1, fun hopen => ?_⟩⟩
    by_cases hid : id = id'
    · -- the trade ids go only when the order has ended
      subst hid
      exact absurd hopen hended.not_open
    · rw [tradesOf_shelve_of_ne hid]
      exact (h.2 hn).2 hopen
  | @releaseHead old rest hfifo =>
    by_cases hslot : slotOf id = slotOf old
    · have hrel : (om.releaseHead old rest).pool.history.releases (slotOf id) =
          om.pool.history.releases (slotOf id) + 1 := by
        simp [OrderManager.releaseHead, OrderPool.release, hslot]
      refine ⟨by rw [hrel]; exact Nat.le_succ_of_le h.1, fun hn => ?_⟩
      have := h.1
      omega
    · have hrel : (om.releaseHead old rest).pool.history.releases (slotOf id) =
          om.pool.history.releases (slotOf id) := by
        simp [OrderManager.releaseHead, OrderPool.release, hslot]
      refine ⟨by rw [hrel]; exact h.1, fun hn => ⟨?_, (h.2 (hrel ▸ hn)).2⟩⟩
      exact (OrderPool.isCurrent_release hslot).trans (h.2 (hrel ▸ hn)).1
  | @reserve _ req venue now id' hreq hres =>
    obtain ⟨pool, hacq, -, rfl⟩ := hwf.reserve_cases hres
    have hfree := (hwf.pool.acquire_free hacq).2
    obtain ⟨rest, -, rfl⟩ := OrderPool.acquire_cases hacq
    refine ⟨h.1, fun hn => ?_⟩
    obtain ⟨hcur, hseen⟩ := h.2 hn
    -- the slot handed out was free, so it is not the slot of `id`
    have hslot : slotOf id ≠ slotOf id' := by
      intro heq
      have halloc := (OrderPool.isCurrent_iff.1 hcur).2.1
      rw [heq, hfree] at halloc
      cases halloc
    rw [OrderPool.isCurrent_iff] at hcur ⊢
    refine ⟨by simpa [booked, hslot] using hcur, fun hopen => hseen ?_⟩
    simpa [booked, orderRef, OrderPool.modify, hslot] using hopen

/-- An accepted fill is remembered. -/
theorem remembered_applyFill {qty : Quantity} {price : Price} {ts : Timestamp}
    (hok : om.validate id ⟨.Fill, trade, qty, price⟩ = .Ok) :
    Remembered id trade (om.pool.history.releases (slotOf id))
      (om.applyFill id qty price trade ts) := by
  refine ⟨le_refl _, fun _ => ⟨(validate_fill_ok_iff.1 hok).1, fun _ => ?_⟩⟩
  rw [tradesOf_applyFill, if_pos rfl]
  exact Finset.mem_insert_self _ _

/-- A remembered fill is refused. -/
theorem Remembered.refused {W : Type} {E : Env W} {s : State W} (h : Remembered id trade n s.om)
    (hn : s.om.pool.history.releases (slotOf id) = n) (qty : Quantity) (price : Price)
    (ts : Timestamp) :
    (s.onFill E id qty price trade ts).om = s.om.dropEvent := by
  obtain ⟨hcur, hseen⟩ := h.2 hn
  have hok : s.om.validate id ⟨.Fill, trade, qty, price⟩ ≠ .Ok := fun hok => by
    obtain ⟨-, hopen, hnew, -⟩ := validate_fill_ok_iff.1 hok
    exact hnew (hseen hopen)
  have hunknown : s.om.validate id ⟨.Fill, trade, qty, price⟩ ≠ .UnknownOrder := fun hunk => by
    rw [validate_eq_unknown_iff, hcur] at hunk
    cases hunk
  rw [onFill_drop rfl hok hunknown, dropEvent_om]

end Step

section Runs

variable {W : Type} {E : Env W} {s : State W}

/-- After an accepted fill, and any run that does not release the slot, the same trade id is
refused for the same id. -/
theorem duplicate_refused {P : Policy} (hmoves : P.moves) (hwf : s.om.WF) {id : OrderIdRaw}
    {qty : Quantity} {price : Price} {trade : TradeId} {ts : Timestamp}
    (hok : s.om.validate id ⟨.Fill, trade, qty, price⟩ = .Ok)
    (haddr : P.addresses (s.om.orderRef id).internalId id) {ops : List Op}
    (hops : (machine E).Admits P.Allows (s.step E (.fill id qty price trade ts)) ops)
    (hrel : ((machine E).run (s.step E (.fill id qty price trade ts)) ops).om.pool.history.releases
      (slotOf id) = s.om.pool.history.releases (slotOf id)) (qty' : Quantity) (price' : Price)
    (ts' : Timestamp) :
    let s' := (machine E).run (s.step E (.fill id qty price trade ts)) ops
    (s'.onFill E id qty' price' trade ts').om = s'.om.dropEvent := by
  have hfill : (s.step E (.fill id qty price trade ts)).om = s.om.fill id qty price trade ts :=
    onFill_ok_om hok
  have happly : Change P s.om (s.om.applyFill id qty price trade ts) := .fill hmoves haddr hok
  have hchain := Chain.invariant (fun _ _ => remembered_step) (finish_chain hwf haddr hok)
    (happly.wf hwf) (remembered_applyFill hok)
  rw [← hfill] at hchain
  have hrun := run_changes (fun _ _ => remembered_step) hchain.1 hchain.2 hops
  exact hrun.2.refused hrel qty' price' ts'

/-- **Fills are applied exactly once.** After every run whose requests ask for a positive size, the
net position is what every order ever created has filled, each between `0` and its size; and once
a fill is accepted, its trade id changes nothing but the counter of dropped events until the slot
of its order is released. -/
theorem fills_exactly_once (hs : Reached E sized s) :
    (∀ inst, (s.om.position inst).net =
      ((s.om.pool.created.filter fun o => o.instrument = inst).map
        fun o => signedQty o.side o.filledSize).sum) ∧
    (∀ o ∈ s.om.pool.created, 0 ≤ o.filledSize ∧ o.filledSize ≤ o.size) ∧
    ∀ id qty price trade ts ops, s.om.validate id ⟨.Fill, trade, qty, price⟩ = .Ok →
      (∀ req, Op.submit req ∈ ops → 0 < req.size) →
      let s' := (machine E).run (s.step E (.fill id qty price trade ts)) ops
      s'.om.pool.history.releases (slotOf id) = s.om.pool.history.releases (slotOf id) →
      ∀ qty' price' ts', (s'.step E (.fill id qty' price' trade ts')).om =
        { s'.om with oosDroppedCount := s'.om.oosDroppedCount + 1 } := by
  refine ⟨fun inst => ?_, hs.bounded, ?_⟩
  · rw [← OrderPool.everSum_ite]
    exact hs.netBalanced inst
  · intro id qty price trade ts ops hok hops s' hrel qty' price' ts'
    have hadm : (machine E).Admits sized.Allows (s.step E (.fill id qty price trade ts)) ops :=
      admits_of_requests trivial hops (fun _ _ => trivial) _
    exact duplicate_refused trivial hs.wf hok trivial hadm hrel qty' price' ts'

end Runs

/-- A partial fill, then a cancel, then the same trade again. -/
theorem fills_exactly_once_acceptingRun :
    let s := acceptingRun [.submit { instrument := 7, size := 10, price := 5 }]
    let s' := (machine acceptingEnv).run (s.step acceptingEnv (.fill 1 4 5 9 0)) [.cancelAck 1 0]
    (s'.step acceptingEnv (.fill 1 2 6 9 0)).om =
      { s'.om with oosDroppedCount := s'.om.oosDroppedCount + 1 } :=
  (fills_exactly_once (acceptingRun_reached trivial (by simp [sized]) fun _ _ => trivial)).2.2
    1 4 5 9 0 [.cancelAck 1 0] (by decide) (by simp) rfl 2 6 0

end Oms
