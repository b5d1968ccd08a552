import Oms.OrderManager.Identity

/-!
# Terminal orders

* `Frozen`: a record that stays as it is until its slot is released; `frozen_step`: a terminal
  record does;
* `step_refused`: an event that reaches no working order changes no position and no pending
  quantity;
* `Names`: what it is for an id to name the order that held a slot;
* `terminal_absorbing`: nothing that names a terminal order changes anything.
-/

namespace Oms

open OrderManager

/-- As long as `slot` was not released after the `n`-th time, it holds the record `o`. -/
def Frozen (slot n : ℕ) (o : Order) (om : OrderManager) : Prop :=
  n ≤ om.pool.history.releases slot ∧
    (om.pool.history.releases slot = n →
      om.pool.allocated slot = true ∧ om.pool.slots slot = o)

section Frozen

variable {P : Policy} {om om' : OrderManager} {slot n : ℕ} {o : Order}

/-- A write to a working order does not reach a terminal record. -/
theorem Frozen.write (h : Frozen slot n o om) (ho : ¬ o.Open) {id : OrderIdRaw} {f : Order → Order}
    (hopen : (om.orderRef id).Open) (hpool : om'.pool = om.pool.modify (slotOf id) f) :
    Frozen slot n o om' := by
  unfold Frozen
  rw [hpool]
  refine ⟨h.1, fun hn => ?_⟩
  obtain ⟨halloc, hslot⟩ := h.2 hn
  refine ⟨halloc, ?_⟩
  have hne : slot ≠ slotOf id := by
    rintro rfl
    rw [orderRef, hslot] at hopen
    exact ho hopen
  rw [OrderPool.modify_slots_of_ne hne]
  exact hslot

/-- A terminal record stays as it is, until its slot is released. -/
theorem frozen_step (ho : ¬ o.Open) (hwf : om.WF) (h : Frozen slot n o om)
    (hchange : Change P om om') : Frozen slot n o om' := by
  cases hchange with
  | quiet d => exact h
  | forgive id => exact h
  | touch hlive hf => exact h.write ho hlive.isOpen rfl
  | fill hmoves haddr hok => exact h.write ho (validate_fill_ok_iff.1 hok).2.1 rfl
  | @settle id f hmoves hlive hf => exact h.write (f := f) ho hlive.isOpen rfl
  | expect haddr hended => exact h
  | shelve hended => exact h
  | @releaseHead old rest hfifo =>
    unfold Frozen
    by_cases hslot : slot = slotOf old
    · have hrel : (om.releaseHead old rest).pool.history.releases slot =
          om.pool.history.releases slot + 1 := by
        simp [OrderManager.releaseHead, OrderPool.release, hslot]
      rw [hrel]
      exact ⟨Nat.le_succ_of_le h.1, fun hn => absurd (hn ▸ h.1) (Nat.not_succ_le_self _)⟩
    · have hrel : (om.releaseHead old rest).pool.history.releases slot =
          om.pool.history.releases slot := by
        simp [OrderManager.releaseHead, OrderPool.release, hslot]
      have halloc := OrderPool.release_allocated_of_ne (p := om.pool) hslot
      rw [hrel]
      exact ⟨h.1, fun hn => ⟨halloc.trans (h.2 hn).1, (h.2 hn).2⟩⟩
  | @reserve _ req venue now id hreq hres =>
    obtain ⟨pool, hacq, -, rfl⟩ := hwf.reserve_cases hres
    have hfree := (hwf.pool.acquire_free hacq).2
    obtain ⟨rest, -, rfl⟩ := OrderPool.acquire_cases hacq
    refine ⟨h.1, fun hn => ?_⟩
    obtain ⟨halloc, hrecord⟩ := h.2 hn
    -- the slot handed out was free
    have hslot : slot ≠ slotOf id := by
      rintro rfl
      rw [hfree] at halloc
      cases halloc
    exact ⟨by simpa [booked, hslot] using halloc, by simpa [booked, OrderPool.modify, hslot]
      using hrecord⟩

end Frozen

/-! ### Events that reach no working order -/

/-- No position and no pending quantity differs. -/
structure SameBooks (om om' : OrderManager) : Prop where
  positions : om'.positions = om.positions
  pending : om'.pendingSigned = om.pendingSigned

section Refused

variable {W : Type} {E : Env W} {s : State W} {id : OrderIdRaw}

theorem tripKillSwitch_books (om : OrderManager) (reason : String) :
    SameBooks om (om.tripKillSwitch reason) := by
  unfold OrderManager.tripKillSwitch
  split_ifs <;> exact ⟨rfl, rfl⟩

theorem dropEvent_books (id : OrderIdRaw) (kind : EventKind) (vr : ValidationResult)
    (ts : Timestamp) : SameBooks s.om (s.dropEvent E id kind vr ts).om := ⟨rfl, rfl⟩

variable (hnot : ¬ s.om.Live id)
include hnot

theorem onFill_refused (qty : Quantity) (price : Price) (trade : TradeId) (ts : Timestamp) :
    SameBooks s.om (s.onFill E id qty price trade ts).om := by
  unfold State.onFill
  split
  · rename_i hok
    obtain ⟨hcur, hopen, -⟩ := validate_fill_ok_iff.1 hok
    exact absurd ⟨hcur, hopen⟩ hnot
  · dsimp only
    split_ifs
    · rw [tripKillSwitch_om]
      exact ⟨(tripKillSwitch_books _ _).positions, (tripKillSwitch_books _ _).pending⟩
    · exact ⟨rfl, rfl⟩
  · exact dropEvent_books _ _ _ _

/-- The other events check for a working order as well. -/
theorem validate_not_ok {kind : EventKind} (hkind : kind ≠ .Fill) :
    s.om.validate id { kind := kind } ≠ .Ok := fun hok =>
  hnot ⟨((validate_ok_iff hkind).1 hok).1, ((validate_ok_iff hkind).1 hok).2⟩

theorem onConfirm_refused (exchId : ExchangeOrderId) (ts : Timestamp) :
    SameBooks s.om (s.onConfirm E id exchId ts).om := by
  rw [onConfirm_drop rfl (validate_not_ok hnot (by decide))]
  exact dropEvent_books _ _ _ _

theorem onReject_refused (reason : RejectReason) (ts : Timestamp) :
    SameBooks s.om (s.onReject E id reason ts).om := by
  by_cases hreason : reason = .CancelRejected
  · unfold State.onReject
    rw [if_pos hreason]
    by_cases hexp : id ∈ s.om.expectedFalseCancelRejects
    · unfold State.onCancelReject
      rw [if_pos hexp]
      exact ⟨rfl, rfl⟩
    · rw [onCancelReject_drop hexp rfl (validate_not_ok hnot (by decide))]
      exact dropEvent_books _ _ _ _
  · rw [onReject_drop hreason rfl (validate_not_ok hnot (by decide))]
    exact dropEvent_books _ _ _ _

theorem finishCancel_refused {kind : EventKind} (hkind : kind ≠ .Fill) (pub : OrderEventKind)
    (unsolicited : Bool) (ts : Timestamp) :
    SameBooks s.om (s.finishCancel E id ts kind pub unsolicited).om := by
  rw [finishCancel_drop rfl (validate_not_ok hnot hkind)]
  exact dropEvent_books _ _ _ _

/-- An event that reaches no working order changes no position and no pending quantity. -/
theorem step_refused {op : Op} (hop : op.inboundId = some id) :
    SameBooks s.om (s.step E op).om := by
  cases op with
  | confirm id' exchId ts =>
    cases hop
    exact onConfirm_refused hnot exchId ts
  | fill id' qty price trade ts =>
    cases hop
    exact onFill_refused hnot qty price trade ts
  | reject id' reason ts =>
    cases hop
    exact onReject_refused hnot reason ts
  | cancelAck id' ts =>
    cases hop
    exact finishCancel_refused hnot (by decide) _ _ ts
  | unsolicitedCancel id' ts =>
    cases hop
    exact finishCancel_refused hnot (by decide) _ _ ts
  | _ => cases hop

end Refused

/-! ### What names a terminal order -/

/-- The id names an order that held `slot` when it had been released `n` times, and no later one: it
is of that slot, and stale as soon as the slot was released again. -/
def Names (om : OrderManager) (slot n : ℕ) (id : OrderIdRaw) : Prop :=
  slotOf id = slot ∧ (om.pool.isCurrent id = true → om.pool.history.releases slot = n)

section Absorbing

variable {W : Type} {E : Env W} {s : State W} {slot : ℕ}

/-- A run from a reached state, without a policy. -/
theorem Reached.run_frozen (hs : Reached E {} s) (halloc : s.om.pool.allocated slot = true)
    (hterm : isTerminal (s.om.pool.slots slot).status = true) (after : List Op) :
    let om := ((machine E).run s after).om
    om.WF ∧ Frozen slot (s.om.pool.history.releases slot) (s.om.pool.slots slot) om := by
  have ho : ¬ (s.om.pool.slots slot).Open := fun hopen => by
    rw [Order.Open, hterm] at hopen
    cases hopen
  have hops : (machine E).Admits (Policy.Allows {}) s after :=
    admits_of_requests trivial (fun _ _ => trivial) (fun _ _ => trivial) s
  exact run_changes (fun _ _ => frozen_step ho) hs.wf ⟨le_refl _, fun _ => ⟨halloc, rfl⟩⟩ hops

/-- An id that names a terminal order reaches no working order. -/
theorem Names.not_live {om : OrderManager} {n : ℕ} {o : Order} {id : OrderIdRaw}
    (hnames : Names om slot n id) (hfrozen : Frozen slot n o om) (ho : ¬ o.Open) :
    ¬ om.Live id := by
  intro hlive
  have hrecord := (hfrozen.2 (hnames.2 hlive.current)).2
  have hopen := hlive.isOpen
  rw [orderRef, hnames.1, hrecord] at hopen
  exact ho hopen

/-- The id of an order names it, until its slot was released so often that its generation came
round. -/
theorem names_internalId (hs : Reached E {} s) (halloc : s.om.pool.allocated slot = true)
    {om : OrderManager} (hwf : om.WF)
    (hle : s.om.pool.history.releases slot ≤ om.pool.history.releases slot)
    (hlt : om.pool.history.releases slot < s.om.pool.history.releases slot + 2 ^ 16) :
    Names om slot (s.om.pool.history.releases slot) (s.om.pool.slots slot).internalId := by
  obtain ⟨hslot, hgen⟩ := hs.stamped slot halloc
  refine ⟨hslot, fun hcur => ?_⟩
  have hgen' := (OrderPool.isCurrent_iff.1 hcur).2.2
  rw [hslot, hgen, hwf.pool.generation_eq, hs.wf.pool.generation_eq] at hgen'
  have hmod := congrArg UInt16.toNat hgen'
  rw [UInt16.toNat_ofNat', UInt16.toNat_ofNat'] at hmod
  omega

/-- **Terminal is absorbing.** Once an order is terminal, between two operations of any run, its
record stays as it is, field by field, until its slot is released; and no event naming the order
changes any position or pending quantity, before its slot is released or after. Its own id names it
until the slot was released 65536 times. -/
theorem terminal_absorbing (hs : Reached E {} s) (halloc : s.om.pool.allocated slot = true)
    (hterm : isTerminal (s.om.pool.slots slot).status = true) (after : List Op) :
    let n := s.om.pool.history.releases slot
    let s' := (machine E).run s after
    (s'.om.pool.history.releases slot = n →
      s'.om.pool.allocated slot = true ∧ s'.om.pool.slots slot = s.om.pool.slots slot) ∧
    (∀ op id, op.inboundId = some id → Names s'.om slot n id →
      SameBooks s'.om (s'.step E op).om) ∧
    (s'.om.pool.history.releases slot < n + 2 ^ 16 →
      Names s'.om slot n (s.om.pool.slots slot).internalId) := by
  intro n s'
  obtain ⟨hwf, hfrozen⟩ := hs.run_frozen halloc hterm after
  have ho : ¬ (s.om.pool.slots slot).Open := fun hopen => by
    rw [Order.Open, hterm] at hopen
    cases hopen
  refine ⟨hfrozen.2, fun op id hop hnames => ?_, names_internalId hs halloc hwf hfrozen.1⟩
  exact step_refused (hnames.not_live hfrozen ho) hop

end Absorbing

/-- A filled order, a cancel and a second fill of it. -/
theorem terminal_absorbing_filled :
    let s := acceptingRun [.submit { instrument := 7, size := 10, price := 5 }, .fill 1 10 5 9 0]
    let s' := (machine acceptingEnv).run s [.cancel 1, .cancelAck 1 0]
    s'.om.pool.slots 0 = s.om.pool.slots 0 ∧
      SameBooks s'.om (s'.step acceptingEnv (.fill 1 3 5 10 0)).om := by
  let ops : List Op := [.submit { instrument := 7, size := 10, price := 5 }, .fill 1 10 5 9 0]
  have hs : Reached acceptingEnv {} (acceptingRun ops) :=
    acceptingRun_reached trivial (fun _ _ => trivial) fun _ _ => trivial
  have halloc : (acceptingRun ops).om.pool.allocated 0 = true := by decide
  have habsorbing := terminal_absorbing hs halloc (by decide) [.cancel 1, .cancelAck 1 0]
  exact ⟨(habsorbing.1 rfl).2, habsorbing.2.1 _ 1 rfl ⟨by decide, fun _ => rfl⟩⟩

end Oms
