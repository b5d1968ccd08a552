import Oms.OrderManager.Books

/-!
# Which order an inbound id reaches

An id reaches the order stored in the slot it decodes to if the slot is allocated and the
generations agree; its venue and sequence bits are not compared.

* `Stamped`: every stored order carries an id of its own slot and generation;
* `Exact`: the id reaches no order, or agrees in venue and sequence with the id of the order it
  reaches;
* `LogsOnly`: what a dropped event does to the world.
-/

namespace Oms

open OrderManager Relation

/-! ### Stored ids -/

/-- Every stored order carries an id that decodes to its slot and the generation of the slot. -/
def Stamped (om : OrderManager) : Prop :=
  ∀ slot, om.pool.allocated slot = true → slotOf (om.pool.slots slot).internalId = slot ∧
    (decodeOrderId (om.pool.slots slot).internalId).generation = om.pool.generation slot

/-- An order with this id has been created. -/
def Minted (om : OrderManager) (id : OrderIdRaw) : Prop :=
  ∃ o ∈ om.pool.created, o.internalId = id

section Stamped

variable {P : Policy} {om om' : OrderManager} {id : OrderIdRaw} {f : Order → Order}

theorem stamped_init (capacity : PoolCapacity) : Stamped (init capacity) :=
  fun slot h => by simp [init, OrderPool.init] at h

/-- A write that keeps the id of the order. -/
theorem Stamped.write (h : Stamped om) (hf : ∀ o : Order, (f o).internalId = o.internalId) :
    Stamped (om.modifyOrder id f) := by
  intro slot halloc
  have hid : ((om.modifyOrder id f).pool.slots slot).internalId =
      (om.pool.slots slot).internalId := by
    by_cases hslot : slot = slotOf id
    · subst hslot
      rw [modifyOrder, OrderPool.modify_slots_self, hf]
    · rw [modifyOrder, OrderPool.modify_slots_of_ne hslot]
  rw [hid]
  exact h slot halloc

theorem stamped_step (hwf : om.WF) (h : Stamped om) (hchange : Change P om om') :
    Stamped om' := by
  cases hchange with
  | quiet d => exact h
  | forgive id => exact h
  | touch hlive hf => exact h.write fun o => (hf.keeps o).internalId
  | fill hmoves haddr hok => exact h.write fun _ => rfl
  | settle hmoves hlive hf => exact h.write fun o => (hf.keeps o).internalId
  | expect haddr hended => exact h
  | shelve hended => exact h
  | releaseHead hfifo =>
    intro slot halloc
    obtain ⟨hne, halloc'⟩ := OrderPool.allocated_of_release halloc
    have hgen := OrderPool.release_generation_of_ne (p := om.pool) hne
    exact ⟨(h slot halloc').1, (h slot halloc').2.trans hgen.symm⟩
  | @reserve _ req venue now id hreq hres =>
    obtain ⟨pool, hacq, hid, rfl⟩ := hwf.reserve_cases hres
    obtain ⟨rest, -, rfl⟩ := OrderPool.acquire_cases hacq
    intro slot halloc
    by_cases hslot : slot = slotOf id
    · subst hslot
      rw [booked, OrderPool.modify_slots_self]
      exact ⟨rfl, generation_of_eq_encodeOrderId hid⟩
    · have halloc' : om.pool.allocated slot = true := by
        simpa [booked, hslot] using halloc
      rw [booked, OrderPool.modify_slots_of_ne hslot]
      simpa [hslot] using h slot halloc'

/-- No order is forgotten: writes that keep ids, and new orders, keep what was minted. -/
theorem minted_step (hwf : om.WF) (hchange : Change P om om') (h : Minted om id) :
    Minted om' id := by
  have hwrite : ∀ (id' : OrderIdRaw) (f : Order → Order),
      (∀ o : Order, (f o).internalId = o.internalId) →
        ∃ o ∈ (om.pool.modify (slotOf id') f).created, o.internalId = id := by
    intro id' f hf
    obtain ⟨o, ho, rfl⟩ := h
    rcases OrderPool.mem_created.1 ho with hrec | ⟨slot, hused, rfl⟩
    · exact ⟨o, OrderPool.mem_created.2 (Or.inl hrec), rfl⟩
    · refine ⟨_, OrderPool.mem_created.2 (Or.inr ⟨slot, hused, rfl⟩), ?_⟩
      by_cases hslot : slot = slotOf id'
      · subst hslot
        rw [OrderPool.modify_slots_self, hf]
      · rw [OrderPool.modify_slots_of_ne hslot]
  cases hchange with
  | quiet d => exact h
  | forgive id => exact h
  | touch hlive hf => exact hwrite _ _ fun o => (hf.keeps o).internalId
  | fill hmoves haddr hok => exact hwrite _ _ fun _ => rfl
  | settle hmoves hlive hf => exact hwrite _ _ fun o => (hf.keeps o).internalId
  | expect haddr hended => exact h
  | shelve hended => exact h
  | releaseHead hfifo => exact h
  | @reserve _ req venue now id' hreq hres =>
    obtain ⟨pool, hacq, hid, rfl⟩ := hwf.reserve_cases hres
    obtain ⟨o, ho, rfl⟩ := h
    refine ⟨o, ?_, rfl⟩
    rw [booked, OrderPool.created_acquire_modify hacq]
    exact Multiset.mem_cons_of_mem ho

/-- The id of a stored order was minted. -/
theorem minted_orderRef (hwf : om.WF) (hcur : om.pool.isCurrent id = true) :
    Minted om (om.orderRef id).internalId :=
  ⟨_, hwf.pool.slot_mem_created (OrderPool.isCurrent_iff.1 hcur).2.1, rfl⟩

end Stamped

/-! ### Exact ids -/

/-- Two ids agree in the bits that the lookup does not compare. -/
def SameTail (internalId id : OrderIdRaw) : Prop :=
  (decodeOrderId id).venue = (decodeOrderId internalId).venue ∧
    (decodeOrderId id).sequence = (decodeOrderId internalId).sequence

/-- The id reaches no order, or agrees in venue and sequence with the id of the order it reaches. -/
def Exact (om : OrderManager) (id : OrderIdRaw) : Prop :=
  om.pool.isCurrent id = true → SameTail (om.orderRef id).internalId id

/-- Inbound events carry exact ids. -/
def exact : Policy := { addresses := SameTail }

section Exact

variable {P : Policy} {om om' : OrderManager} {id : OrderIdRaw}

/-- An id that reaches an order and agrees with its id in venue and sequence is its id. -/
theorem Stamped.eq_internalId (h : Stamped om) (hcur : om.pool.isCurrent id = true)
    (htail : SameTail (om.orderRef id).internalId id) : id = (om.orderRef id).internalId := by
  obtain ⟨-, halloc, hgen⟩ := OrderPool.isCurrent_iff.1 hcur
  obtain ⟨hslot, hgen'⟩ := h _ halloc
  have hgeneration := hgen'.trans hgen
  have hslot' : (decodeOrderId (om.orderRef id).internalId).slot = (decodeOrderId id).slot :=
    UInt32.toNat.inj hslot
  obtain ⟨hvenue, hsequence⟩ := htail
  apply decodeOrderId_injective
  cases hd : decodeOrderId id
  cases hd' : decodeOrderId (om.orderRef id).internalId
  simp_all [orderRef]

/-- An id is always recognised as the id of the order it reaches exactly if it is exact. -/
theorem Stamped.validate_iff_exact (h : Stamped om) :
    (∀ ev, om.validate id ev ≠ .UnknownOrder → id = (om.orderRef id).internalId) ↔
      Exact om id := by
  constructor
  · intro hval hcur
    have heq : id = (om.orderRef id).internalId := hval {} fun hunk => by
      rw [validate_eq_unknown_iff, hcur] at hunk
      cases hunk
    rw [← heq]
    exact ⟨rfl, rfl⟩
  · intro hexact ev hval
    have hcur : om.pool.isCurrent id = true := by
      rw [Ne, validate_eq_unknown_iff] at hval
      simpa using hval
    exact h.eq_internalId hcur (hexact hcur)

/-- Only minted ids wait for a benign cancel-reject. -/
def ExpectedMinted (om : OrderManager) : Prop :=
  ∀ id ∈ om.expectedFalseCancelRejects, Minted om id

theorem expectedMinted_step (hwf : om.WF) (hstamped : Stamped om) (h : ExpectedMinted om)
    (hchange : Change exact om om') : ExpectedMinted om' := by
  intro id hid
  refine minted_step hwf hchange ?_
  cases hchange with
  | quiet d => exact h id hid
  | forgive id' => exact h id (Finset.mem_of_mem_erase hid)
  | touch hlive hf => exact h id hid
  | fill hmoves haddr hok => exact h id hid
  | settle hmoves hlive hf => exact h id hid
  | @expect id' haddr hended =>
    rcases Finset.mem_insert.1 hid with rfl | hid
    · rw [hstamped.eq_internalId hended.current haddr]
      exact minted_orderRef hwf hended.current
    · exact h id hid
  | shelve hended => exact h id hid
  | releaseHead hfifo => exact h id (Finset.mem_of_mem_erase hid)
  | reserve hreq hres =>
    obtain ⟨pool, hacq, -, rfl⟩ := hwf.reserve_cases hres
    exact h id hid

end Exact

/-! ### Dropped events -/

/-- The world saw log lines and nothing else. -/
def LogsOnly {W : Type} (E : Env W) : W → W → Prop :=
  ReflTransGen fun w w' => ∃ level line, w' = E.log level line w

section Dropped

variable {W : Type} {E : Env W} {s : State W} {id : OrderIdRaw}

theorem dropEvent_logsOnly (kind : EventKind) (vr : ValidationResult) (ts : Timestamp) :
    LogsOnly E s.world (s.dropEvent E id kind vr ts).world :=
  .single ⟨_, _, rfl⟩

theorem tripKillSwitch_logsOnly (reason : String) :
    LogsOnly E s.world (s.tripKillSwitch E reason).world := by
  unfold State.tripKillSwitch
  split_ifs
  · exact .refl
  · exact .single ⟨_, _, rfl⟩

/-- Nothing but flags, counters and the log changes. -/
structure Untouched (E : Env W) (s s' : State W) : Prop where
  om : s'.om = s.om.withDiagnostics s'.om
  world : LogsOnly E s.world s'.world

theorem dropEvent_untouched (kind : EventKind) (vr : ValidationResult) (ts : Timestamp) :
    Untouched E s (s.dropEvent E id kind vr ts) :=
  ⟨rfl, dropEvent_logsOnly kind vr ts⟩

theorem tripKillSwitch_untouched (reason : String) :
    Untouched E s (s.tripKillSwitch E reason) := by
  refine ⟨?_, tripKillSwitch_logsOnly reason⟩
  rw [tripKillSwitch_om]
  unfold OrderManager.tripKillSwitch
  split_ifs <;> rfl

/-- An inbound event whose id reaches no order, and which is no benign cancel-reject, leaves
everything but flags, counters and the log alone. -/
theorem step_untouched {op : Op} (hop : op.inboundId = some id)
    (hcur : s.om.pool.isCurrent id = false) (hexp : id ∉ s.om.expectedFalseCancelRejects) :
    Untouched E s (s.step E op) := by
  have hunknown : ∀ ev, s.om.validate id ev = .UnknownOrder := fun ev =>
    validate_eq_unknown_iff.2 hcur
  cases op with
  | confirm id' exchId ts =>
    cases hop
    show Untouched E s (s.onConfirm E id exchId ts)
    rw [onConfirm_drop (hunknown _) (by decide)]
    exact dropEvent_untouched _ _ _
  | fill id' qty price trade ts =>
    cases hop
    show Untouched E s (s.onFill E id qty price trade ts)
    unfold State.onFill
    rw [hunknown]
    dsimp only
    split_ifs
    · have htrip := tripKillSwitch_untouched (E := E)
        (s := { s.dropEvent E id .Fill .UnknownOrder ts with
          om := { s.om.dropEvent with
            unknownFillCount := s.om.dropEvent.unknownFillCount + 1
            reconcileRequested := true } })
        ("ORDER_FILLED_NOT_IN_SYSTEM recurred id=" ++ toString id)
      refine ⟨htrip.om.trans rfl, .trans ?_ htrip.world⟩
      exact dropEvent_logsOnly (E := E) .Fill .UnknownOrder ts
    · exact ⟨rfl, dropEvent_logsOnly (E := E) .Fill .UnknownOrder ts⟩
  | reject id' reason ts =>
    cases hop
    show Untouched E s (s.onReject E id reason ts)
    by_cases hreason : reason = .CancelRejected
    · unfold State.onReject
      rw [if_pos hreason, onCancelReject_drop hexp (hunknown _) (by decide)]
      exact dropEvent_untouched _ _ _
    · rw [onReject_drop hreason (hunknown _) (by decide)]
      exact dropEvent_untouched _ _ _
  | cancelAck id' ts =>
    cases hop
    show Untouched E s (s.finishCancel E id ts .CancelAck .Cancelled false)
    rw [finishCancel_drop (hunknown _) (by decide)]
    exact dropEvent_untouched _ _ _
  | unsolicitedCancel id' ts =>
    cases hop
    show Untouched E s (s.finishCancel E id ts .UnsolicitedCancel .UnsolicitedCancel true)
    rw [finishCancel_drop (hunknown _) (by decide)]
    exact dropEvent_untouched _ _ _
  | _ => cases hop

end Dropped

/-! ### Every run -/

section Runs

variable {W : Type} {E : Env W} {s : State W}

theorem Reached.stamped {P : Policy} (hs : Reached E P s) : Stamped s.om :=
  (hs.invariant stamped_init fun _ _ => stamped_step).2

theorem Reached.expectedMinted (hs : Reached E exact s) : ExpectedMinted s.om := by
  refine (Reached.invariant (I := fun om => Stamped om ∧ ExpectedMinted om) ?_ ?_ hs).2.2
  · intro capacity
    exact ⟨stamped_init capacity, fun id hid => absurd hid (Finset.notMem_empty id)⟩
  · intro om om' hwf ⟨hstamped, h⟩ hchange
    exact ⟨stamped_step hwf hstamped hchange, expectedMinted_step hwf hstamped h hchange⟩

/-- **An exact id touches only its own order.** In every reachable state an id is recognised only
as the id of the order it reaches exactly if it is exact; and along every run whose inbound
events carry exact ids, an event with an id that was never minted changes no order, no
position, not the live index, and does nothing to the world but log. -/
theorem inbound_touches_only_its_order (E : Env W) :
    (∀ s, Reached E {} s → ∀ id,
      (∀ ev, s.om.validate id ev ≠ .UnknownOrder → id = (s.om.orderRef id).internalId) ↔
        Exact s.om id) ∧
    ∀ s, Reached E exact s → ∀ op id, op.inboundId = some id → Exact s.om id → ¬ Minted s.om id →
      (s.step E op).om.pool = s.om.pool ∧ (s.step E op).om.positions = s.om.positions ∧
        (s.step E op).om.live = s.om.live ∧ LogsOnly E s.world (s.step E op).world := by
  refine ⟨fun s hs id => hs.stamped.validate_iff_exact, ?_⟩
  intro s hs op id hop hexact hnew
  have hwf : s.om.WF := hs.wf
  have hcur : s.om.pool.isCurrent id = false := by
    rw [← Bool.not_eq_true]
    intro hcur
    refine hnew ?_
    rw [hs.stamped.eq_internalId hcur (hexact hcur)]
    exact minted_orderRef hwf hcur
  have hexp : id ∉ s.om.expectedFalseCancelRejects := fun hid => hnew (hs.expectedMinted id hid)
  obtain ⟨hom, hworld⟩ := step_untouched (E := E) hop hcur hexp
  refine ⟨?_, ?_, ?_, hworld⟩
  all_goals rw [hom]; rfl

end Runs

/-- The id of the first order, with another sequence number, is let through. -/
theorem alias_recognised :
    ¬ ∀ s, Reached acceptingEnv {} s → ∀ id ev,
      s.om.validate id ev ≠ .UnknownOrder → id = (s.om.orderRef id).internalId := by
  intro h
  have hs : Reached acceptingEnv {}
      (acceptingRun [.submit { instrument := 7, size := 10, price := 5 }]) :=
    acceptingRun_reached trivial (fun _ _ => trivial) fun _ _ => trivial
  exact absurd (h _ hs 2 ⟨.Fill, 9, 4, 5⟩ (by decide)) (by decide)

end Oms
