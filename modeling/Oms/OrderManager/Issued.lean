import Oms.OrderManager.Identity

/-!
# Ids that were handed out

* `Issued`: the slot and generation of an id were handed out, and no other order has them;
* `Unwrapped`: no slot was released so often that its generation came round again;
* `not_issued_of_acquire`, `issued_booked`: a new id was never handed out before;
* `id_ne_zero`: nor is it `0`, which `submit` returns for a failure.
-/

namespace Oms

open OrderManager Relation

/-- The slot of an id was handed out under its generation, and the order found there, as long as it
is current, is that of the id. -/
structure Issued (om : OrderManager) (id : OrderIdRaw) : Prop where
  past : (decodeOrderId id).generation.toNat < om.pool.history.releases (slotOf id) ∨
    (decodeOrderId id).generation.toNat = om.pool.history.releases (slotOf id) ∧
      om.pool.allocated (slotOf id) = true
  own : om.pool.isCurrent id = true → (om.orderRef id).internalId = id

/-- No slot was released so often that its generation came round again. -/
def Unwrapped (om : OrderManager) : Prop := ∀ slot, om.pool.history.releases slot < 2 ^ 16

section Issued

variable {P : Policy} {om om' : OrderManager} {id k : OrderIdRaw}

/-- Releases are only ever added. -/
theorem Change.releases_le (hwf : om.WF) (hchange : Change P om om') (slot : ℕ) :
    om.pool.history.releases slot ≤ om'.pool.history.releases slot := by
  cases hchange with
  | @releaseHead old rest hfifo =>
    show _ ≤ Function.update om.pool.history.releases (slotOf old) _ slot
    by_cases h : slot = slotOf old
    · subst h
      rw [Function.update_self]
      exact Nat.le_succ _
    · rw [Function.update_of_ne h]
  | reserve hreq hres =>
    obtain ⟨pool, hacq, -, rfl⟩ := hwf.reserve_cases hres
    obtain ⟨rest, -, rfl⟩ := OrderPool.acquire_cases hacq
    exact le_refl _
  | _ => exact le_refl _

theorem Change.unwrapped (hwf : om.WF) (hchange : Change P om om') (h : Unwrapped om') :
    Unwrapped om := fun slot => (hchange.releases_le hwf slot).trans_lt (h slot)

/-- The generation of a slot, before it comes round, is the number of its releases. -/
theorem OrderManager.WF.generation_toNat (hwf : om.WF) (h : Unwrapped om) (slot : ℕ) :
    (om.pool.generation slot).toNat = om.pool.history.releases slot := by
  rw [hwf.pool.generation_eq, UInt16.toNat_ofNat']
  exact Nat.mod_eq_of_lt (h slot)

/-- A write that keeps the id of an order keeps what was handed out. -/
theorem Issued.write (h : Issued om id) {f : Order → Order}
    (hf : ∀ o : Order, (f o).internalId = o.internalId)
    (hpool : om'.pool = om.pool.modify (slotOf k) f) : Issued om' id := by
  refine ⟨by rw [hpool]; exact h.past, fun hcur => ?_⟩
  rw [hpool] at hcur
  refine Eq.trans ?_ (h.own hcur)
  rw [orderRef, hpool, orderRef]
  by_cases hslot : slotOf id = slotOf k
  · rw [hslot, OrderPool.modify_slots_self, hf]
  · rw [OrderPool.modify_slots_of_ne hslot]

/-- What was handed out stays handed out, and is not handed out again. -/
theorem issued_step (hwf : om.WF) (hunwrapped : Unwrapped om) (h : Issued om id)
    (hchange : Change P om om') : Issued om' id := by
  cases hchange with
  | quiet d => exact ⟨h.past, h.own⟩
  | forgive k => exact ⟨h.past, h.own⟩
  | touch hlive hf => exact h.write (fun o => (hf.keeps o).internalId) rfl
  | @fill k qty price _ ts hmoves haddr hok =>
    exact h.write (f := Order.addFill qty price ts) (fun _ => rfl) rfl
  | @settle k f hmoves hlive hf => exact h.write (f := f) (fun o => (hf.keeps o).internalId) rfl
  | expect haddr hended => exact ⟨h.past, h.own⟩
  | shelve hended => exact ⟨h.past, h.own⟩
  | @releaseHead old rest hfifo =>
    by_cases hslot : slotOf id = slotOf old
    · have hrel : (om.releaseHead old rest).pool.history.releases (slotOf id) =
          om.pool.history.releases (slotOf id) + 1 := by
        simp [OrderManager.releaseHead, OrderPool.release, hslot]
      refine ⟨Or.inl ?_, fun hcur => ?_⟩
      · rw [hrel]
        rcases h.past with hlt | ⟨heq, -⟩ <;> omega
      · have halloc := (OrderPool.isCurrent_iff.1 hcur).2.1
        simp [OrderManager.releaseHead, hslot] at halloc
    · have hrel : (om.releaseHead old rest).pool.history.releases (slotOf id) =
          om.pool.history.releases (slotOf id) := by
        simp [OrderManager.releaseHead, OrderPool.release, hslot]
      have halloc := OrderPool.release_allocated_of_ne (p := om.pool) hslot
      refine ⟨?_, fun hcur => h.own ?_⟩
      · rw [hrel]
        exact h.past.imp_right fun hpast => ⟨hpast.1, halloc.trans hpast.2⟩
      · exact (OrderPool.isCurrent_release hslot).symm.trans hcur
  | @reserve _ req venue now k hreq hres =>
    obtain ⟨pool, hacq, -, rfl⟩ := hwf.reserve_cases hres
    have hfree := (hwf.pool.acquire_free hacq).2
    obtain ⟨rest, -, rfl⟩ := OrderPool.acquire_cases hacq
    by_cases hslot : slotOf id = slotOf k
    · -- the slot handed out is free, so the id is of an earlier generation
      have hpast : (decodeOrderId id).generation.toNat < om.pool.history.releases (slotOf id) := by
        rcases h.past with hlt | ⟨-, halloc⟩
        · exact hlt
        · rw [hslot, hfree] at halloc
          cases halloc
      refine ⟨Or.inl hpast, fun hcur => ?_⟩
      have hgen := (OrderPool.isCurrent_iff.1 hcur).2.2
      have hnum := hwf.generation_toNat hunwrapped (slotOf id)
      rw [show om.pool.generation (slotOf id) = (decodeOrderId id).generation from hgen] at hnum
      omega
    · refine ⟨h.past.imp_right fun hpast => ⟨hpast.1, ?_⟩, fun hcur => ?_⟩
      · simpa [booked, hslot] using hpast.2
      · have hcur' : om.pool.isCurrent id = true := by
          rw [OrderPool.isCurrent_iff] at hcur ⊢
          simpa [booked, hslot] using hcur
        refine Eq.trans ?_ (h.own hcur')
        simp [booked, orderRef, OrderPool.modify, hslot]

theorem Chain.issued (hchain : Chain P om om') (hwf : om.WF) (hunwrapped : Unwrapped om')
    (h : Issued om id) : Issued om' id := by
  refine (Chain.invariant (I := fun om' => Unwrapped om' → Issued om' id) ?_ hchain hwf
    fun _ => h).2 hunwrapped
  intro om₁ om₂ hwf₁ hissued hchange hunwrapped₂
  have hunwrapped₁ := hchange.unwrapped hwf₁ hunwrapped₂
  exact issued_step hwf₁ hunwrapped₁ (hissued hunwrapped₁) hchange

theorem Chain.unwrapped (hchain : Chain P om om') (hwf : om.WF) (h : Unwrapped om') :
    Unwrapped om := by
  refine (Chain.invariant (I := fun om' => Unwrapped om' → Unwrapped om) ?_ hchain hwf
    fun h => h).2 h
  exact fun om₁ om₂ hwf₁ hback hchange h₂ => hback (hchange.unwrapped hwf₁ h₂)

section Reserve

variable {req : OrderRequest} {venue : VenueId} {now : Timestamp} {pool : OrderPool} {seq : UInt16}

/-- The id of a new order was never handed out before. -/
theorem not_issued_of_acquire (hwf : om.WF) (hunwrapped : Unwrapped om)
    (hacq : om.pool.acquire = some (slotOf id, pool))
    (hid : id = encodeOrderId venue (om.pool.generation (slotOf id)) (UInt32.ofNat (slotOf id))
      seq) : ¬ Issued om id := by
  intro h
  have hnum := hwf.generation_toNat hunwrapped (slotOf id)
  rw [← generation_of_eq_encodeOrderId hid] at hnum
  rcases h.past with hlt | ⟨-, halloc⟩
  · omega
  · rw [(hwf.pool.acquire_free hacq).2] at halloc
    cases halloc

theorem issued_booked (hwf : om.WF) (hunwrapped : Unwrapped om)
    (hacq : om.pool.acquire = some (slotOf id, pool))
    (hid : id = encodeOrderId venue (om.pool.generation (slotOf id)) (UInt32.ofNat (slotOf id))
      seq) : Issued (om.booked req venue now id pool) id := by
  have hlive : (om.booked req venue now id pool).Live id := hwf.booked_live hacq hid
  have hnum := hwf.generation_toNat hunwrapped (slotOf id)
  rw [← generation_of_eq_encodeOrderId hid] at hnum
  refine ⟨Or.inr ⟨?_, hlive.allocated⟩, fun _ => ?_⟩
  · obtain ⟨rest, -, rfl⟩ := OrderPool.acquire_cases hacq
    exact hnum
  · rw [booked_orderRef]
    rfl

end Reserve

/-! ### Ids are not zero -/

/-- Slot `0` is the first to be handed out, and a slot that was handed out is held, or was
released. -/
structure Begun (om : OrderManager) : Prop where
  first : 0 ∈ om.pool.history.used ∨
    om.pool.history.used = ∅ ∧ om.pool.freeList.head? = some 0 ∧ om.venueSeq = ∅
  held : ∀ slot ∈ om.pool.history.used,
    om.pool.allocated slot = true ∨ 0 < om.pool.history.releases slot

theorem begun_init (capacity : PoolCapacity) : Begun (.init capacity) where
  first := by
    refine Or.inr ⟨rfl, ?_, rfl⟩
    show (List.range capacity.1).head? = some 0
    rw [List.head?_range, if_neg capacity.2.1.ne']
  held := nofun

theorem begun_step (hwf : om.WF) (h : Begun om) (hchange : Change P om om') : Begun om' := by
  cases hchange with
  | @releaseHead old rest hfifo =>
    have hcur := hwf.fifo_current old (by rw [hfifo]; exact List.mem_cons_self)
    have hused := hwf.pool.used_of_allocated _ (OrderPool.isCurrent_iff.1 hcur).2.1
    refine ⟨?_, fun slot hslot => ?_⟩
    · rcases h.first with hzero | ⟨hnone, -⟩
      · exact Or.inl hzero
      · rw [hnone] at hused
        exact absurd hused (Finset.notMem_empty _)
    · by_cases heq : slot = slotOf old
      · refine Or.inr ?_
        subst heq
        simp [OrderManager.releaseHead, OrderPool.release]
      · simpa [OrderManager.releaseHead, OrderPool.release, heq] using h.held slot hslot
  | reserve hreq hres =>
    obtain ⟨pool, hacq, -, rfl⟩ := hwf.reserve_cases hres
    obtain ⟨rest, hfree, rfl⟩ := OrderPool.acquire_cases hacq
    refine ⟨Or.inl ?_, fun slot hslot => ?_⟩
    · rcases h.first with hzero | ⟨-, hhead, -⟩
      · exact Finset.mem_insert_of_mem hzero
      · rw [hfree, List.head?_cons, Option.some_inj] at hhead
        show 0 ∈ insert _ om.pool.history.used
        rw [hhead]
        exact Finset.mem_insert_self _ _
    · rcases Finset.mem_insert.1 hslot with rfl | hold
      · exact Or.inl (Function.update_self ..)
      · refine (h.held slot hold).imp_left fun halloc => ?_
        show Function.update om.pool.allocated _ true slot = true
        rw [Function.update_apply, halloc, ite_self]
  | _ => exact ⟨h.first, h.held⟩

/-- A new id is not `0`, the answer of a failed submit. -/
theorem id_ne_zero (hwf : om.WF) (h : Begun om) (hunwrapped : Unwrapped om) {venue : VenueId}
    {pool : OrderPool} (hacq : om.pool.acquire = some (slotOf id, pool))
    (hid : id = encodeOrderId venue (om.pool.generation (slotOf id)) (UInt32.ofNat (slotOf id))
      (om.venueSeq.get venue + 1).toUInt16) : id ≠ 0 := by
  rintro rfl
  rcases h.first with hused | ⟨-, -, hseq⟩
  · -- slot `0` was released before, so its generation is not `0`
    have hgen := hwf.generation_toNat hunwrapped 0
    have hzero : om.pool.generation 0 = 0 := (generation_of_eq_encodeOrderId hid).symm
    rcases h.held 0 hused with halloc | hrel
    · have hfree : om.pool.allocated 0 = false := (hwf.pool.acquire_free hacq).2
      rw [hfree] at halloc
      cases halloc
    · rw [hzero] at hgen
      exact hrel.ne hgen
  · have hnum := congrArg (fun id => (decodeOrderId id).sequence) hid
    simp only [sequence_encodeOrderId, hseq, Finmap.get_empty] at hnum
    exact absurd hnum (by decide)

end Issued

/-- What every chain keeps, and what new ids need. -/
structure OrderManager.Regular (om : OrderManager) : Prop where
  wf : om.WF
  stamped : Stamped om
  begun : Begun om

theorem regular_init (capacity : PoolCapacity) : (init capacity).Regular :=
  ⟨wf_init capacity, stamped_init capacity, begun_init capacity⟩

theorem OrderManager.Regular.chain {P : Policy} {om om' : OrderManager} (h : om.Regular)
    (hchain : Chain P om om') : om'.Regular := by
  have hall := Chain.invariant (I := fun om => Stamped om ∧ Begun om)
    (fun om₁ om₂ hwf ⟨hstamped, hbegun⟩ hchange =>
      ⟨stamped_step hwf hstamped hchange, begun_step hwf hbegun hchange⟩)
    hchain h.wf ⟨h.stamped, h.begun⟩
  exact ⟨hall.1, hall.2.1, hall.2.2⟩

end Oms
