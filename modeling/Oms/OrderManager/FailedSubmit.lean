import Oms.OrderManager.Spacing

/-!
# A submit that fails leaves the books alone

`submit` returns `0` at five places. At three of them it has touched no order; with no venue to
trade on it has swept a cancel over the working ones; and when the client turns the order down, it
has reserved a slot and booked the order, and takes both back.

* `KeepsBooks`: two managers agree on positions, pending quantities and working orders, but for the
  marks of a cancel;
* `cancelWorkingOrders_keepsBooks`: the sweep keeps the books;
* `keepsBooks_unwind`: so does a reservation that is taken back;
* `failed_submit_keepsBooks`: so does every submit that returns `0`.
-/

namespace Oms

open OrderManager Relation

/-- The same positions, the same pending quantities, and the same working orders. A working order
has at most been marked as being cancelled. -/
structure KeepsBooks (om om' : OrderManager) : Prop where
  position : ∀ inst, om'.position inst = om.position inst
  pending : ∀ inst, om'.pendingQuantity inst = om.pendingQuantity inst
  working : ∀ slot, om'.pool.Working slot ↔ om.pool.Working slot
  order : ∀ slot, om.pool.Working slot →
    om'.pool.slots slot = om.pool.slots slot ∨
      om'.pool.slots slot = (om.pool.slots slot).markCancelSent
  trades : ∀ id, om.pool.Working (slotOf id) → om'.tradesOf id = om.tradesOf id
  live : ∀ id, om.pool.Working (slotOf id) → (id ∈ om'.live ↔ id ∈ om.live)

namespace KeepsBooks

variable {om om' om'' : OrderManager}

/-- Size, filled size and notional of a working order are those it had. -/
theorem keeps (h : KeepsBooks om om') {slot : ℕ} (hw : om.pool.Working slot) :
    (om.pool.slots slot).Keeps (om'.pool.slots slot) := by
  rcases h.order slot hw with heq | heq
  · rw [heq]
    exact Order.Keeps.refl _
  · rw [heq]
    exact Order.markCancelSent_keeps _

/-- Managers with the same pool, positions, pending quantities and indices. -/
theorem quiet (om d : OrderManager) : KeepsBooks om (om.withDiagnostics d) :=
  ⟨fun _ => rfl, fun _ => rfl, fun _ => Iff.rfl, fun _ _ => Or.inl rfl, fun _ _ => rfl,
    fun _ _ => Iff.rfl⟩

theorem refl (om : OrderManager) : KeepsBooks om om := quiet om om

theorem trans (h : KeepsBooks om om') (h' : KeepsBooks om' om'') : KeepsBooks om om'' where
  position := fun inst => (h'.position inst).trans (h.position inst)
  pending := fun inst => (h'.pending inst).trans (h.pending inst)
  working := fun slot => (h'.working slot).trans (h.working slot)
  order := by
    intro slot hw
    -- marking twice is marking once
    rcases h.order slot hw with h₁ | h₁ <;>
      rcases h'.order slot ((h.working slot).2 hw) with h₂ | h₂ <;> simp [h₁, h₂]
    exact Or.inr rfl
  trades := fun id hw => (h'.trades id ((h.working _).2 hw)).trans (h.trades id hw)
  live := fun id hw => (h'.live id ((h.working _).2 hw)).trans (h.live id hw)

end KeepsBooks

/-! ### The sweep -/

section Sweep

variable {W : Type} {E : Env W} {om : OrderManager} {id : OrderIdRaw}

theorem keepsBooks_markCancelSent (hlive : om.Live id) :
    KeepsBooks om (om.modifyOrder id Order.markCancelSent) := by
  have hwas : om.pool.Working (slotOf id) := ⟨hlive.allocated, hlive.isOpen⟩
  refine ⟨fun _ => rfl, fun _ => rfl, fun slot => ?_, fun slot _ => ?_, fun _ _ => rfl,
    fun _ _ => Iff.rfl⟩
  · by_cases hslot : slot = slotOf id
    · subst hslot
      refine iff_of_true ⟨hlive.allocated, ?_⟩ hwas
      simp [OrderManager.modifyOrder, Order.markCancelSent_open]
    · exact OrderPool.working_modify_of_ne hslot
  · by_cases hslot : slot = slotOf id
    · subst hslot
      exact Or.inr OrderPool.modify_slots_self
    · exact Or.inl (OrderPool.modify_slots_of_ne hslot)

theorem cancelWorkingOrder_keepsBooks (s : State W) (id : OrderIdRaw) :
    KeepsBooks s.om (s.cancelWorkingOrder E id).om := by
  unfold State.cancelWorkingOrder
  split_ifs with hcur
  · exact .refl _
  dsimp only
  split_ifs with hterm
  · exact .refl _
  split
  · exact .refl _
  · split_ifs
    · simp only [Bool.or_eq_true, not_or, Bool.not_eq_true] at hterm
      exact keepsBooks_markCancelSent ⟨by simpa using hcur, hterm.1⟩
    · exact .refl _
    · exact .refl _

/-- **The sweep** over the working orders keeps the books. -/
theorem cancelWorkingOrders_keepsBooks (s : State W) :
    KeepsBooks s.om (s.cancelWorkingOrders E).om := by
  have hsweep : ∀ (ids : List OrderIdRaw) (s : State W),
      KeepsBooks s.om (ids.foldl (State.cancelWorkingOrder E) s).om := by
    intro ids
    induction ids with
    | nil => exact fun s => .refl s.om
    | cons id ids ih => exact fun s => (cancelWorkingOrder_keepsBooks s id).trans (ih _)
  exact hsweep _ s

end Sweep

/-! ### The unwound reservation -/

section Unwind

variable {om om' : OrderManager} {id : OrderIdRaw} {req : OrderRequest} {venue : VenueId}
  {now : Timestamp} {pool : OrderPool}

/-- An entry of zero more or less. -/
theorem position_entry (m : Finmap fun _ : InstrumentId => Position) (k inst : InstrumentId) :
    (if k ∈ m then m else m.insert k {}).get inst = m.get inst := by
  split_ifs with hmem
  · rfl
  · rw [Finmap.get_insert]
    split_ifs with hinst
    · subst hinst
      rw [Finmap.get, Finmap.lookup_eq_none.2 hmem]
      rfl
    · rfl

/-- Releasing the slot of an order that has ended. -/
theorem KeepsBooks.expire (hwf : om.WF) : KeepsBooks om om.expire := by
  rcases expire_cases hwf with heq | ⟨old, rest, hfifo, heq⟩
  · rw [heq]
    exact .refl om
  · rw [heq]
    have hended : ¬ (om.pool.slots (slotOf old)).Open :=
      hwf.fifo_not_open old (by simp [hfifo])
    refine ⟨fun _ => rfl, fun _ => rfl, fun slot => ?_, fun _ _ => Or.inl rfl, fun _ _ => rfl,
      fun _ _ => Iff.rfl⟩
    by_cases hslot : slot = slotOf old
    · subst hslot
      exact iff_of_false (fun hw => hended hw.2) fun hw => hended hw.2
    · simp [OrderManager.releaseHead, OrderPool.Working, OrderPool.release_allocated_of_ne hslot]

section Failed

variable (hwf : om.WF) (hacq : om.pool.acquire = some (slotOf id, pool))
  (hid : id = encodeOrderId venue (om.pool.generation (slotOf id)) (UInt32.ofNat (slotOf id))
    (om.venueSeq.get venue + 1).toUInt16)
  (hwrite : om' = ((om.booked req venue now id pool).modifyOrder id
    Order.failSend).withDiagnostics om')
include hwf hacq hid hwrite

/-- The working orders are those from before the order was booked, which failed. -/
theorem failed_slots (slot : ℕ) : (om'.pool.Working slot ↔ om.pool.Working slot) ∧
    (om.pool.Working slot → om'.pool.slots slot = om.pool.slots slot) := by
  obtain ⟨-, hended⟩ :=
    (hwf.booked hacq).ended_write (hwf.booked_live hacq hid) Order.failSend_closing hwrite
  have hfree : ¬ om.pool.Working (slotOf id) := by
    rintro ⟨halloc, -⟩
    rw [(hwf.pool.acquire_free hacq).2] at halloc
    cases halloc
  by_cases hslot : slot = slotOf id
  · subst hslot
    exact ⟨iff_of_false (fun hw => hended.not_open hw.2) hfree, fun hw => absurd hw hfree⟩
  · obtain ⟨rest, -, rfl⟩ := OrderPool.acquire_cases hacq
    rw [hwrite]
    simp [OrderManager.withDiagnostics, OrderManager.modifyOrder, OrderManager.booked,
      OrderPool.Working, OrderPool.modify, hslot]

/-- Shelved, the failed order waits in the grace window like others. -/
theorem failed_shelved_wf :
    ((om'.unbook req.instrument req.size req.side).shelve id).WF := by
  obtain ⟨hwf', hended⟩ :=
    (hwf.booked hacq).ended_write (hwf.booked_live hacq hid) Order.failSend_closing hwrite
  refine (Change.shelve (P := {}) ?_).wf ⟨hwf'.pool, hwf'.fifo_nodup, hwf'.fifo_current,
    hwf'.fifo_not_open⟩
  exact ⟨hended.current, hended.not_open, hended.notMem⟩

/-- **The working orders after an order whose send failed** are those from before it. -/
theorem unwound_slots (slot : ℕ) :
    ((om'.retire id req.instrument req.size req.side).pool.Working slot ↔ om.pool.Working slot) ∧
      (om.pool.Working slot → (om'.retire id req.instrument req.size req.side).pool.slots slot =
        om.pool.slots slot) := by
  obtain ⟨hworking, hslots⟩ := failed_slots hwf hacq hid hwrite slot
  have hexpire : KeepsBooks ((om'.unbook req.instrument req.size req.side).shelve id)
      (om'.retire id req.instrument req.size req.side) :=
    .expire (failed_shelved_wf hwf hacq hid hwrite)
  refine ⟨(hexpire.working slot).trans hworking, fun hw => ?_⟩
  rw [← hslots hw]
  rcases retire_pool om' id req.instrument req.size req.side with hpool | ⟨released, hpool⟩
  · rw [hpool]
  · rw [hpool, OrderPool.release_slots]

/-- **A reservation that is taken back**: the order is booked, fails, and is retired with its whole
size. -/
theorem keepsBooks_unwind (hsize : 0 < req.size) :
    KeepsBooks om (om'.retire id req.instrument req.size req.side) := by
  refine KeepsBooks.trans ?_ (KeepsBooks.expire (failed_shelved_wf hwf hacq hid hwrite))
  have hslots := failed_slots hwf hacq hid hwrite
  -- the slot was free, so no working order is in it
  have hkept : ∀ {k : OrderIdRaw}, om.pool.Working (slotOf k) → k ≠ id := by
    rintro k ⟨halloc, -⟩ rfl
    rw [(hwf.pool.acquire_free hacq).2] at halloc
    cases halloc
  refine ⟨fun inst => ?_, fun inst => ?_, fun slot => (hslots slot).1,
    fun slot hw => Or.inl ((hslots slot).2 hw), fun k hw => ?_, fun k hw => ?_⟩
  · have hsame : (om.booked req venue now id pool).position inst = om.position inst :=
      position_entry om.positions req.instrument inst
    rw [hwrite]
    exact hsame
  · -- what was added when the order was booked is taken out again
    rw [hwrite]
    simp [OrderManager.shelve, OrderManager.unbook, OrderManager.pendingQuantity,
      OrderManager.withDiagnostics, OrderManager.modifyOrder, OrderManager.booked, hsize,
      Finmap.get_adjust]
    split_ifs <;> simp
  · rw [hwrite]
    simp [OrderManager.shelve, OrderManager.unbook, OrderManager.tradesOf,
      OrderManager.withDiagnostics, OrderManager.modifyOrder, OrderManager.booked,
      Finmap.lookup_erase_ne (hkept hw)]
  · rw [hwrite]
    simp [OrderManager.shelve, OrderManager.unbook, OrderManager.withDiagnostics,
      OrderManager.modifyOrder, OrderManager.booked, hkept hw]

end Failed

end Unwind

/-! ### The five exits -/

section Submit

variable {W : Type} {E : Env W} {s : State W} {req : OrderRequest}

theorem tripKillSwitch_keepsBooks (reason : String) :
    KeepsBooks s.om (s.tripKillSwitch E reason).om := by
  rw [tripKillSwitch_om]
  unfold OrderManager.tripKillSwitch
  split_ifs
  · exact .refl s.om
  · exact .quiet s.om { s.om with killed := true, killReason := reason }

/-- Sending an order: it answers `0` only for an order that the client turns down. -/
theorem place_keepsBooks (hwf : s.om.WF) (hbegun : Begun s.om) (hunwrapped : Unwrapped s.om)
    {venue : VenueId} {ex : ExchangeClient W} (hsize : 0 < req.size)
    (hfail : (s.place E req venue ex).1 = 0) :
    KeepsBooks s.om (s.place E req venue ex).2.om := by
  unfold State.place at hfail ⊢
  dsimp only at hfail ⊢
  cases hres : s.om.reserve req venue (E.clock s.world) with
  | none => exact .refl s.om
  | some r =>
    obtain ⟨id, om'⟩ := r
    obtain ⟨pool, hacq, hid, rfl⟩ := hwf.reserve_cases hres
    have hne : id ≠ 0 := id_ne_zero hwf hbegun hunwrapped hacq hid
    rw [hres] at hfail
    dsimp only at hfail ⊢
    split_ifs at hfail ⊢ with hok
    · exact absurd hfail hne
    · exact keepsBooks_unwind hwf hacq hid rfl hsize

/-- **A failed submit leaves the books as they were.** -/
theorem failed_submit_keepsBooks (hs : Reached E {} s) (hfew : Few s.om) (hsize : 0 < req.size)
    (hfail : (s.submit E req).1 = 0) : KeepsBooks s.om (s.submit E req).2.om := by
  obtain ⟨hwf, hbegun⟩ := hs.invariant begun_init fun _ _ => begun_step
  have hunwrapped := hs.unwrapped hfew
  revert hfail
  fun_cases State.submit E req s with
  | case1 hkilled => exact fun _ => .refl s.om
  | case2 hon w hselect =>
    -- all down: the cycle is marked incomplete, and the working orders are cancelled
    intro _
    refine KeepsBooks.trans ?_ (cancelWorkingOrders_keepsBooks _)
    exact .quiet s.om { s.om with rebalanceIncomplete := true }
  | case3 hon venue w hselect s' hget => exact fun _ => .refl s.om
  | case4 hon venue w hselect s' ex hget hfull =>
    exact fun _ => tripKillSwitch_keepsBooks (s := s') _
  | case5 hon venue w hselect s' ex hget hfree =>
    exact place_keepsBooks (s := s') hwf hbegun hunwrapped hsize

/-- A venue that takes orders of up to `5` only. -/
def smallOrdersEnv : Env Unit :=
  { acceptingEnv with
    registry := ⟨[some { acceptingClient with
      placeOrder := fun o w => (if o.size ≤ 5 then .Ok else .RejectedLocally, w) }]⟩ }

/-- The state after `ops` on a fresh two-slot manager in front of that venue. -/
def smallOrdersRun (ops : List Op) : State Unit :=
  (machine smallOrdersEnv).run ⟨.init twoSlots, ()⟩ ops

/-- An order is turned down while another one works. -/
theorem failed_submit_turnedDown :
    KeepsBooks (smallOrdersRun [.submit { instrument := 7, size := 3, price := 5 }]).om
      ((smallOrdersRun [.submit { instrument := 7, size := 3, price := 5 }]).submit smallOrdersEnv
        { instrument := 7, size := 8, price := 5 }).2.om :=
  failed_submit_keepsBooks (reached_run smallOrdersEnv twoSlots () _)
    (few_of_card_lt (by decide)) (by decide) (by decide)

end Submit

end Oms
