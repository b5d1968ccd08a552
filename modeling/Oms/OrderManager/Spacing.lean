import Mathlib.Algebra.BigOperators.Group.Finset.Piecewise
import Mathlib.Tactic.Linarith
import Oms.OrderManager.Exhaustion

/-!
# How often a slot can be released

A slot is released when `retiredGrace` later orders have ended, so between two releases of a slot as
many other slots are released.

* `OrderPool.released`: how many slots were released so far;
* `Spaced`: a slot that was released `k` times was so at intervals of more than the grace window;
* `Reached.unwrapped`: as long as no venue was sent `2 ^ 16` orders, no generation comes round.
-/

namespace Oms

open OrderManager Relation

/-- How many slots were released so far. -/
def OrderPool.released (p : OrderPool) : ℕ :=
  ∑ slot ∈ Finset.range p.capacity, p.history.releases slot

/-- Orders that were placed on a venue so far. -/
def OrderManager.placedAt (om : OrderManager) (venue : VenueId) : ℕ :=
  (om.pool.created.map fun o => (decodeOrderId o.internalId).venue).count venue

/-- Fewer than `2 ^ 16` orders were placed on each venue. -/
def Few (om : OrderManager) : Prop := ∀ venue, om.placedAt venue < 2 ^ 16

section Released

variable {p p' : OrderPool} {slot : ℕ} {f : Order → Order}

@[simp] theorem OrderPool.released_modify : (p.modify slot f).released = p.released := rfl

theorem OrderPool.released_acquire (hacq : p.acquire = some (slot, p')) :
    p'.released = p.released := by
  obtain ⟨rest, -, rfl⟩ := OrderPool.acquire_cases hacq
  rfl

theorem OrderPool.releases_release (i : ℕ) : (p.release slot).history.releases i =
    p.history.releases i + if i = slot then 1 else 0 := by
  by_cases h : i = slot
  · subst h
    simp [OrderPool.release]
  · simp [OrderPool.release, h]

theorem OrderPool.released_release (h : slot < p.capacity) :
    (p.release slot).released = p.released + 1 := by
  unfold OrderPool.released
  simp only [OrderPool.release_capacity, OrderPool.releases_release]
  rw [Finset.sum_add_distrib, Finset.sum_ite_eq', if_pos (Finset.mem_range.2 h)]

theorem OrderPool.releases_le_released (h : slot < p.capacity) :
    p.history.releases slot ≤ p.released :=
  Finset.single_le_sum (f := p.history.releases) (fun _ _ => Nat.zero_le _)
    (Finset.mem_range.2 h)

/-- Every slot that was taken is in use, or was released. -/
theorem OrderPool.WF.inUse_pos (h : p.WF) (halloc : p.allocated slot = true) : 0 < p.inUse := by
  have hbefore := h.inUse_add
  have hafter := (h.release halloc).inUse_add
  simp [OrderPool.release] at hafter
  omega

end Released

/-! ### The spacing of releases -/

/-- The order at position `i` of the grace window leaves it after `i` others, and a slot that was
released `k` times saw more than the whole window pass each time. -/
structure Spaced (om : OrderManager) : Prop where
  grace : om.retiredGrace = 4096
  bound : om.retiredFifo.length ≤ 4096
  full : 0 < om.pool.released → om.retiredFifo.length = 4096
  total : om.pool.released + om.pool.inUse = Multiset.card om.pool.created
  rested : ∀ slot, om.pool.history.releases slot * 4097 ≤ om.pool.released + 4096
  waits : ∀ i id, om.retiredFifo[i]? = some id →
    om.pool.history.releases (slotOf id) * 4097 ≤ om.pool.released + i

section Spaced

variable {P : Policy} {om om' : OrderManager} {id : OrderIdRaw} {f : Order → Order}

theorem spaced_init (capacity : PoolCapacity) : Spaced (init capacity) where
  grace := rfl
  bound := Nat.zero_le _
  full := by simp [init, OrderPool.init, OrderPool.released]
  total := by simp [init, OrderPool.init, OrderPool.released, OrderPool.created]
  rested := by simp [init, OrderPool.init]
  waits := by simp [init]

/-- A write creates and releases nothing. -/
theorem Spaced.write (h : Spaced om) (hpool : om'.pool = om.pool.modify (slotOf id) f)
    (hfifo : om'.retiredFifo = om.retiredFifo) (hgrace : om'.retiredGrace = om.retiredGrace) :
    Spaced om' where
  grace := hgrace.trans h.grace
  bound := by rw [hfifo]; exact h.bound
  full := by rw [hpool, hfifo]; exact h.full
  total := by rw [hpool, OrderPool.card_created_modify]; exact h.total
  rested := by rw [hpool]; exact h.rested
  waits := by rw [hpool, hfifo]; exact h.waits

theorem Spaced.booked (h : Spaced om) {req : OrderRequest} {venue : VenueId} {now : Timestamp}
    {pool : OrderPool} (hacq : om.pool.acquire = some (slotOf id, pool)) :
    Spaced (om.booked req venue now id pool) where
  grace := h.grace
  bound := h.bound
  full := by
    show 0 < pool.released → _
    rw [OrderPool.released_acquire hacq]
    exact h.full
  total := by
    show pool.released + pool.inUse = Multiset.card (pool.modify (slotOf id) _).created
    rw [OrderPool.created_acquire_modify hacq, Multiset.card_cons, ← h.total,
      OrderPool.released_acquire hacq]
    obtain ⟨rest, -, rfl⟩ := OrderPool.acquire_cases hacq
    rfl
  rested := by
    obtain ⟨rest, -, rfl⟩ := OrderPool.acquire_cases hacq
    exact h.rested
  waits := by
    obtain ⟨rest, -, rfl⟩ := OrderPool.acquire_cases hacq
    exact h.waits

/-- A slot joins the window behind all that wait there. -/
theorem Spaced.joins (h : Spaced om) (hlt : slotOf id < om.pool.capacity) :
    om.pool.history.releases (slotOf id) * 4097 ≤ om.pool.released + om.retiredFifo.length := by
  have hle := OrderPool.releases_le_released hlt
  have hrested := h.rested (slotOf id)
  have hfull := h.full
  omega

/-- The order at the head leaves the window, and its slot is released. -/
theorem Spaced.leaves (h : Spaced om) (hwf : om.pool.WF) {old : OrderIdRaw}
    {rest : List OrderIdRaw} (hcur : om.pool.isCurrent old = true)
    (hnodup : ((old :: rest).map slotOf).Nodup) (hlen : rest.length = 4096)
    (hwaits : ∀ i k, (old :: rest)[i]? = some k →
      om.pool.history.releases (slotOf k) * 4097 ≤ om.pool.released + i)
    (hpool : om'.pool = om.pool.release (slotOf old)) (hfifo : om'.retiredFifo = rest)
    (hgrace : om'.retiredGrace = om.retiredGrace) : Spaced om' := by
  obtain ⟨hslot, halloc, -⟩ := OrderPool.isCurrent_iff.1 hcur
  have hreleased := OrderPool.released_release hslot
  refine ⟨hgrace.trans h.grace, ?_, fun _ => ?_, ?_, fun slot => ?_, fun i k hk => ?_⟩
  · rw [hfifo, hlen]
  · rw [hfifo, hlen]
  · rw [hpool, hreleased, OrderPool.created_release, ← h.total]
    have hpos := hwf.inUse_pos halloc
    show om.pool.released + 1 + (om.pool.inUse - 1) = om.pool.released + om.pool.inUse
    omega
  · rw [hpool, hreleased, OrderPool.releases_release]
    have hrested := h.rested slot
    split_ifs with heq
    · have hhead := hwaits 0 old rfl
      rw [← heq] at hhead
      linarith only [hhead]
    · linarith only [hrested]
  · rw [hfifo] at hk
    rw [hpool, hreleased, OrderPool.releases_release, if_neg ?_]
    · have hnext := hwaits (i + 1) k hk
      linarith only [hnext]
    · have hmem := List.mem_of_getElem? hk
      exact fun heq => (List.nodup_cons.1 hnodup).1 (heq ▸ List.mem_map_of_mem hmem)

/-- The order joins the window; if it is one too many, the oldest leaves it and its slot is
released. -/
theorem Spaced.retire (h : Spaced om) (hwf : om.WF) (hended : om.Ended id) (inst : InstrumentId)
    (rem : Quantity) (side : Side) : Spaced (om.retire id inst rem side) := by
  have hshelved : (om.shelve id).WF := (Change.shelve (P := {}) hended).wf hwf
  have hbound := h.bound
  -- who waited already keeps the place, and the new one stands behind all of them
  have hwaits : ∀ i k, (om.retiredFifo ++ [id])[i]? = some k →
      om.pool.history.releases (slotOf k) * 4097 ≤ om.pool.released + i := by
    intro i k hk
    by_cases hi : i < om.retiredFifo.length
    · rw [List.getElem?_append_left hi] at hk
      exact h.waits i k hk
    · rw [List.getElem?_append_right (not_lt.1 hi)] at hk
      have hlen := (List.getElem?_eq_some_iff.1 hk).1
      rw [List.length_singleton] at hlen
      obtain rfl : i = om.retiredFifo.length := by omega
      rw [Nat.sub_self, List.getElem?_cons_zero, Option.some_inj] at hk
      rw [← hk]
      exact h.joins (OrderPool.isCurrent_iff.1 hended.current).1
  unfold OrderManager.retire
  -- only a window that was full before lets its head go
  by_cases hlt : om.retiredGrace < (om.retiredFifo ++ [id]).length
  · cases hcons : om.retiredFifo ++ [id] with
    | nil => simp at hcons
    | cons old rest =>
      have hnodup : ((old :: rest).map slotOf).Nodup := hcons ▸ hshelved.fifo_nodup
      have hold : om.pool.isCurrent old = true :=
        hshelved.fifo_current old (by simp [OrderManager.shelve, hcons])
      have hexpire : ((om.unbook inst rem side).shelve id).expire =
          ((om.unbook inst rem side).shelve id).releaseHead old rest := expire_of_lt hcons hold hlt
      rw [hexpire]
      have hlen := congrArg List.length hcons
      rw [List.length_append, List.length_singleton, List.length_cons] at hlen
      rw [h.grace, hcons, List.length_cons] at hlt
      rw [hcons] at hwaits
      exact h.leaves hwf.pool hold hnodup (by omega) hwaits rfl rfl rfl
  · have hkeep : ((om.unbook inst rem side).shelve id).expire =
        (om.unbook inst rem side).shelve id := if_neg hlt
    rw [hkeep]
    rw [h.grace, List.length_append, List.length_singleton] at hlt
    refine ⟨h.grace, ?_, fun hpos => ?_, h.total, h.rested, hwaits⟩
    · show (om.retiredFifo ++ [id]).length ≤ 4096
      rw [List.length_append, List.length_singleton]
      omega
    · have hfull := h.full hpos
      omega

/-- A write that ends a working order leaves it to be retired. -/
theorem OrderManager.WF.ended_write (hwf : om.WF) (hlive : om.Live id) (hf : Order.Closing f)
    (hwrite : om' = (om.modifyOrder id f).withDiagnostics om') : om'.WF ∧ om'.Ended id := by
  have hnot := hwf.notMem_fifo hlive.isOpen
  constructor
  · rw [hwrite]
    exact hwf.write (f := f) hnot rfl rfl
  · rw [hwrite]
    refine ⟨hlive.current, ?_, hnot⟩
    show ¬ ((om.modifyOrder id f).orderRef id).Open
    rw [orderRef_modifyOrder]
    exact hf.not_open _

/-- **Every turn** keeps the releases of a slot apart. -/
theorem spaced_turn (hwf : om.WF) (h : Spaced om) (hturn : Turn P om om') : Spaced om' := by
  cases hturn with
  | quiet d => exact ⟨h.grace, h.bound, h.full, h.total, h.rested, h.waits⟩
  | forgive id => exact ⟨h.grace, h.bound, h.full, h.total, h.rested, h.waits⟩
  | @write id f hlive hf => exact h.write (f := f) rfl rfl rfl
  | @fill id qty price trade ts hmoves haddr hok =>
    have hfilled : Change {} om (om.applyFill id qty price trade ts) := .fill trivial trivial hok
    have hspaced : Spaced (om.applyFill id qty price trade ts) :=
      h.write (f := Order.addFill qty price ts) rfl rfl rfl
    rcases fill_cases om id qty price trade ts with ⟨-, heq⟩ | ⟨hclosed, om₂, hom₂, heq⟩
    · rw [heq]
      exact hspaced
    · rw [heq]
      have hended := applyFill_ended hwf hok hclosed
      rcases hom₂ with rfl | rfl
      · exact hspaced.retire (hfilled.wf hwf) hended _ _ _
      · have hexpect : Change {} (om.applyFill id qty price trade ts)
            ((om.applyFill id qty price trade ts).expect id) := .expect trivial hended
        have hspaced' : Spaced ((om.applyFill id qty price trade ts).expect id) :=
          h.write (f := Order.addFill qty price ts) rfl rfl rfl
        exact hspaced'.retire (hexpect.wf (hfilled.wf hwf))
          ⟨hended.current, hended.not_open, hended.notMem⟩ _ _ _
  | @close om' id f hmoves haddr hlive hf hwrite =>
    obtain ⟨hwf', hended⟩ := hwf.ended_write hlive hf.closing hwrite
    have hspaced : Spaced om' := by
      rw [hwrite]
      exact h.write (f := f) rfl rfl rfl
    exact hspaced.retire hwf' hended _ _ _
  | @place om' req venue now id hreq hres =>
    obtain ⟨pool, hacq, -, rfl⟩ := hwf.reserve_cases hres
    exact (h.booked hacq).write (f := Order.markSent now) rfl rfl rfl
  | @unwind om₁ om' req venue now id hmoves hreq hres hwrite =>
    obtain ⟨pool, hacq, hid, rfl⟩ := hwf.reserve_cases hres
    obtain ⟨hwf', hended⟩ :=
      (hwf.booked hacq).ended_write (hwf.booked_live hacq hid) Order.failSend_closing hwrite
    have hspaced : Spaced om' := by
      rw [hwrite]
      exact (h.booked hacq).write (f := Order.failSend) rfl rfl rfl
    exact hspaced.retire hwf' hended _ _ _

end Spaced

/-! ### Few orders, no generation twice -/

section Few

variable {W : Type} {E : Env W} {P : Policy} {s : State W} {om : OrderManager}

theorem few_of_card_lt (h : Multiset.card om.pool.created < 2 ^ 16) : Few om := by
  intro venue
  refine lt_of_le_of_lt (Multiset.count_le_card venue _) ?_
  rwa [Multiset.card_map]

/-- There are `2 ^ 8` venues. -/
theorem Few.card_created_lt (h : Few om) : Multiset.card om.pool.created < 2 ^ 24 := by
  have hmem : ∀ n ∈ (om.pool.created.map fun o => (decodeOrderId o.internalId).venue).map
      UInt8.toNat, n ∈ Finset.range 256 := by
    intro n hn
    obtain ⟨venue, -, rfl⟩ := Multiset.mem_map.1 hn
    exact Finset.mem_range.2 venue.toNat_lt
  have hcount : ∀ n ∈ Finset.range 256, ((om.pool.created.map fun o =>
      (decodeOrderId o.internalId).venue).map UInt8.toNat).count n ≤ 2 ^ 16 - 1 := by
    intro n hn
    have hvenue : (UInt8.ofNat n).toNat = n :=
      UInt8.toNat_ofNat_of_lt' (Finset.mem_range.1 hn)
    have hinj : Function.Injective UInt8.toNat := fun _ _ => UInt8.toNat.inj
    rw [← hvenue, Multiset.count_map_eq_count' _ _ hinj]
    exact Nat.le_sub_one_of_lt (h (UInt8.ofNat n))
  -- the orders are counted venue by venue
  have hsum := Finset.sum_le_sum hcount
  rw [Multiset.sum_count_eq_card hmem, Multiset.card_map, Multiset.card_map, Finset.sum_const,
    Finset.card_range] at hsum
  change _ ≤ 256 * (2 ^ 16 - 1) at hsum
  omega

theorem Spaced.unwrapped (h : Spaced om) (hfew : Few om) : Unwrapped om := by
  intro slot
  have hrested := h.rested slot
  have htotal := h.total
  have hcard := hfew.card_created_lt
  omega

theorem Reached.spaced (hs : Reached E P s) : s.om.WF ∧ Spaced s.om :=
  hs.turn_invariant spaced_init fun _ _ => spaced_turn

/-- **No generation comes round** as long as no venue was sent `2 ^ 16` orders. -/
theorem Reached.unwrapped (hs : Reached E P s) (hfew : Few s.om) : Unwrapped s.om :=
  hs.spaced.2.unwrapped hfew

end Few

end Oms
