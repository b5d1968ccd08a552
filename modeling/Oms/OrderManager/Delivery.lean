import Mathlib.Algebra.Group.Prod
import Mathlib.Algebra.BigOperators.Group.List.Basic
import Mathlib.Tactic.Linarith
import Oms.OrderManager.Traded

/-!
# The order in which fills are delivered

* `FillEvent`, `Deliverable`: fills of working orders which the venue can have sent in any order;
* `Deliverable.ok`, `Deliverable.tail`: the first of them is accepted, and the others are
  deliverable after it;
* `Delivered`, `Deliverable.delivered`: what a list of them leaves behind, whatever its order;
* `fills_commute`: so the order does not matter.
-/

namespace Oms

open OrderManager

/-! ### Fill events -/

/-- A call of `onFill`. -/
structure FillEvent where
  id : OrderIdRaw
  qty : Quantity
  price : Price
  trade : TradeId
  ts : Timestamp := 0

namespace FillEvent

def op (e : FillEvent) : Op := .fill e.id e.qty e.price e.trade e.ts

/-- What a list of fills adds up to for the order of an id. -/
def total (L : List FillEvent) (id : OrderIdRaw) : Quantity :=
  (L.map fun e => if e.id = id then e.qty else 0).sum

theorem total_cons (e : FillEvent) (L : List FillEvent) (id : OrderIdRaw) :
    total (e :: L) id = (if e.id = id then e.qty else 0) + total L id := by
  rw [total, List.map_cons, List.sum_cons, total]

theorem total_eq_zero {L : List FillEvent} {id : OrderIdRaw} (h : ∀ e ∈ L, e.id ≠ id) :
    total L id = 0 := by
  refine List.sum_eq_zero fun q hq => ?_
  obtain ⟨e, he, rfl⟩ := List.mem_map.1 hq
  exact if_neg (h e he)

theorem total_perm {L L' : List FillEvent} (h : L.Perm L') (id : OrderIdRaw) :
    total L id = total L' id := (h.map _).sum_eq

/-- A fill counts for its order, and the others count for nothing less. -/
theorem qty_le_total {L : List FillEvent} (hpos : ∀ e ∈ L, 0 < e.qty) {e : FillEvent}
    (he : e ∈ L) : e.qty ≤ total L e.id := by
  have hmem : e.qty ∈ L.map fun e' => if e'.id = e.id then e'.qty else 0 :=
    List.mem_map.2 ⟨e, he, if_pos rfl⟩
  refine List.single_le_sum (fun q hq => ?_) _ hmem
  obtain ⟨e', he', rfl⟩ := List.mem_map.1 hq
  split_ifs
  · exact (hpos e' he').le
  · exact le_refl 0

end FillEvent

open FillEvent

/-- Fills of working orders under their own ids: new trades, of positive size and price, which
together do not exceed what is left of any of the orders. -/
structure Deliverable (om : OrderManager) (L : List FillEvent) : Prop where
  works : ∀ e ∈ L, om.Works e.id
  qty_pos : ∀ e ∈ L, 0 < e.qty
  price_pos : ∀ e ∈ L, 0 < e.price
  nodup : (L.map fun e => (e.id, e.trade)).Nodup
  fresh : ∀ e ∈ L, e.trade ∉ om.tradesOf e.id
  within : ∀ e ∈ L, total L e.id ≤ (om.orderRef e.id).remaining

theorem Deliverable.perm {om : OrderManager} {L L' : List FillEvent} (h : Deliverable om L)
    (hperm : L.Perm L') : Deliverable om L' where
  works := fun e he => h.works e (hperm.mem_iff.2 he)
  qty_pos := fun e he => h.qty_pos e (hperm.mem_iff.2 he)
  price_pos := fun e he => h.price_pos e (hperm.mem_iff.2 he)
  nodup := ((hperm.map _).nodup_iff).1 h.nodup
  fresh := fun e he => h.fresh e (hperm.mem_iff.2 he)
  within := fun e he => total_perm hperm e.id ▸ h.within e (hperm.mem_iff.2 he)

/-! ### One fill -/

/-- What decides about a fill of an order, and what it moves. -/
def slip : Observation (InstrumentId × Side × Quantity × Finset TradeId) where
  see := fun o trades => (o.instrument, o.side, o.remaining, trades)
  keeps := fun trades h => by rw [h.instrument, h.side, h.remaining]

section Fill

variable {om : OrderManager} {id k : OrderIdRaw} {qty : Quantity} {price : Price}
  {trade : TradeId} {ts : Timestamp}

theorem works_of_view {inst : InstrumentId} {side : Side} {rem : Quantity}
    {trades : Finset TradeId} (h : om.view slip k = some (inst, side, rem, trades)) :
    om.Works k ∧ (om.orderRef k).instrument = inst ∧ (om.orderRef k).side = side ∧
      (om.orderRef k).remaining = rem ∧ om.tradesOf k = trades := by
  by_cases hw : om.Works k
  · rw [view_of_works slip hw] at h
    cases h
    exact ⟨hw, rfl, rfl, rfl, rfl⟩
  · rw [view_of_not_works slip hw] at h
    cases h

/-- A fill that leaves something moves its order on, and touches no other. -/
theorem fill_slip (hwf : om.WF) (hstamped : Stamped om) (hw : om.Works id)
    (hok : om.validate id ⟨.Fill, trade, qty, price⟩ = .Ok) (hk : om.Works k)
    (hrest : k = id → qty ≠ (om.orderRef id).remaining) :
    let om' := om.fill id qty price trade ts
    om'.Works k ∧ (om'.orderRef k).instrument = (om.orderRef k).instrument ∧
      (om'.orderRef k).side = (om.orderRef k).side ∧
      (om'.orderRef k).remaining = (om.orderRef k).remaining - (if id = k then qty else 0) ∧
      om'.tradesOf k = if id = k then insert trade (om.tradesOf k) else om.tradesOf k := by
  apply works_of_view
  rw [(fills_fill hwf hstamped hok).view slip, hw.own]
  by_cases heq : k = id
  · subst heq
    rw [Function.update_self, if_neg (hrest rfl), if_pos rfl, if_pos rfl]
    show some (_, _, ((om.orderRef k).addFill qty price ts).remaining, _) = _
    rw [Order.addFill_remaining, tradesOf_applyFill, if_pos rfl]
    rfl
  · rw [Function.update_of_ne heq, if_neg (Ne.symm heq), if_neg (Ne.symm heq), sub_zero,
      view_of_works slip hk]
    rfl

theorem fill_pending (om : OrderManager) (id : OrderIdRaw) (qty : Quantity) (price : Price)
    (trade : TradeId) (ts : Timestamp) (inst : InstrumentId) :
    (om.fill id qty price trade ts).pendingQuantity inst = om.pendingQuantity inst +
      if inst = (om.orderRef id).instrument then -signedQty (om.orderRef id).side qty else 0 := by
  have happly : (om.applyFill id qty price trade ts).pendingQuantity inst = _ :=
    Finmap.get_adjust _ _ _ _
  rcases fill_cases om id qty price trade ts with ⟨-, heq⟩ | ⟨-, om₂, hom₂, heq⟩
  · rw [heq]
    exact happly
  · rw [heq, pendingQuantity, retire_pendingSigned]
    rcases hom₂ with rfl | rfl <;> exact happly

/-- A final fill takes its id out of the live index. -/
theorem mem_live_fill (om : OrderManager) (id : OrderIdRaw) (qty : Quantity) (price : Price)
    (trade : TradeId) (ts : Timestamp) (k : OrderIdRaw) :
    k ∈ (om.fill id qty price trade ts).live ↔
      k ∈ om.live ∧ ¬ (k = id ∧ qty = (om.orderRef id).remaining) := by
  rcases fill_cases om id qty price trade ts with ⟨hopen, heq⟩ | ⟨hended, om₂, hom₂, heq⟩
  · rw [Order.addFill_open_iff, ne_eq, Order.filledSize_add_eq_size_iff] at hopen
    rw [heq]
    exact ⟨fun hk => ⟨hk, fun h => hopen h.2⟩, fun h => h.1⟩
  · rw [Order.addFill_open_iff, ne_eq, not_not, Order.filledSize_add_eq_size_iff] at hended
    have hlive : om₂.live = om.live := by rcases hom₂ with rfl | rfl <;> rfl
    rw [heq, retire_live, hlive, Finset.mem_erase, and_comm]
    exact and_congr_right fun _ => not_congr ⟨fun h => ⟨h, hended⟩, fun h => h.1⟩

/-! ### The first fill of a deliverable list -/

variable {e : FillEvent} {L : List FillEvent}

theorem Deliverable.ok (h : Deliverable om (e :: L)) :
    om.validate e.id ⟨.Fill, e.trade, e.qty, e.price⟩ = .Ok := by
  have hmem : e ∈ e :: L := List.mem_cons_self
  have hw := h.works e hmem
  refine validate_fill_ok_iff.2 ⟨hw.live.current, hw.live.isOpen, h.fresh e hmem, h.qty_pos e hmem,
    h.price_pos e hmem, ?_⟩
  exact (qty_le_total h.qty_pos hmem).trans (h.within e hmem)

/-- A fill that another one of the same order follows is not its last. -/
theorem Deliverable.qty_lt (h : Deliverable om (e :: L)) {e' : FillEvent} (he' : e' ∈ L)
    (hid : e'.id = e.id) : e.qty < (om.orderRef e.id).remaining := by
  have hpos' : ∀ e ∈ L, 0 < e.qty := fun e he => h.qty_pos e (List.mem_cons_of_mem _ he)
  have hle := qty_le_total hpos' he'
  have hwithin := h.within e List.mem_cons_self
  rw [total_cons, if_pos rfl] at hwithin
  rw [hid] at hle
  have hpos := hpos' e' he'
  linarith

/-- The orders of the other fills, after the first one. -/
theorem Deliverable.slip (h : Deliverable om (e :: L)) (hwf : om.WF) (hstamped : Stamped om)
    {e' : FillEvent} (he' : e' ∈ L) :
    let om' := om.fill e.id e.qty e.price e.trade e.ts
    om'.Works e'.id ∧ (om'.orderRef e'.id).instrument = (om.orderRef e'.id).instrument ∧
      (om'.orderRef e'.id).side = (om.orderRef e'.id).side ∧
      (om'.orderRef e'.id).remaining =
        (om.orderRef e'.id).remaining - (if e.id = e'.id then e.qty else 0) ∧
      om'.tradesOf e'.id =
        if e.id = e'.id then insert e.trade (om.tradesOf e'.id) else om.tradesOf e'.id :=
  fill_slip hwf hstamped (h.works e List.mem_cons_self) h.ok
    (h.works e' (List.mem_cons_of_mem _ he')) fun hid => (h.qty_lt he' hid).ne

/-- The other fills are deliverable after the first one. -/
theorem Deliverable.tail (h : Deliverable om (e :: L)) (hwf : om.WF) (hstamped : Stamped om) :
    Deliverable (om.fill e.id e.qty e.price e.trade e.ts) L where
  works := fun e' he' => (h.slip hwf hstamped he').1
  qty_pos := fun e' he' => h.qty_pos e' (List.mem_cons_of_mem _ he')
  price_pos := fun e' he' => h.price_pos e' (List.mem_cons_of_mem _ he')
  nodup := (List.nodup_cons.1 h.nodup).2
  fresh := by
    intro e' he'
    obtain ⟨-, -, -, -, htrades⟩ := h.slip hwf hstamped he'
    have hfresh := h.fresh e' (List.mem_cons_of_mem _ he')
    rw [htrades]
    split_ifs with hid
    · -- another trade of the same order
      rw [Finset.mem_insert, not_or]
      refine ⟨fun htrade => ?_, hfresh⟩
      refine (List.nodup_cons.1 h.nodup).1 (List.mem_map.2 ⟨e', he', ?_⟩)
      exact Prod.ext hid.symm htrade
    · exact hfresh
  within := by
    intro e' he'
    obtain ⟨-, -, -, hrem, -⟩ := h.slip hwf hstamped he'
    have hwithin := h.within e' (List.mem_cons_of_mem _ he')
    rw [total_cons] at hwithin
    rw [hrem]
    linarith

end Fill

/-! ### A whole list -/

/-- Net, volume and amount of a position, and the pending quantity. -/
def OrderManager.figures (om : OrderManager) (inst : InstrumentId) : ℤ × ℤ × ℤ × ℤ :=
  ((om.position inst).net, (om.position inst).volume, (om.position inst).amount,
    om.pendingQuantity inst)

/-- What a fill adds to the figures of an instrument. -/
def FillEvent.stake (om : OrderManager) (inst : InstrumentId) (e : FillEvent) : ℤ × ℤ × ℤ × ℤ :=
  let q := signedQty (om.orderRef e.id).side e.qty
  if inst = (om.orderRef e.id).instrument then (q, magnitude q, q * e.price, -q) else 0

/-- The list completes the order of an id. -/
def Completes (om : OrderManager) (L : List FillEvent) (id : OrderIdRaw) : Prop :=
  (∃ e ∈ L, e.id = id) ∧ total L id = (om.orderRef id).remaining

theorem Completes.perm {om : OrderManager} {L L' : List FillEvent} {id : OrderIdRaw}
    (hperm : L.Perm L') : Completes om L id ↔ Completes om L' id := by
  rw [Completes, Completes, total_perm hperm]
  exact and_congr_left fun _ => exists_congr fun e => and_congr_left fun _ => hperm.mem_iff

section First

variable {om : OrderManager} {e : FillEvent} {L : List FillEvent}

theorem fill_figures (hwf : om.WF)
    (hok : om.validate e.id ⟨.Fill, e.trade, e.qty, e.price⟩ = .Ok) (inst : InstrumentId) :
    (om.fill e.id e.qty e.price e.trade e.ts).figures inst =
      om.figures inst + e.stake om inst := by
  rw [figures, fill_position hwf e.ts hok, fill_pending, FillEvent.stake]
  split_ifs
  · rfl
  · rw [add_zero, add_zero]
    rfl

/-- The instruments and sides of the other orders do not change, so their fills add the same. -/
theorem Deliverable.stake (h : Deliverable om (e :: L)) (hwf : om.WF) (hstamped : Stamped om)
    (inst : InstrumentId) :
    L.map (FillEvent.stake (om.fill e.id e.qty e.price e.trade e.ts) inst) =
      L.map (FillEvent.stake om inst) := by
  refine List.map_congr_left fun e' he' => ?_
  obtain ⟨-, hinst, hside, -⟩ := h.slip hwf hstamped he'
  rw [FillEvent.stake, FillEvent.stake, hinst, hside]

/-- The list completes an order if its first fill does, or the others do afterwards. -/
theorem Deliverable.completes (h : Deliverable om (e :: L)) (hwf : om.WF) (hstamped : Stamped om)
    (id : OrderIdRaw) :
    Completes om (e :: L) id ↔ (id = e.id ∧ e.qty = (om.orderRef e.id).remaining) ∨
      Completes (om.fill e.id e.qty e.price e.trade e.ts) L id := by
  unfold Completes
  by_cases hlater : ∃ e' ∈ L, e'.id = id
  · obtain ⟨e', he', rfl⟩ := hlater
    obtain ⟨-, -, -, hrem, -⟩ := h.slip hwf hstamped he'
    have hfirst : ¬ (e'.id = e.id ∧ e.qty = (om.orderRef e.id).remaining) := fun hlast =>
      (h.qty_lt he' hlast.1).ne hlast.2
    have hsome : ∃ e'' ∈ L, e''.id = e'.id := ⟨e', he', rfl⟩
    have hsome' : ∃ e'' ∈ e :: L, e''.id = e'.id := ⟨e', List.mem_cons_of_mem _ he', rfl⟩
    rw [or_iff_right hfirst, and_iff_right hsome, and_iff_right hsome', total_cons, hrem,
      eq_sub_iff_add_eq']
  · have hzero : total L id = 0 := total_eq_zero fun e' he' hid => hlater ⟨e', he', hid⟩
    rw [total_cons, hzero, add_zero, List.exists_mem_cons_iff, or_iff_left hlater,
      or_iff_left fun h => hlater h.1]
    constructor
    · rintro ⟨rfl, hqty⟩
      rw [if_pos rfl] at hqty
      exact ⟨rfl, hqty⟩
    · rintro ⟨rfl, hqty⟩
      exact ⟨rfl, (if_pos rfl).trans hqty⟩

end First

section Deliver

variable {W : Type} {E : Env W}

/-- The state after a list of fills. -/
def State.deliverFills (E : Env W) (s : State W) (L : List FillEvent) : State W :=
  (machine E).run s (L.map FillEvent.op)

/-- What a list of fills, delivered one after the other, has accepted for the order of an id. -/
def acceptedTotal (E : Env W) (id : OrderIdRaw) : State W → List FillEvent → Quantity
  | _, [] => 0
  | s, e :: L =>
    (if e.id = id ∧ s.om.validate e.id ⟨.Fill, e.trade, e.qty, e.price⟩ = .Ok then e.qty else 0) +
      acceptedTotal E id (s.step E e.op) L

/-- What a list of fills leaves behind. -/
structure Delivered (E : Env W) (s : State W) (L : List FillEvent) : Prop where
  figures : ∀ inst, (s.deliverFills E L).om.figures inst =
    s.om.figures inst + (L.map (FillEvent.stake s.om inst)).sum
  live : ∀ id, id ∈ (s.deliverFills E L).om.live ↔ id ∈ s.om.live ∧ ¬ Completes s.om L id
  accepted : ∀ id, acceptedTotal E id s L = total L id

/-- A deliverable list leaves behind what its fills add up to. -/
theorem Deliverable.delivered {s : State W} {L : List FillEvent} (h : Deliverable s.om L)
    (hwf : s.om.WF) (hstamped : Stamped s.om) : Delivered E s L := by
  induction L generalizing s with
  | nil =>
    have hnone : ∀ id, ¬ Completes s.om [] id := by simp [Completes]
    exact ⟨fun _ => (add_zero _).symm, fun id => (and_iff_left (hnone id)).symm, fun _ => rfl⟩
  | cons e L ih =>
    have hom : (s.step E e.op).om = s.om.fill e.id e.qty e.price e.trade e.ts := onFill_ok_om h.ok
    have hchain : Chain {} s.om (s.om.fill e.id e.qty e.price e.trade e.ts) :=
      fill_chain trivial hwf trivial h.ok
    have hkept := Chain.invariant (fun _ _ => stamped_step) hchain hwf hstamped
    have hrest : Delivered E (s.step E e.op) L :=
      ih (hom ▸ h.tail hwf hstamped) (hom ▸ hkept.1) (hom ▸ hkept.2)
    constructor
    · intro inst
      refine (hrest.figures inst).trans ?_
      rw [hom, fill_figures hwf h.ok, h.stake hwf hstamped, List.map_cons, List.sum_cons, add_assoc]
    · intro id
      refine (hrest.live id).trans ?_
      rw [hom, mem_live_fill, h.completes hwf hstamped, not_or, and_assoc]
    · intro id
      show _ + acceptedTotal E id (s.step E e.op) L = _
      rw [hrest.accepted, total_cons]
      exact congrArg (· + _) (if_congr (and_iff_left h.ok) rfl rfl)

/-- **The order of delivery does not matter.** In every reachable state, a list of fills of working
orders, under their own ids, of new trades, of positive size and price, and within what is left of
each order, leaves the same positions, pending quantities, live index and accepted totals in
whichever order it is delivered. -/
theorem fills_commute {s : State W} (hs : Reached E {} s) {L L' : List FillEvent}
    (h : Deliverable s.om L) (hperm : L.Perm L') :
    let a := s.deliverFills E L
    let b := s.deliverFills E L'
    (∀ inst, (a.om.position inst).net = (b.om.position inst).net ∧
      (a.om.position inst).volume = (b.om.position inst).volume ∧
      (a.om.position inst).amount = (b.om.position inst).amount) ∧
    (∀ inst, a.om.pendingQuantity inst = b.om.pendingQuantity inst) ∧
    a.om.live = b.om.live ∧
    ∀ id, acceptedTotal E id s L = acceptedTotal E id s L' := by
  intro a b
  have ha : Delivered E s L := h.delivered hs.wf hs.stamped
  have hb : Delivered E s L' := (h.perm hperm).delivered hs.wf hs.stamped
  have hfigures : ∀ inst, a.om.figures inst = b.om.figures inst := fun inst => by
    rw [ha.figures, hb.figures, (hperm.map _).sum_eq]
  refine ⟨fun inst => ?_, fun inst => ?_, ?_, fun id => ?_⟩
  · have hinst := hfigures inst
    simp only [OrderManager.figures, Prod.mk.injEq] at hinst
    exact ⟨hinst.1, hinst.2.1, hinst.2.2.1⟩
  · have hinst := hfigures inst
    simp only [OrderManager.figures, Prod.mk.injEq] at hinst
    exact hinst.2.2.2
  · ext id
    rw [ha.live, hb.live, Completes.perm hperm]
  · rw [ha.accepted, hb.accepted, total_perm hperm]

end Deliver

/-- Two orders, on two sides of an instrument. -/
def twoOrders : List Op :=
  [.submit { instrument := 7, size := 10, price := 5 },
    .submit { instrument := 7, side := .Sell, size := 3, price := 6 }]

/-- The first order is filled in two parts, and the second one at once, in between. -/
def twoOrdersFills : List FillEvent :=
  [⟨1, 4, 5, 9, 0⟩, ⟨encodeOrderId 0 0 1 2, 3, 6, 9, 0⟩, ⟨1, 6, 5, 10, 0⟩]

theorem twoOrders_deliverable : Deliverable (acceptingRun twoOrders).om twoOrdersFills :=
  ⟨by decide, by decide, by decide, by decide, by decide, by decide⟩

theorem twoOrders_commute :
    let s := acceptingRun twoOrders
    let a := s.deliverFills acceptingEnv twoOrdersFills
    let b := s.deliverFills acceptingEnv twoOrdersFills.reverse
    a.om.live = b.om.live ∧ (a.om.position 7).amount = (b.om.position 7).amount := by
  have hs : Reached acceptingEnv {} (acceptingRun twoOrders) :=
    acceptingRun_reached trivial (fun _ _ => trivial) fun _ _ => trivial
  have h := fills_commute hs twoOrders_deliverable (List.reverse_perm twoOrdersFills).symm
  exact ⟨h.2.2.1, (h.1 7).2.2⟩

end Oms
