import Oms.Foundation.Ascending
import Oms.OrderManager.Turns

/-!
# Runs of the manager as chains of changes

* `Turn.chain`, `step_changes`: every turn of a well-formed manager is a chain of changes, and so is
  every operation, whatever the world answers;
* `Reached`: the states reached from a fresh manager by a run that keeps a policy;
* `Reached.invariant`: what every change preserves holds of every reached manager.
-/

namespace Oms

open Relation OrderManager

/-- A chain of changes. -/
abbrev Chain (P : Policy) : OrderManager → OrderManager → Prop := ReflTransGen (Change P)

section Pieces

variable {P : Policy} {om om' : OrderManager} {id : OrderIdRaw} {f : Order → Order}

/-- Only flags, counters and texts differ. -/
theorem quiet_chain (h : om' = om.withDiagnostics om') : Chain P om om' :=
  .single (h ▸ .quiet om om')

/-- Closing an order keeps what its request fixed. -/
theorem modifyOrder_keeps (om : OrderManager) (id : OrderIdRaw) (hf : Order.Closing f) :
    (om.orderRef id).Keeps ((om.modifyOrder id f).orderRef id) := by
  rw [orderRef_modifyOrder]
  exact hf.keeps _

theorem settle_ended (h : om.WF) (hlive : om.Live id) (hf : Order.Closing f) :
    (om.settle id f).Ended id where
  current := hlive.current
  not_open := by
    show ¬ ((om.modifyOrder id f).orderRef id).Open
    rw [orderRef_modifyOrder]
    exact hf.not_open _
  notMem := h.notMem_fifo hlive.isOpen

/-- Enforcing the grace window touches the window, the pool and the expected cancel-rejects. -/
theorem expire_frame (om : OrderManager) : om.expire = { om with
    retiredFifo := om.expire.retiredFifo
    pool := om.expire.pool
    expectedFalseCancelRejects := om.expire.expectedFalseCancelRejects } := by
  unfold expire
  split_ifs
  · split <;> rfl
  · rfl

/-- Retiring an order writes nothing into the pool, and releases at most one slot. -/
theorem retire_pool (om : OrderManager) (id : OrderIdRaw) (inst : InstrumentId) (rem : Quantity)
    (side : Side) : (om.retire id inst rem side).pool = om.pool ∨
      ∃ slot, (om.retire id inst rem side).pool = om.pool.release slot := by
  unfold OrderManager.retire expire
  split_ifs
  · split
    · exact Or.inl rfl
    · dsimp only
      split_ifs
      · exact Or.inr ⟨_, rfl⟩
      · exact Or.inl rfl
  · exact Or.inl rfl

/-- Retiring writes no record. -/
theorem retire_orderRef (om : OrderManager) (k : OrderIdRaw) (inst : InstrumentId) (rem : Quantity)
    (side : Side) : (om.retire k inst rem side).orderRef id = om.orderRef id := by
  unfold orderRef
  rcases retire_pool om k inst rem side with hpool | ⟨slot, hpool⟩
  · rw [hpool]
  · rw [hpool, OrderPool.release_slots]

/-- Enforcing the grace window frees at most the slot at its head. -/
theorem expire_cases (h : om.WF) : om.expire = om ∨
    ∃ old rest, om.retiredFifo = old :: rest ∧ om.expire = om.releaseHead old rest := by
  unfold expire
  split_ifs
  · split
    · exact Or.inl rfl
    · rename_i old rest hfifo
      have hcur : om.pool.isCurrent old = true :=
        h.fifo_current old (by rw [hfifo]; exact List.mem_cons_self)
      rw [if_pos hcur]
      exact Or.inr ⟨old, rest, hfifo, rfl⟩
  · exact Or.inl rfl

theorem expire_chain (h : om.WF) : Chain P om om.expire := by
  rcases expire_cases h with heq | ⟨old, rest, hfifo, heq⟩
  · rw [heq]
  · rw [heq]
    exact .single (.releaseHead hfifo)

/-- Retiring an order that has ended, with nothing left to take out of the pending quantity. -/
theorem retire_chain (h : om.WF) (hended : om.Ended id) : Chain P om (om.shelve id).expire :=
  .head (.shelve hended) (expire_chain ((Change.shelve (P := P) hended).wf h))

/-- Retiring an order that was just closed. -/
theorem close_split (h : om.WF) (hlive : om.Live id) (hf : Order.Closing f)
    (hwrite : om' = (om.modifyOrder id f).withDiagnostics om') {inst : InstrumentId}
    {rem : Quantity} {side : Side} (hinst : (om.orderRef id).instrument = inst)
    (hrem : (om.orderRef id).remaining = rem) (hside : (om.orderRef id).side = side) :
    Chain P ((om.withDiagnostics om').settle id f) (om'.retire id inst rem side) := by
  subst hinst hrem hside
  have hlive' : (om.withDiagnostics om').Live id := ⟨hlive.current, hlive.isOpen⟩
  have h' : (om.withDiagnostics om').WF := (Change.quiet (P := {}) om om').wf h
  have hsettle : ((om.withDiagnostics om').settle id f).WF :=
    (Change.settle (P := {}) trivial hlive' hf).wf h'
  have hretire := retire_chain (P := P) hsettle (settle_ended h' hlive' hf)
  rw [hwrite]
  exact hretire

/-- Closing a working order, counting, and retiring it. -/
theorem close_chain (hmoves : P.moves) (h : om.WF) (hlive : om.Live id) (hf : Order.Closing f)
    (hwrite : om' = (om.modifyOrder id f).withDiagnostics om') {inst : InstrumentId}
    {rem : Quantity} {side : Side} (hinst : (om.orderRef id).instrument = inst)
    (hrem : (om.orderRef id).remaining = rem) (hside : (om.orderRef id).side = side) :
    Chain P om (om'.retire id inst rem side) := by
  have hlive' : (om.withDiagnostics om').Live id := ⟨hlive.current, hlive.isOpen⟩
  exact .head (.quiet om om') (.head (.settle hmoves hlive' hf)
    (close_split h hlive hf hwrite hinst hrem hside))

theorem applyFill_orderRef (om : OrderManager) (id : OrderIdRaw) (qty : Quantity) (price : Price)
    (trade : TradeId) (ts : Timestamp) :
    (om.applyFill id qty price trade ts).orderRef id = (om.orderRef id).addFill qty price ts :=
  orderRef_modifyOrder om id _

/-- A fill leaves the order open, or it ends it, and the order is retired. -/
theorem fill_cases (om : OrderManager) (id : OrderIdRaw) (qty : Quantity) (price : Price)
    (trade : TradeId) (ts : Timestamp) :
    let om₁ := om.applyFill id qty price trade ts
    ((om.orderRef id).addFill qty price ts).Open ∧ om.fill id qty price trade ts = om₁ ∨
      ¬ ((om.orderRef id).addFill qty price ts).Open ∧
        ∃ om₂, (om₂ = om₁ ∨ om₂ = om₁.expect id) ∧ om.fill id qty price trade ts =
          om₂.retire id (om₁.orderRef id).instrument 0 (om₁.orderRef id).side := by
  intro om₁
  have hopen := Order.addFill_open_iff qty price ts (om.orderRef id)
  have href : om₁.orderRef id = (om.orderRef id).addFill qty price ts := applyFill_orderRef ..
  unfold OrderManager.fill
  dsimp only
  split_ifs with hfinal
  · change (om₁.orderRef id).filledSize = (om₁.orderRef id).size at hfinal
    rw [href] at hfinal
    refine Or.inr ⟨fun h => hopen.1 h hfinal, ?_⟩
    unfold finishFill
    dsimp only
    split_ifs
    · exact ⟨om₁.expect id, Or.inr rfl, rfl⟩
    · exact ⟨om₁, Or.inl rfl, rfl⟩
  · change ¬ (om₁.orderRef id).filledSize = (om₁.orderRef id).size at hfinal
    rw [href] at hfinal
    exact Or.inl ⟨hopen.2 hfinal, rfl⟩

/-- A final fill ends the order. -/
theorem applyFill_ended (h : om.WF) {qty : Quantity} {price : Price} {trade : TradeId}
    {ts : Timestamp} (hok : om.validate id ⟨.Fill, trade, qty, price⟩ = .Ok)
    (hclosed : ¬ ((om.orderRef id).addFill qty price ts).Open) :
    (om.applyFill id qty price trade ts).Ended id where
  current := (validate_fill_ok_iff.1 hok).1
  not_open := by
    rw [applyFill_orderRef]
    exact hclosed
  notMem := h.notMem_fifo (validate_fill_ok_iff.1 hok).2.1

/-- What follows the accounting of an accepted fill. -/
theorem finish_chain (h : om.WF) {qty : Quantity} {price : Price} {trade : TradeId} {ts : Timestamp}
    (haddr : P.addresses (om.orderRef id).internalId id)
    (hok : om.validate id ⟨.Fill, trade, qty, price⟩ = .Ok) :
    Chain P (om.applyFill id qty price trade ts) (om.fill id qty price trade ts) := by
  have hwf : (om.applyFill id qty price trade ts).WF :=
    (Change.fill (P := {}) trivial trivial hok).wf h
  rcases fill_cases om id qty price trade ts with ⟨-, hfill⟩ | ⟨hclosed, om₂, hexpect, hfill⟩
  · rw [hfill]
  · rw [hfill]
    have hended := applyFill_ended h hok hclosed
    rcases hexpect with rfl | rfl
    · exact retire_chain hwf hended
    · have hexpect : Change P (om.applyFill id qty price trade ts)
          ((om.applyFill id qty price trade ts).expect id) := by
        refine .expect ?_ hended
        rw [applyFill_orderRef]
        exact haddr
      refine .head hexpect (retire_chain (hexpect.wf hwf) ?_)
      exact ⟨hended.current, hended.not_open, hended.notMem⟩

theorem fill_chain (hmoves : P.moves) (h : om.WF) {qty : Quantity} {price : Price}
    {trade : TradeId} {ts : Timestamp} (haddr : P.addresses (om.orderRef id).internalId id)
    (hok : om.validate id ⟨.Fill, trade, qty, price⟩ = .Ok) :
    Chain P om (om.fill id qty price trade ts) :=
  .head (.fill hmoves haddr hok) (finish_chain h haddr hok)

/-- The order an id was just booked for. -/
theorem booked_orderRef (om : OrderManager) (req : OrderRequest) (venue : VenueId)
    (now : Timestamp) (id : OrderIdRaw) (pool : OrderPool) :
    (om.booked req venue now id pool).orderRef id = req.stamp id now (pool.slots (slotOf id)) :=
  OrderPool.modify_slots_self

/-- A reservation that is unwound: what was booked is what `retire` takes out again. -/
theorem unwind_chain (hmoves : P.moves) (h : om.WF) {om₁ : OrderManager} {req : OrderRequest}
    {venue : VenueId} {now : Timestamp} (hreq : P.request req)
    (hres : om.reserve req venue now = some (id, om₁))
    (hwrite : om' = (om₁.modifyOrder id Order.failSend).withDiagnostics om') :
    Chain P om (om'.retire id req.instrument req.size req.side) := by
  have hbook : Change P om om₁ := .reserve hreq hres
  obtain ⟨pool, hacq, hid, rfl⟩ := h.reserve_cases hres
  refine .head hbook (close_chain hmoves (h.booked hacq) (h.booked_live hacq hid)
    Order.failSend_closing hwrite ?_ ?_ ?_)
  all_goals rw [booked_orderRef]
  · rfl
  · exact sub_zero _
  · rfl

end Pieces

/-! ### Turns -/

section Turns

variable {P : Policy} {om om' : OrderManager}

/-- Every turn of a well-formed manager is a chain of changes. -/
theorem Turn.chain (hturn : Turn P om om') (h : om.WF) : Chain P om om' := by
  cases hturn with
  | quiet d => exact .single (.quiet om d)
  | forgive id => exact .single (.forgive om id)
  | write hlive hf => exact .single (.touch hlive hf.touch)
  | fill hmoves haddr hok => exact fill_chain hmoves h haddr hok
  | @close om' id f hmoves haddr hlive hf hwrite =>
    have hkeeps := modifyOrder_keeps om id hf.closing
    refine close_chain hmoves h hlive hf.closing hwrite ?_ rfl ?_
    all_goals rw [hwrite]
    · exact hkeeps.instrument.symm
    · exact hkeeps.side.symm
  | place hreq hres =>
    have hbook := Change.reserve hreq hres
    obtain ⟨pool, hacq, hid, rfl⟩ := h.reserve_cases hres
    exact .head hbook (.single (.touch (h.booked_live hacq hid) (Order.markSent_touch _)))
  | unwind hmoves hreq hres hwrite => exact unwind_chain hmoves h hreq hres hwrite

theorem Turns.chain (hturns : Turns P om om') (h : om.WF) : Chain P om om' := by
  induction hturns with
  | refl => exact .refl
  | tail _ hturn ih => exact ih.trans (hturn.chain (Change.wf_of_chain ih h))

/-- Turns that submit, fill and close nothing are a chain of changes of any manager. -/
theorem Turns.chain_of_still (hturns : Turns still om om') : Chain P om om' := by
  induction hturns with
  | refl => exact .refl
  | tail _ hturn ih =>
    refine ih.tail ?_
    cases hturn with
    | quiet d => exact .quiet _ d
    | forgive id => exact .forgive _ id
    | write hlive hf => exact .touch hlive hf.touch
    | fill hmoves => exact hmoves.elim
    | close hmoves => exact hmoves.elim
    | place hreq => exact hreq.elim
    | unwind hmoves => exact hmoves.elim

end Turns

/-! ### Operations -/

section Operations

variable {W : Type} {E : Env W} {P : Policy} {s : State W} {id : OrderIdRaw} {ts : Timestamp}

theorem cancelWorkingOrders_chain (s : State W) : Chain P s.om (s.cancelWorkingOrders E).om :=
  (cancelWorkingOrders_turns s).chain_of_still

theorem checkAckTimeouts_chain (now timeout : Timestamp) (s : State W) :
    Chain P s.om (s.checkAckTimeouts E now timeout).om :=
  (checkAckTimeouts_turns now timeout s).chain_of_still

theorem cancel_chain (id : OrderIdRaw) (s : State W) : Chain P s.om (s.cancel E id).2.om :=
  (cancel_turns id s).chain_of_still

theorem onConfirm_chain (exchId : ExchangeOrderId) :
    Chain P s.om (s.onConfirm E id exchId ts).om :=
  (onConfirm_turns exchId).chain_of_still

theorem onCancelReject_chain : Chain P s.om (s.onCancelReject E id ts).om :=
  onCancelReject_turns.chain_of_still

theorem submit_chain (hmoves : P.moves) (h : s.om.WF) {req : OrderRequest} (hreq : P.request req) :
    Chain P s.om (s.submit E req).2.om :=
  (submit_turns hmoves hreq).chain h

end Operations

/-! ### Runs -/

section Runs

variable {W : Type} {E : Env W} {P : Policy}

/-- **Every operation is a chain of changes**, whatever the world behind the interfaces answers. -/
theorem step_changes {s : State W} {op : Op} (h : s.om.WF) (hop : P.Allows s op) :
    Chain P s.om (s.step E op).om :=
  (step_turns hop).chain h

/-- Without a policy, every operation is a chain of changes. -/
theorem step_chain {s : State W} (h : s.om.WF) (op : Op) : Chain {} s.om (s.step E op).om :=
  step_changes h ⟨fun _ _ => ⟨trivial, trivial⟩, fun _ _ => ⟨trivial, fun _ => trivial⟩⟩

/-- The states reached from a fresh manager, in any initial world, by a run that keeps a policy. -/
def Reached (E : Env W) (P : Policy) (s : State W) : Prop :=
  ∃ capacity w, (machine E).Reachable P.Allows ⟨.init capacity, w⟩ s

/-- What holds of a well-formed manager and survives every change survives every chain. -/
theorem Chain.invariant {I : OrderManager → Prop}
    (hchange : ∀ om om', om.WF → I om → Change P om om' → I om') {om om' : OrderManager}
    (hchain : Chain P om om') (h : om.WF) (hI : I om) : om'.WF ∧ I om' := by
  induction hchain with
  | refl => exact ⟨h, hI⟩
  | tail _ hc ih => exact ⟨hc.wf ih.1, hchange _ _ ih.1 ih.2 hc⟩

/-- What holds of a state and survives every change survives every run that keeps the policy. -/
theorem run_changes {I : OrderManager → Prop}
    (hchange : ∀ om om', om.WF → I om → Change P om om' → I om') {s : State W} {ops : List Op}
    (h : s.om.WF) (hI : I s.om) (hops : (machine E).Admits P.Allows s ops) :
    ((machine E).run s ops).om.WF ∧ I ((machine E).run s ops).om :=
  Machine.run_invariant (I := fun s : State W => s.om.WF ∧ I s.om)
    (fun _ _ hs hop => (step_changes hs.1 hop).invariant hchange hs.1 hs.2) ⟨h, hI⟩ hops

/-- **The invariant rule**: what holds of every fresh manager and survives every change holds of
every reached manager. -/
theorem Reached.invariant {I : OrderManager → Prop} (hinit : ∀ capacity, I (.init capacity))
    (hchange : ∀ om om', om.WF → I om → Change P om om' → I om') {s : State W}
    (hs : Reached E P s) : s.om.WF ∧ I s.om := by
  obtain ⟨capacity, w, ops, hops, rfl⟩ := hs
  exact run_changes hchange (wf_init capacity) (hinit capacity) hops

/-- What survives every turn survives every chain of turns. -/
theorem Turns.invariant {I : OrderManager → Prop}
    (hturn : ∀ om om', om.WF → I om → Turn P om om' → I om') {om om' : OrderManager}
    (hturns : Turns P om om') (h : om.WF) (hI : I om) : om'.WF ∧ I om' := by
  induction hturns with
  | refl => exact ⟨h, hI⟩
  | tail _ ht ih => exact ⟨Change.wf_of_chain (ht.chain ih.1) ih.1, hturn _ _ ih.1 ih.2 ht⟩

/-- What holds of a state and survives every turn survives every run that keeps the policy. -/
theorem run_turns {I : OrderManager → Prop}
    (hturn : ∀ om om', om.WF → I om → Turn P om om' → I om') {s : State W} {ops : List Op}
    (h : s.om.WF) (hI : I s.om) (hops : (machine E).Admits P.Allows s ops) :
    ((machine E).run s ops).om.WF ∧ I ((machine E).run s ops).om :=
  Machine.run_invariant (I := fun s : State W => s.om.WF ∧ I s.om)
    (fun _ _ hs hop => (step_turns hop).invariant hturn hs.1 hs.2) ⟨h, hI⟩ hops

/-- What holds of every fresh manager and survives every turn holds of every reached manager. -/
theorem Reached.turn_invariant {I : OrderManager → Prop} (hinit : ∀ capacity, I (.init capacity))
    (hturn : ∀ om om', om.WF → I om → Turn P om om' → I om') {s : State W}
    (hs : Reached E P s) : s.om.WF ∧ I s.om := by
  obtain ⟨capacity, w, ops, hops, rfl⟩ := hs
  exact run_turns hturn (wf_init capacity) (hinit capacity) hops

theorem Reached.wf {s : State W} (hs : Reached E P s) : s.om.WF :=
  (hs.invariant (I := fun _ => True) (fun _ => trivial) fun _ _ _ _ _ => trivial).1

/-- A policy that only restricts requests is kept by every run that submits such requests. -/
theorem admits_of_requests (hmoves : P.moves) {ops : List Op}
    (hreq : ∀ req, Op.submit req ∈ ops → P.request req)
    (haddr : ∀ internalId id, P.addresses internalId id) (s : State W) :
    (machine E).Admits P.Allows s ops := by
  induction ops generalizing s with
  | nil => trivial
  | cons op ops ih =>
    refine ⟨⟨fun req h => ⟨hmoves, ?_⟩, fun id _ => ⟨hmoves, fun _ => haddr _ id⟩⟩,
      ih (fun req h => ?_) _⟩
    · exact hreq req (h ▸ List.mem_cons_self)
    · exact hreq req (List.mem_cons_of_mem _ h)

/-- Without a policy, every run from a fresh manager reaches its end. -/
theorem reached_run (E : Env W) (capacity : PoolCapacity) (w : W) (ops : List Op) :
    Reached E {} ((machine E).run ⟨.init capacity, w⟩ ops) :=
  ⟨capacity, w, ops, admits_of_requests trivial (fun _ _ => trivial) (fun _ _ => trivial) _, rfl⟩

end Runs

/-! ### A world that accepts everything -/

/-- A venue that accepts every order and every cancel. -/
def acceptingClient : ExchangeClient Unit where
  placeOrder := fun _ w => (.Ok, w)
  cancelOrder := fun _ _ w => (.Ok, w)
  getPositions := fun w => (∅, w)
  getOrderBook := fun _ w => ({}, w)
  isConnected := fun _ => true

/-- The accepting client as the only venue, without health model, log and listeners. -/
def acceptingEnv : Env Unit where
  registry := ⟨[some acceptingClient]⟩
  router := ⟨fun _ _ _ w => (some 0, w)⟩
  health :=
    { onOrderSent := fun _ _ w => w
      onAck := fun _ _ w => w
      onReject := fun _ _ w => w
      onFill := fun _ w => w
      onTimeout := fun _ w => w
      onDisconnect := fun _ w => w
      onReconnect := fun _ w => w }
  log := fun _ _ w => w
  clock := fun _ => 0
  publish := fun _ _ w => w
  liveOrder := fun _ s => s.ascending
  mem_liveOrder := fun _ _ _ => Finset.mem_ascending
  nodup_liveOrder := fun _ s => s.nodup_ascending

def twoSlots : PoolCapacity := ⟨2, by decide⟩

/-- The state after `ops` on a fresh two-slot manager in that world. -/
def acceptingRun (ops : List Op) : State Unit :=
  (machine acceptingEnv).run ⟨.init twoSlots, ()⟩ ops

theorem acceptingRun_reached {P : Policy} {ops : List Op} (hmoves : P.moves)
    (hreq : ∀ req, Op.submit req ∈ ops → P.request req)
    (haddr : ∀ internalId id, P.addresses internalId id) :
    Reached acceptingEnv P (acceptingRun ops) :=
  ⟨_, (), ops, admits_of_requests hmoves hreq haddr _, rfl⟩

end Oms
