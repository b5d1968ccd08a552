import Mathlib.Tactic.Linarith
import Oms.SimulatedExchange.Agreement

/-!
# The schedule of the simulated venue

* `SimulatedExchange.book`: what a delivery does to the venue's own book;
* `drain_invariant`: what each delivery keeps, the loop of `poll` keeps;
* `SimConfig.Forward`, `Timely`, `Ahead`: nothing is scheduled in the past, or beyond the horizon;
* `step_ahead`: so it is with every call of a run; `simStep_chain`: what a call does to the manager;
* `delivered`: the events that a call delivers, in their order;
* `delivered_in_order`: over a whole run every event is delivered once, in the order of due time and
  sequence number, and not before it is due.
-/

namespace Oms

open OrderManager SimulatedExchange

/-! ### Delivery -/

/-- What an event does to the venue's own book. -/
def SimulatedExchange.book (ev : SimEvent) (x : SimulatedExchange) : SimulatedExchange :=
  match ev.type with
  | .Fill => x.bookFill ev
  | .Reject | .CancelAck | .Unsolicited => x.kill ev.id
  | .Confirm | .CancelReject => x

section Deliver

variable {B : Type} {E : SimulatedExchange → Env B} {venue : VenueId}
variable {s : State (SimulatedExchange × B)} {x : SimulatedExchange} {ev : SimEvent}

theorem book_frame : (x.book ev).cfg = x.cfg ∧ (x.book ev).now = x.now ∧
    (x.book ev).queue = x.queue ∧ (x.book ev).seqCounter = x.seqCounter := by
  unfold SimulatedExchange.book
  cases ev.type <;> simp

/-- Delivery does to the venue what the event does to its book. -/
theorem deliver_sim : (s.deliver (.withSim E venue) ev).world.1 = s.world.1.book ev := by
  have hworld : ∀ f op, op.inboundId = some ev.id →
      ((s.modifySim f).step (.withSim E venue) op).world.1 = f s.world.1 := fun f op hop =>
    step_inbound_world Env.withSim_bystander hop
  unfold State.deliver SimulatedExchange.book
  cases ev.type with
  | Confirm => exact hworld (fun x => x) (.confirm ev.id _ ev.dueAt) rfl
  | Fill => exact hworld (.bookFill ev) (.fill ev.id ev.qty ev.price ev.trade ev.dueAt) rfl
  | Reject => exact hworld (.kill ev.id) (.reject ev.id ev.reason ev.dueAt) rfl
  | CancelAck => exact hworld (.kill ev.id) (.cancelAck ev.id ev.dueAt) rfl
  | CancelReject => exact hworld (fun x => x) (.reject ev.id .CancelRejected ev.dueAt) rfl
  | Unsolicited => exact hworld (.kill ev.id) (.unsolicitedCancel ev.id ev.dueAt) rfl

/-- Take the next event from the queue and deliver it. -/
def State.deliverNext (E' : Env (SimulatedExchange × B)) (ev : SimEvent) (rest : List SimEvent)
    (s : State (SimulatedExchange × B)) : State (SimulatedExchange × B) :=
  (s.modifySim fun x => { x with queue := rest }).deliver E' ev

theorem deliverNext_sim {rest : List SimEvent} :
    (s.deliverNext (.withSim E venue) ev rest).world.1 =
      { s.world.1 with queue := rest }.book ev := deliver_sim

/-- What each delivery keeps, the loop of `poll` keeps. -/
theorem drain_invariant {E' : Env (SimulatedExchange × B)}
    {I : State (SimulatedExchange × B) → Prop}
    (hdeliver : ∀ {s ev rest}, s.world.1.queue = ev :: rest → ev.dueAt ≤ s.world.1.now → I s →
      I (s.deliverNext E' ev rest)) (fuel : ℕ) (hs : I s) : I (s.drain E' fuel) := by
  induction fuel generalizing s with
  | zero => exact hs
  | succ fuel ih =>
    unfold State.drain
    split
    · exact hs
    · rename_i ev rest hqueue
      split_ifs with hdue
      · exact ih (hdeliver hqueue hdue hs)
      · exact hs

end Deliver

/-! ### What is scheduled -/

/-- From `x` to `x'` events with `P` were added to the queue, under the next numbers. -/
structure Scheduled (P : SimEvent → Prop) (x x' : SimulatedExchange) : Prop where
  cfg : x'.cfg = x.cfg
  now : x'.now = x.now
  orderly : x.Orderly → x'.Orderly
  added : ∃ new : List SimEvent, x'.queue.Perm (x.queue ++ new) ∧ (∀ ev ∈ new, P ev) ∧
    new.map SimEvent.seq = List.range' x.seqCounter new.length ∧
    x'.seqCounter = x.seqCounter + new.length

section Scheduled

variable {P : SimEvent → Prop} {x x' x'' : SimulatedExchange} {ev : SimEvent}

/-- The queue and its numbers are the same. -/
theorem Scheduled.of_eq (hcfg : x'.cfg = x.cfg) (hnow : x'.now = x.now)
    (hqueue : x'.queue = x.queue) (hseq : x'.seqCounter = x.seqCounter) : Scheduled P x x' where
  cfg := hcfg
  now := hnow
  orderly := fun h => ⟨hqueue ▸ h.sorted, fun ev hev => hseq ▸ h.seq_lt ev (hqueue ▸ hev)⟩
  added := ⟨[], by rw [hqueue, List.append_nil], nofun, rfl, hseq⟩

theorem Scheduled.refl (x : SimulatedExchange) : Scheduled P x x := .of_eq rfl rfl rfl rfl

theorem Scheduled.trans (h : Scheduled P x x') (h' : Scheduled P x' x'') :
    Scheduled P x x'' where
  cfg := h'.cfg.trans h.cfg
  now := h'.now.trans h.now
  orderly := fun ho => h'.orderly (h.orderly ho)
  added := by
    obtain ⟨new, hperm, hnew, hseqs, hcount⟩ := h.added
    obtain ⟨new', hperm', hnew', hseqs', hcount'⟩ := h'.added
    refine ⟨new ++ new', ?_, fun ev hev => ?_, ?_, ?_⟩
    · rw [← List.append_assoc]
      exact hperm'.trans (hperm.append_right new')
    · exact (List.mem_append.1 hev).elim (hnew ev) (hnew' ev)
    · rw [List.map_append, hseqs, hseqs', hcount, List.length_append, List.range'_append_1]
    · rw [hcount', hcount, List.length_append, Nat.add_assoc]

theorem schedule_scheduled (hP : P { ev with seq := x.seqCounter }) :
    Scheduled P x (x.schedule ev) where
  cfg := rfl
  now := rfl
  orderly := fun h => h.schedule ev
  added := by
    refine ⟨[{ ev with seq := x.seqCounter }], ?_, fun e he => ?_, rfl, rfl⟩
    · exact (List.perm_orderedInsert _ _ _).trans (List.perm_append_singleton _ _).symm
    · rw [List.mem_singleton] at he
      exact he ▸ hP

/-- Nothing leaves the queue. -/
theorem Scheduled.kept (h : Scheduled P x x') (hev : ev ∈ x.queue) : ev ∈ x'.queue := by
  obtain ⟨new, hperm, -⟩ := h.added
  exact hperm.mem_iff.2 (List.mem_append_left _ hev)

/-- What is new in the queue was scheduled. -/
theorem Scheduled.mem (h : Scheduled P x x') (hev : ev ∈ x'.queue) : ev ∈ x.queue ∨ P ev := by
  obtain ⟨new, hperm, hnew, -⟩ := h.added
  exact (List.mem_append.1 (hperm.mem_iff.1 hev)).imp_right (hnew ev)

end Scheduled

/-! ### Not in the past, and not beyond the horizon -/

/-- Latencies are not negative, and a fill that overtakes its confirm is still ahead. -/
structure SimConfig.Forward (cfg : SimConfig) : Prop where
  ack : 0 ≤ cfg.ackLatencyNs
  fill : 0 ≤ cfg.fillLatencyNs
  gap : 0 ≤ cfg.fillGapNs
  reorder : cfg.reorderFillBeforeAck = true → 0 < cfg.ackLatencyNs

/-- The longest time from a call to an event that it schedules. -/
def SimConfig.horizon (cfg : SimConfig) : Timestamp :=
  cfg.ackLatencyNs + cfg.fillLatencyNs + ((chunks cfg).toInt - 1) * cfg.fillGapNs + 1

/-- Scheduled at `now`, and neither for the past nor for beyond the horizon. -/
def Timely (cfg : SimConfig) (now : Timestamp) (ev : SimEvent) : Prop :=
  now ≤ ev.dueAt ∧ ev.dueAt ≤ now + cfg.horizon

/-- From `x` to `x'` only timely events were scheduled. -/
def Ahead (x x' : SimulatedExchange) : Prop := Scheduled (Timely x.cfg x.now) x x'

section Ahead

variable {x x' x'' : SimulatedExchange} {cfg : SimConfig} {ev : SimEvent}

theorem Ahead.refl (x : SimulatedExchange) : Ahead x x := Scheduled.refl x

theorem Ahead.trans (h : Ahead x x') (h' : Ahead x' x'') : Ahead x x'' := by
  unfold Ahead at h'
  rw [h.cfg, h.now] at h'
  exact Scheduled.trans h h'

theorem schedule_ahead (hev : ∀ n, Timely x.cfg x.now { ev with seq := n }) :
    Ahead x (x.schedule ev) := schedule_scheduled (hev _)

theorem draw_ahead : Ahead x x.draw.2 := Scheduled.of_eq rfl rfl rfl rfl

theorem SimConfig.Forward.gaps_nonneg (h : cfg.Forward) :
    0 ≤ ((chunks cfg).toInt - 1) * cfg.fillGapNs := by
  have hone := (one_le_chunks cfg).1
  have hgap := h.gap
  exact mul_nonneg (by omega) hgap

/-- The answer to a call is timely. -/
theorem SimConfig.Forward.timely_ack (h : cfg.Forward) (now : Timestamp)
    (hdue : ev.dueAt = now + cfg.ackLatencyNs) : Timely cfg now ev := by
  have hgaps := h.gaps_nonneg
  have hack := h.ack
  have hfill := h.fill
  unfold Timely SimConfig.horizon
  rw [hdue]
  constructor <;> linarith

theorem scheduleFill_ahead (hdue : x.now ≤ ev.dueAt)
    (hsoon : ev.dueAt + 1 ≤ x.now + x.cfg.horizon) : Ahead x (x.scheduleFill ev) := by
  have hcount : Ahead x { x with tradeCounter := x.tradeCounter + 1 } :=
    Scheduled.of_eq rfl rfl rfl rfl
  have hfirst : Ahead { x with tradeCounter := x.tradeCounter + 1 }
      ({ x with tradeCounter := x.tradeCounter + 1 }.schedule
        { ev with trade := UInt64.ofNat (x.tradeCounter + 1) }) :=
    schedule_ahead fun _ => ⟨hdue, (Int.le_of_lt (Int.lt_succ _)).trans hsoon⟩
  have hdrawn := (hcount.trans hfirst).trans draw_ahead
  show Ahead x (if _ then _ else _)
  split_ifs
  · refine hdrawn.trans (schedule_ahead fun _ => ?_)
    exact ⟨hdue.trans (Int.le_of_lt (Int.lt_succ _)), hsoon⟩
  · exact hdrawn

/-- A fill and its duplicate are due between now and the horizon. -/
theorem SimConfig.Forward.fill_due (h : cfg.Forward) (now : Timestamp) {i : ℤ} (hi : 0 ≤ i)
    (hlast : i ≤ (chunks cfg).toInt - 1) {due : Timestamp}
    (hdue : due = if cfg.reorderFillBeforeAck = true ∧ i = 0 then now + cfg.ackLatencyNs - 1
      else now + cfg.fillLatencyNs + i * cfg.fillGapNs) :
    now ≤ due ∧ due + 1 ≤ now + cfg.horizon := by
  have hgaps := h.gaps_nonneg
  have hack := h.ack
  have hfill := h.fill
  unfold SimConfig.horizon
  subst hdue
  split_ifs with hearly
  · have hreorder : 1 ≤ cfg.ackLatencyNs := h.reorder hearly.1
    constructor <;> linarith
  · have hfirst : 0 ≤ i * cfg.fillGapNs := mul_nonneg hi h.gap
    have hmono : i * cfg.fillGapNs ≤ ((chunks cfg).toInt - 1) * cfg.fillGapNs :=
      mul_le_mul_of_nonneg_right hlast h.gap
    constructor <;> linarith

theorem scheduleFills_ahead (id : OrderIdRaw) (size : Quantity) (price : Price) (base : Quantity)
    {confirmAt : Timestamp} (left : ℕ) (i : ℤ) (assigned : Quantity) (h : x.cfg.Forward)
    (hconfirm : confirmAt = x.now + x.cfg.ackLatencyNs) (hi : 0 ≤ i)
    (hleft : i + left = (chunks x.cfg).toInt) :
    Ahead x (x.scheduleFills id size price base confirmAt left i assigned) := by
  induction left generalizing i assigned x with
  | zero => exact .refl x
  | succ left ih =>
    have hnext : i + 1 + left = (chunks x.cfg).toInt := by
      push_cast at hleft
      linarith
    unfold scheduleFills
    dsimp only
    generalize (if decide (left = 0) = true then size - assigned else base) = q
    generalize hdue : (if x.cfg.reorderFillBeforeAck = true ∧ i = 0 then confirmAt - 1
      else x.now + x.cfg.fillLatencyNs + i * x.cfg.fillGapNs) = due
    split_ifs
    · exact ih (i + 1) _ h hconfirm (by omega) hnext
    · rw [hconfirm] at hdue
      obtain ⟨hpast, hsoon⟩ := h.fill_due x.now hi (by omega) hdue.symm
      have hfirst : Ahead x (x.scheduleFill
          { dueAt := due, type := .Fill, id := id, qty := q, price := price,
            final := decide (left = 0) }) :=
        scheduleFill_ahead hpast hsoon
      refine hfirst.trans (ih (i + 1) _ ?_ ?_ (by omega) ?_)
      · rw [hfirst.cfg]
        exact h
      · rw [hfirst.cfg, hfirst.now]
        exact hconfirm
      · rw [hfirst.cfg]
        exact hnext

theorem scheduleOutcome_ahead (o : Order) (h : x.cfg.Forward) : Ahead x (x.scheduleOutcome o) := by
  have hdraw : Ahead x x.draw.2 := draw_ahead
  unfold scheduleOutcome
  rcases hy : x.draw with ⟨rejected, y⟩
  rw [hy] at hdraw
  have hfwd : y.cfg.Forward := by
    rw [hdraw.cfg]
    exact h
  dsimp only
  split
  · exact hdraw.trans (schedule_ahead fun _ => hfwd.timely_ack _ rfl)
  · generalize hev : ({ dueAt := _, type := .Confirm, id := o.internalId } : SimEvent) = ev
    have hconfirm : Ahead y (y.schedule ev) := by
      subst hev
      exact schedule_ahead fun _ => hfwd.timely_ack _ rfl
    have hdraw' : Ahead (y.schedule ev) (y.schedule ev).draw.2 := draw_ahead
    rcases hz : (y.schedule ev).draw with ⟨unsolicited, z⟩
    rw [hz] at hdraw'
    have hyz := hconfirm.trans hdraw'
    have hfwd' : z.cfg.Forward := by
      rw [hyz.cfg]
      exact hfwd
    dsimp only
    rw [← hyz.cfg, ← hyz.now]
    refine (hdraw.trans hyz).trans ?_
    split
    · refine schedule_ahead fun _ => ?_
      have hgaps := hfwd'.gaps_nonneg
      have hack := hfwd'.ack
      have hfill := hfwd'.fill
      unfold Timely SimConfig.horizon
      constructor <;> linarith
    · have hone := (one_le_chunks z.cfg).1
      dsimp only
      exact scheduleFills_ahead _ _ _ _ _ _ _ hfwd' rfl (le_refl _) (by omega)

theorem placeOrder_ahead (o : Order) (h : x.cfg.Forward) : Ahead x (x.placeOrder o).2 := by
  have henter : Ahead x (x.enter o) := Scheduled.of_eq rfl rfl rfl rfl
  rcases placeOrder_cases o x with hp | hp
  · rw [hp]
    exact .refl x
  · rw [hp]
    exact henter.trans (scheduleOutcome_ahead o h)

theorem cancelOrder_ahead (id : OrderIdRaw) (h : x.cfg.Forward) :
    Ahead x (x.cancelOrder id).2 := by
  unfold cancelOrder
  split_ifs
  · exact .refl x
  · exact schedule_ahead fun _ => h.timely_ack _ rfl
  · exact schedule_ahead fun _ => h.timely_ack _ rfl

theorem massCancel_ahead (inst : InstrumentId) (h : x.cfg.Forward) :
    Ahead x (x.massCancel inst).2 := by
  have hwalk : ∀ (ids : List OrderIdRaw) (y : SimulatedExchange), Ahead x y →
      Ahead x (ids.foldl (fun y id =>
        if (x.working.lookup id).any fun w => w.alive && w.instrument = inst then
          y.schedule { dueAt := y.now + y.cfg.ackLatencyNs, type := .CancelAck, id := id }
        else y) y) := by
    intro ids
    induction ids with
    | nil => exact fun y hy => hy
    | cons id ids ih =>
      intro y hy
      have hfwd : y.cfg.Forward := by
        rw [hy.cfg]
        exact h
      rw [List.foldl_cons]
      refine ih _ ?_
      split_ifs
      · exact hy.trans (schedule_ahead fun _ => hfwd.timely_ack _ rfl)
      · exact hy
  unfold massCancel
  split_ifs
  · exact .refl x
  · exact hwalk _ x (.refl x)

end Ahead

/-! ### Calls -/

section Calls

variable {B : Type} {E : SimulatedExchange → Env B} {venue : VenueId}
variable {s : State (SimulatedExchange × B)}

theorem Env.withSim_ahead : (Env.withSim E venue).Canceller fun w w' =>
    w.1.cfg.Forward → Ahead w.1 w'.1 where
  refl := fun w _ => .refl w.1
  trans := fun h h' hfwd => by
    have hfirst := h hfwd
    refine hfirst.trans (h' ?_)
    rw [hfirst.cfg]
    exact hfwd
  log := fun _ _ w _ => .refl w.1
  publish := fun _ _ w _ => .refl w.1
  select := fun _ _ _ w _ => .refl w.1
  onAck := fun _ _ w _ => .refl w.1
  onReject := fun _ _ w _ => .refl w.1
  onFill := fun _ w _ => .refl w.1
  onTimeout := fun _ w _ => .refl w.1
  onDisconnect := fun _ w _ => .refl w.1
  onReconnect := fun _ w _ => .refl w.1
  cancelOrder := fun hex id _ w hfwd => by
    rw [registry_withSim hex]
    exact cancelOrder_ahead id hfwd

/-- Placing at the venue is all that a reserved order does to it. -/
theorem place_sim (req : OrderRequest) (v : VenueId) (s : State (SimulatedExchange × B)) :
    (s.place (.withSim E venue) req v simClient).2.world.1 = s.world.1 ∨
      ∃ id om, s.om.reserve req v ((Env.withSim E venue).clock s.world) = some (id, om) ∧
        (s.place (.withSim E venue) req v simClient).2.world.1 =
          (s.world.1.placeOrder (om.orderRef id)).2 := by
  unfold State.place
  dsimp only
  cases hres : s.om.reserve req v ((Env.withSim E venue).clock s.world) with
  | none => exact Or.inl rfl
  | some reserved =>
    obtain ⟨id, om⟩ := reserved
    refine Or.inr ⟨id, om, rfl, ?_⟩
    dsimp only
    split_ifs <;> rfl

/-- A call to the manager schedules only what is timely. -/
theorem step_ahead (hfwd : s.world.1.cfg.Forward) (op : Op) :
    Ahead s.world.1 (s.step (.withSim E venue) op).world.1 := by
  have hwires := @Env.withSim_ahead B E venue
  cases hinbound : op.inboundId with
  | some id =>
    have hsame : (s.step (.withSim E venue) op).world.1 = s.world.1 :=
      step_inbound_world Env.withSim_bystander hinbound
    rw [hsame]
    exact .refl _
  | none =>
    cases op with
    | submit req =>
      show Ahead s.world.1 (s.submit (.withSim E venue) req).2.world.1
      rcases submit_cases hwires s req with ⟨-, hworld, -⟩ | ⟨v, ex, w, hplacing⟩
      · exact hworld hfwd
      · have hrouted := hplacing.world hfwd
        have hclient := registry_withSim hplacing.found
        subst hclient
        rw [hplacing.place]
        rcases place_sim req v { s with world := w } with hsame | ⟨id, om, -, hplaced⟩
        · rw [hsame]
          exact hrouted
        · rw [hplaced]
          refine hrouted.trans (placeOrder_ahead _ ?_)
          rw [hrouted.cfg]
          exact hfwd
    | cancel id => exact cancel_world hwires id s hfwd
    | checkAckTimeouts now timeout => exact checkAckTimeouts_world hwires now timeout s hfwd
    | confirm | fill | reject | cancelAck | unsolicitedCancel => cases hinbound
    | _ => exact .refl _

/-- So does every call of a run that is no poll. -/
theorem simStep_ahead (hfwd : s.world.1.cfg.Forward) {op : SimOp} (hop : op ≠ .poll) :
    Ahead s.world.1 ((simMachine E venue).step s op).world.1 := by
  cases op with
  | oms op => exact step_ahead hfwd op
  | massCancel inst => exact massCancel_ahead inst hfwd
  | setConnected c => exact Scheduled.of_eq rfl rfl rfl rfl
  | setBook inst b => exact Scheduled.of_eq rfl rfl rfl rfl
  | poll => exact absurd rfl hop

/-- What a call does to the manager is a chain of its changes. -/
theorem simStep_chain (hwf : s.om.WF) {op : SimOp} (hop : op.Allowed) :
    Chain sized s.om ((simMachine E venue).step s op).om := by
  cases op with
  | oms op =>
    refine step_changes hwf ⟨fun req hreq => ⟨trivial, (hop.2 req hreq).1⟩, fun id hid => ?_⟩
    rw [hop.1] at hid
    cases hid
  | poll => exact drain_chain (s := s.modifySim _) _ hwf
  | massCancel | setConnected | setBook => exact .refl

/-! ### What is delivered -/

/-- The events that the loop of `poll` delivers. -/
def State.drained (E' : Env (SimulatedExchange × B)) :
    (fuel : ℕ) → State (SimulatedExchange × B) → List SimEvent
  | 0, _ => []
  | fuel + 1, s =>
    match s.world.1.queue with
    | [] => []
    | ev :: rest =>
      if ev.dueAt ≤ s.world.1.now then ev :: State.drained E' fuel (s.deliverNext E' ev rest)
      else []

/-- The state in which a poll starts to deliver. -/
def State.advance (s : State (SimulatedExchange × B)) : State (SimulatedExchange × B) :=
  s.modifySim fun x => { x with now := x.now + x.cfg.stepNs }

/-- The events that a call delivers, in their order. -/
def delivered (E : SimulatedExchange → Env B) (venue : VenueId)
    (s : State (SimulatedExchange × B)) : SimOp → List SimEvent
  | .poll => s.advance.drained (.withSim E venue) s.world.1.queue.length
  | _ => []

/-- The loop takes what it delivers from the front of the queue, and delivers only what is due. -/
theorem drained_spec (fuel : ℕ) (s : State (SimulatedExchange × B)) :
    s.world.1.queue =
        s.drained (.withSim E venue) fuel ++ (s.drain (.withSim E venue) fuel).world.1.queue ∧
      (∀ ev ∈ s.drained (.withSim E venue) fuel, ev.dueAt ≤ s.world.1.now) ∧
      (s.drain (.withSim E venue) fuel).world.1.cfg = s.world.1.cfg ∧
      (s.drain (.withSim E venue) fuel).world.1.now = s.world.1.now ∧
      (s.drain (.withSim E venue) fuel).world.1.seqCounter = s.world.1.seqCounter := by
  induction fuel generalizing s with
  | zero => exact ⟨rfl, nofun, rfl, rfl, rfl⟩
  | succ fuel ih =>
    cases hqueue : s.world.1.queue with
    | nil =>
      rw [State.drained, State.drain, hqueue]
      exact ⟨hqueue.symm, nofun, rfl, rfl, rfl⟩
    | cons ev rest =>
      rw [State.drained, State.drain, hqueue]
      dsimp only
      split_ifs with hdue
      · have hsim : (s.deliverNext (.withSim E venue) ev rest).world.1 = _ := deliverNext_sim
        obtain ⟨hcfg, hnow, hrest, hseq⟩ :=
          @book_frame { s.world.1 with queue := rest } ev
        rw [← hsim] at hcfg hnow hrest hseq
        obtain ⟨hsplit, hall, hcfg', hnow', hseq'⟩ := ih (s.deliverNext (.withSim E venue) ev rest)
        rw [hrest] at hsplit
        rw [hnow] at hall
        refine ⟨congrArg (ev :: ·) hsplit, fun e he => ?_, hcfg'.trans hcfg, hnow'.trans hnow,
          hseq'.trans hseq⟩
        rcases List.mem_cons.1 he with rfl | he
        · exact hdue
        · exact hall e he
      · exact ⟨hqueue.symm, nofun, rfl, rfl, rfl⟩

end Calls

/-! ### Every run -/

section Runs

variable {B : Type} {E : SimulatedExchange → Env B} {venue : VenueId}
variable {s : State (SimulatedExchange × B)} {op : SimOp} {past : List SimEvent}

/-- What was delivered and what is queued, in order, is everything that was scheduled. -/
structure InOrder (x : SimulatedExchange) (past : List SimEvent) : Prop where
  forward : x.cfg.Forward
  step : 0 ≤ x.cfg.stepNs
  orderly : x.Orderly
  sorted : (past ++ x.queue).Pairwise (· ≤ ·)
  once : ((past ++ x.queue).map SimEvent.seq).Perm (List.range x.seqCounter)
  due : ∀ ev ∈ past, ev.dueAt ≤ x.now

/-- Every number in use is below the next one. -/
theorem InOrder.seq_lt {x : SimulatedExchange} (h : InOrder x past) {ev : SimEvent}
    (hev : ev ∈ past ++ x.queue) : ev.seq < x.seqCounter :=
  List.mem_range.1 (h.once.mem_iff.1 (List.mem_map_of_mem hev))

theorem InOrder.ahead {x x' : SimulatedExchange} (h : InOrder x past) (hahead : Ahead x x') :
    InOrder x' past where
  forward := by
    rw [hahead.cfg]
    exact h.forward
  step := by
    rw [hahead.cfg]
    exact h.step
  orderly := hahead.orderly h.orderly
  sorted := by
    obtain ⟨new, hperm, htimely, hseqs, -⟩ := hahead.added
    rw [List.pairwise_append]
    refine ⟨(List.pairwise_append.1 h.sorted).1, (hahead.orderly h.orderly).sorted, ?_⟩
    intro ev hev ev' hev'
    rcases List.mem_append.1 (hperm.mem_iff.1 hev') with hold | hnew
    · exact (List.pairwise_append.1 h.sorted).2.2 ev hev ev' hold
    · -- what is new is due later, or is numbered later
      have hdue := (h.due ev hev).trans (htimely ev' hnew).1
      have hlt := h.seq_lt (List.mem_append_left _ hev)
      have hge : x.seqCounter ≤ ev'.seq := by
        have hmem := List.mem_map_of_mem (f := SimEvent.seq) hnew
        rw [hseqs] at hmem
        exact (List.mem_range'_1.1 hmem).1
      rw [SimEvent.le_iff]
      rcases hdue.lt_or_eq with hlater | heq
      · exact Or.inl hlater
      · exact Or.inr ⟨heq, hlt.le.trans hge⟩
  once := by
    obtain ⟨new, hperm, -, hseqs, hcount⟩ := hahead.added
    have happend : (past ++ x'.queue).Perm (past ++ x.queue ++ new) := by
      rw [List.append_assoc]
      exact hperm.append_left past
    refine (happend.map _).trans ?_
    rw [List.map_append, hseqs, hcount, List.range_add]
    refine h.once.append ?_
    rw [List.range'_eq_map_range]
  due := fun ev hev => by
    rw [hahead.now]
    exact h.due ev hev

theorem InOrder.poll (h : InOrder s.world.1 past) :
    InOrder (s.poll (.withSim E venue)).world.1 (past ++ delivered E venue s .poll) := by
  obtain ⟨hsplit, hdue, hcfg, hnow, hseq⟩ :=
    @drained_spec B E venue s.world.1.queue.length s.advance
  have hpast : past ++ delivered E venue s .poll ++ (s.poll (.withSim E venue)).world.1.queue =
      past ++ s.world.1.queue := by
    rw [List.append_assoc]
    exact congrArg (past ++ ·) hsplit.symm
  have hcfg : (s.poll (.withSim E venue)).world.1.cfg = s.world.1.cfg := hcfg
  have hnow : (s.poll (.withSim E venue)).world.1.now =
    s.world.1.now + s.world.1.cfg.stepNs := hnow
  have hseq : (s.poll (.withSim E venue)).world.1.seqCounter = s.world.1.seqCounter := hseq
  have hsorted := h.sorted
  rw [← hpast] at hsorted
  refine ⟨hcfg ▸ h.forward, hcfg ▸ h.step, ⟨?_, fun ev hev => ?_⟩, hsorted, ?_, fun ev hev => ?_⟩
  · exact (List.pairwise_append.1 hsorted).2.1
  · rw [hseq]
    refine h.seq_lt (hpast ▸ List.mem_append_right _ hev)
  · rw [hpast, hseq]
    exact h.once
  · rw [hnow]
    rcases List.mem_append.1 hev with hev | hev
    · exact (h.due ev hev).trans (le_add_of_nonneg_right h.step)
    · exact hdue ev hev

/-- **The venue delivers in order.** Let no latency and no step of the clock be negative, and let
the ack latency be positive where a fill may overtake its confirm. Over a whole run everything that
was scheduled is either delivered or still queued, once, and the delivered events and then the
queued ones are in the order of due time and sequence number. No event is delivered before it is
due, and after a poll every event that is left is due later. -/
theorem delivered_in_order {B : Type} (E : SimulatedExchange → Env B) (venue : VenueId)
    (cfg : SimConfig) (hfwd : cfg.Forward) (hstep : 0 ≤ cfg.stepNs) (capacity : PoolCapacity)
    (b : B) (ops : List SimOp) :
    let s₀ : State (SimulatedExchange × B) := ⟨.init capacity, .init cfg, b⟩
    let s := (simMachine E venue).run s₀ ops
    let past := (simMachine E venue).trace (delivered E venue) s₀ ops
    (past ++ s.world.1.queue).Pairwise (· ≤ ·) ∧
      ((past ++ s.world.1.queue).map SimEvent.seq).Perm (List.range s.world.1.seqCounter) ∧
      (∀ ev ∈ past, ev.dueAt ≤ s.world.1.now) ∧
      ∀ ev ∈ ((simMachine E venue).step s .poll).world.1.queue,
        ((simMachine E venue).step s .poll).world.1.now < ev.dueAt := by
  intro s₀ s past
  have hinit : InOrder s₀.world.1 [] :=
    ⟨hfwd, hstep, ⟨List.Pairwise.nil, nofun⟩, List.Pairwise.nil, .refl _, nofun⟩
  have hall : InOrder s.world.1 past := by
    refine Machine.run_trace_invariant (G := fun _ _ => True)
      (I := fun (s : State (SimulatedExchange × B)) past => InOrder s.world.1 past)
      (fun s op past h _ => ?_) hinit
      (Machine.admits_true _ _ _)
    by_cases hop : op = .poll
    · subst hop
      exact h.poll
    · have hnone : delivered E venue s op = [] := by
        cases op with
        | poll => exact absurd rfl hop
        | _ => rfl
      rw [hnone, List.append_nil]
      exact h.ahead (simStep_ahead h.forward hop)
  refine ⟨hall.sorted, hall.once, hall.due, fun ev hev => ?_⟩
  -- the first event that is left is due later, and the others are not due before it
  have hsorted := (@InOrder.poll B E venue s past hall).orderly.sorted
  have hlater := @poll_done B E venue s
  revert hev hsorted hlater
  show ev ∈ (s.poll (.withSim E venue)).world.1.queue → _ → _ →
    (s.poll (.withSim E venue)).world.1.now < ev.dueAt
  cases (s.poll (.withSim E venue)).world.1.queue with
  | nil => exact fun hev => absurd hev List.not_mem_nil
  | cons first rest =>
    intro hev hsorted hlater
    have hfirst := hlater first rfl
    rcases List.mem_cons.1 hev with rfl | hev
    · exact hfirst
    · have hle := (List.pairwise_cons.1 hsorted).1 ev hev
      rw [SimEvent.le_iff] at hle
      lia

/-- In the run of three chunks every event is delivered in order. -/
theorem delivered_in_order_chunks :
    ((simMachine (fun _ => acceptingEnv) 0).trace (delivered (fun _ => acceptingEnv) 0)
        ⟨.init twoSlots, .init chunkedConfig, ()⟩ chunkedOps ++
      chunkedRun.world.1.queue).Pairwise (· ≤ ·) := by
  have hfwd : chunkedConfig.Forward := ⟨by decide, by decide, by decide, by decide⟩
  exact (delivered_in_order (fun _ => acceptingEnv) 0 chunkedConfig hfwd (by decide) twoSlots ()
    chunkedOps).1

end Runs

end Oms
