import Oms.SimulatedExchange.Schedule

/-!
# Every order at the simulated venue ends

* `Doomed`: the queue holds an event that ends an order;
* `scheduleOutcome_doomed`: so it is for a new order of positive size;
* `book_fated`: a delivery ends an order, or leaves the event that ends it in the queue;
* `step_fated`: so every order that trades is doomed, after every call of a run;
* `orders_end`: once the clock has passed the horizon the queue is empty, every order of the manager
  is terminal, nothing is pending and the positions are those of the venue.
-/

namespace Oms

open OrderManager SimulatedExchange

/-- The event ends the order of an id, whatever it filled. -/
def Terminates (id : OrderIdRaw) (ev : SimEvent) : Prop :=
  ev.id = id ∧ (ev.type = .Reject ∨ ev.type = .CancelAck ∨ ev.type = .Unsolicited)

/-- The queue ends the order of an id whose trades were seen: it holds an event that ends it, or a
fill that still counts and is final. -/
def Doomed (id : OrderIdRaw) (seen : Finset TradeId) (queue : List SimEvent) : Prop :=
  (∃ ev ∈ queue, Terminates id ev) ∨ ∃ ev ∈ fillsOf id seen queue, ev.final = true

/-- Every order that trades is doomed. -/
def SimulatedExchange.Fated (x : SimulatedExchange) : Prop :=
  ∀ id e, x.exposure id = some e → Doomed id e.trades x.queue

/-! ### New orders -/

section New

variable {x : SimulatedExchange} {id : OrderIdRaw}

/-- The last fill of an order is final. -/
theorem scheduleFills_final {size : Quantity} {price : Price} {base : Quantity}
    (confirmAt : Timestamp) (t₀ : ℕ) (hbase : 0 ≤ base) (left : ℕ) (i : ℤ) (assigned : Quantity)
    (h : x.Orderly) (hreorder : x.cfg.reorderFillBeforeAck = false) (hgap : 0 ≤ x.cfg.fillGapNs)
    (hleft : 0 < left) (hrest : left * base ≤ size - assigned ∧ 0 < size - assigned)
    (hsince : x.TradedSince id t₀ (x.now + x.cfg.fillLatencyNs + i * x.cfg.fillGapNs))
    (hcount : x.tradeCounter + left ≤ t₀ + 2 ^ 32) (hle : t₀ ≤ x.tradeCounter) :
    ∃ ev ∈ fillsOf id ∅ (x.scheduleFills id size price base confirmAt left i assigned).queue,
      ev.final = true := by
  induction left generalizing i assigned x with
  | zero => exact absurd hleft (lt_irrefl 0)
  | succ left ih =>
    obtain ⟨hmul, hpos⟩ := hrest
    push_cast at hmul
    have hchunk := chunk_of_mul_le hbase hmul hpos
    have hnext : x.now + x.cfg.fillLatencyNs + i * x.cfg.fillGapNs ≤
        x.now + x.cfg.fillLatencyNs + (i + 1) * x.cfg.fillGapNs := by linarith
    unfold scheduleFills
    dsimp only
    generalize (if decide (left = 0) = true then size - assigned else base) = q at hchunk ⊢
    have hrest' : 0 < left → left * base ≤ size - (assigned + q) ∧ 0 < size - (assigned + q) := by
      rw [← sub_sub]
      exact hchunk.leaves
    by_cases hnone : q ≤ 0
    · -- an empty chunk is not the last one
      have hmore : 0 < left := by
        refine Nat.pos_of_ne_zero fun hzero => ?_
        rw [hchunk.last_iff.1 hzero] at hnone
        exact absurd hpos (not_lt.2 hnone)
      rw [if_pos hnone]
      exact ih (i + 1) (assigned + q) h hreorder hgap hmore (hrest' hmore) (hsince.mono hnext)
        (by omega) hle
    · rw [if_neg hnone, if_neg (by simp [hreorder])]
      obtain ⟨ev, hev⟩ : ∃ ev : SimEvent, ev =
          { dueAt := x.now + x.cfg.fillLatencyNs + i * x.cfg.fillGapNs, type := .Fill, id := id,
            qty := q, price := price, final := decide (left = 0) } := ⟨_, rfl⟩
      rw [← hev]
      have hfill : FillOf id ev := by
        subst hev
        exact ⟨rfl, rfl⟩
      have hdue : ev.dueAt = x.now + x.cfg.fillLatencyNs + i * x.cfg.fillGapNs := by
        subst hev
        rfl
      obtain ⟨hfirst, hsince'⟩ := hsince.scheduleFill h hfill hdue.ge hle (by omega)
      rcases Nat.eq_zero_or_pos left with hzero | hmore
      · -- the last chunk
        subst hzero
        refine ⟨_, hfirst ▸ List.mem_append_right _ List.mem_cons_self, ?_⟩
        subst hev
        rfl
      · have hqueued : Queued (fun _ => True) x (x.scheduleFill ev) :=
          scheduleFill_queued fun _ _ _ => trivial
        have htrades : (x.scheduleFill ev).tradeCounter = x.tradeCounter + 1 :=
          tradeCounter_scheduleFill
        rw [← hqueued.cfg] at hreorder hgap
        exact ih (i + 1) (assigned + q) (hqueued.orderly h) hreorder hgap hmore (hrest' hmore)
          (hsince'.mono (by rw [hdue, hqueued.cfg, hqueued.now]; exact hnext))
          (by rw [htrades]; omega) (by rw [htrades]; omega)

/-- A new order is doomed. -/
theorem scheduleOutcome_doomed {o : Order} (h : x.Orderly)
    (hreorder : x.cfg.reorderFillBeforeAck = false) (hgap : 0 ≤ x.cfg.fillGapNs)
    (hsize : 0 < o.size) (hnew : fillsOf o.internalId ∅ x.queue = []) :
    Doomed o.internalId ∅ (x.scheduleOutcome o).queue := by
  have hscheduled : ∀ {y : SimulatedExchange} {ev : SimEvent},
      (∀ n, Terminates o.internalId { ev with seq := n }) →
        Doomed o.internalId ∅ (y.schedule ev).queue := fun hends =>
    Or.inl ⟨_, (List.mem_orderedInsert _).2 (Or.inl rfl), hends _⟩
  have hdraw : Queued (fun ev => ev.type ≠ .Fill) x x.draw.2 := draw_queued
  unfold scheduleOutcome
  rcases hy : x.draw with ⟨rejected, y⟩
  rw [hy] at hdraw
  dsimp only
  split
  · exact hscheduled fun _ => ⟨rfl, Or.inl rfl⟩
  · generalize hev : ({ dueAt := _, type := .Confirm, id := o.internalId } : SimEvent) = ev
    have hconfirm : Queued (fun ev => ev.type ≠ .Fill) y (y.schedule ev) := by
      subst hev
      exact schedule_queued fun _ => nofun
    have hdraw' : Queued (fun ev => ev.type ≠ .Fill) (y.schedule ev) (y.schedule ev).draw.2 :=
      draw_queued
    rcases hz : (y.schedule ev).draw with ⟨unsolicited, z⟩
    rw [hz] at hdraw'
    have hxz := (hdraw.trans hconfirm).trans hdraw'
    dsimp only
    split
    · exact hscheduled fun _ => ⟨rfl, Or.inr (Or.inr rfl)⟩
    · have hnil : fillsOf o.internalId ∅ z.queue = [] :=
        (hxz.fills _ _ fun ev hev hfill => hev hfill.1).trans hnew
      obtain ⟨hone, hmany⟩ := one_le_chunks z.cfg
      have hbase : 0 ≤ o.size.tdiv (chunks z.cfg).toInt := Int.tdiv_nonneg hsize.le (by omega)
      have hmul : ((chunks z.cfg).toInt.toNat : ℤ) * o.size.tdiv (chunks z.cfg).toInt ≤ o.size := by
        rw [Int.toNat_of_nonneg (by omega), Int.tdiv_eq_ediv_of_nonneg hsize.le]
        exact Int.mul_ediv_self_le (by omega)
      exact Or.inr (scheduleFills_final _ z.tradeCounter hbase _ 0 0 (hxz.orderly h)
        (by rw [hxz.cfg]; exact hreorder) (by rw [hxz.cfg]; exact hgap) (by omega)
        (by rw [sub_zero]; exact ⟨hmul, hsize⟩)
        (fun o ho => absurd (hnil ▸ ho) List.not_mem_nil) (Nat.add_le_add_left (by omega) _)
        (le_refl _))

end New

/-! ### Deliveries -/

section Deliver

variable {x : SimulatedExchange} {id : OrderIdRaw} {ev : SimEvent} {seen : Finset TradeId}
  {queue : List SimEvent}

/-- An event that neither ends nor fills an order leaves its end in the queue. -/
theorem Doomed.tail (h : Doomed id seen (ev :: queue)) (hends : ¬ Terminates id ev)
    (hfill : ¬ FillOf id ev) : Doomed id seen queue := by
  rcases h with ⟨e, he, hend⟩ | hfinal
  · rcases List.mem_cons.1 he with rfl | he
    · exact absurd hend hends
    · exact Or.inl ⟨e, he, hend⟩
  · rw [fillsOf, firstSeen_cons_other hfill] at hfinal
    exact Or.inr hfinal

/-- Nor does a trade that was seen before. -/
theorem Doomed.tail_again (h : Doomed id seen (ev :: queue)) (hfill : FillOf id ev)
    (hseen : ev.trade ∈ seen) : Doomed id seen queue := by
  rcases h with ⟨e, he, hid, hend⟩ | hfinal
  · rcases List.mem_cons.1 he with rfl | he
    · rw [hfill.1] at hend
      simp at hend
    · exact Or.inl ⟨e, he, hid, hend⟩
  · rw [fillsOf, firstSeen_cons_again hseen] at hfinal
    exact Or.inr hfinal

/-- A fill that is not final leaves the end in the queue. -/
theorem Doomed.tail_first (h : Doomed id seen (ev :: queue)) (hfill : FillOf id ev)
    (hnew : ev.trade ∉ seen) (hmore : ev.final = false) :
    Doomed id (insert ev.trade seen) queue := by
  rcases h with ⟨e, he, hid, hend⟩ | ⟨e, he, hfinal⟩
  · rcases List.mem_cons.1 he with rfl | he
    · rw [hfill.1] at hend
      simp at hend
    · exact Or.inl ⟨e, he, hid, hend⟩
  · rw [fillsOf, firstSeen_cons_first hfill hnew] at he
    rcases List.mem_cons.1 he with rfl | he
    · rw [hmore] at hfinal
      cases hfinal
    · exact Or.inr ⟨e, he, hfinal⟩

/-- The exposures after a delivery are those before it, but for the order of the event. -/
theorem exposure_book_of_ne (hid : id ≠ ev.id) : (x.book ev).exposure id = x.exposure id := by
  unfold SimulatedExchange.book
  cases ev.type with
  | Confirm | CancelReject => rfl
  | Reject | CancelAck | Unsolicited => rw [exposure_kill, Function.update_of_ne hid]
  | Fill =>
    cases he : x.exposure ev.id with
    | none => rw [(exposure_bookFill_none he).1]
    | some e =>
      by_cases hseen : ev.trade ∈ e.trades
      · rw [(exposure_bookFill_again he hseen).1]
      · rw [(exposure_bookFill_first he hseen).1, Function.update_of_ne hid]

/-- **A delivery ends an order, or leaves its end in the queue.** -/
theorem book_fated (h : ∀ id e, x.exposure id = some e → Doomed id e.trades (ev :: queue))
    (hqueue : x.queue = queue) : (x.book ev).Fated := by
  intro id e he
  rw [book_frame.2.2.1, hqueue]
  by_cases hid : id = ev.id
  · subst hid
    unfold SimulatedExchange.book at he
    cases htype : ev.type with
    | Confirm | CancelReject =>
      rw [htype] at he
      refine (h _ e he).tail (fun hends => ?_) fun hfill => ?_
      · have hend := hends.2
        rw [htype] at hend
        simp at hend
      · have hfill := hfill.1
        rw [htype] at hfill
        cases hfill
    | Reject | CancelAck | Unsolicited =>
      rw [htype] at he
      rw [show (x.kill ev.id).exposure ev.id = none by
        rw [exposure_kill, Function.update_self]] at he
      cases he
    | Fill =>
      rw [htype] at he
      have hfill : FillOf ev.id ev := ⟨htype, rfl⟩
      cases hold : x.exposure ev.id with
      | none =>
        rw [show (x.bookFill ev).exposure ev.id = none by
          rw [(exposure_bookFill_none hold).1, hold]] at he
        cases he
      | some e₀ =>
        have hdoomed := h _ e₀ hold
        by_cases hseen : ev.trade ∈ e₀.trades
        · rw [show (x.bookFill ev).exposure ev.id = some e₀ by
            rw [(exposure_bookFill_again hold hseen).1, hold], Option.some_inj] at he
          subst he
          exact hdoomed.tail_again hfill hseen
        · rw [show (x.bookFill ev).exposure ev.id = _ by
            rw [(exposure_bookFill_first hold hseen).1, Function.update_self]] at he
          split_ifs at he with hend
          rw [Option.some_inj] at he
          subst he
          exact hdoomed.tail_first hfill hseen (Bool.eq_false_of_not_eq_true fun hlast =>
            hend (Or.inl hlast))
  · rw [exposure_book_of_ne hid] at he
    exact (h id e he).tail (fun hends => hid hends.1.symm) fun hfill => hid hfill.2.symm

end Deliver

/-! ### Calls -/

section Calls

variable {B : Type} {E : SimulatedExchange → Env B} {venue : VenueId}
variable {s : State (SimulatedExchange × B)} {x x' : SimulatedExchange}

/-- Two relations that cancels keep are kept together. -/
theorem Env.Canceller.and {W : Type} {E : Env W} {R R' : W → W → Prop} (h : E.Canceller R)
    (h' : E.Canceller R') : E.Canceller fun w w' => R w w' ∧ R' w w' where
  refl := fun w => ⟨h.refl w, h'.refl w⟩
  trans := fun h₁ h₂ => ⟨h.trans h₁.1 h₂.1, h'.trans h₁.2 h₂.2⟩
  log := fun level line w => ⟨h.log level line w, h'.log level line w⟩
  publish := fun e om w => ⟨h.publish e om w, h'.publish e om w⟩
  select := fun inst side qty w => ⟨h.select inst side qty w, h'.select inst side qty w⟩
  onAck := fun venue latency w => ⟨h.onAck venue latency w, h'.onAck venue latency w⟩
  onReject := fun venue benign w => ⟨h.onReject venue benign w, h'.onReject venue benign w⟩
  onFill := fun venue w => ⟨h.onFill venue w, h'.onFill venue w⟩
  onTimeout := fun venue w => ⟨h.onTimeout venue w, h'.onTimeout venue w⟩
  onDisconnect := fun venue w => ⟨h.onDisconnect venue w, h'.onDisconnect venue w⟩
  onReconnect := fun venue w => ⟨h.onReconnect venue w, h'.onReconnect venue w⟩
  cancelOrder := fun hex id exchId w =>
    ⟨h.cancelOrder hex id exchId w, h'.cancelOrder hex id exchId w⟩

/-- Asking for cancels leaves every order doomed. -/
theorem SimulatedExchange.Fated.spared (h : x.Fated) (hspared : Spared x x') (hahead : Ahead x x') :
    x'.Fated := by
  intro id e he
  rw [exposure_congr hspared.working] at he
  rcases h id e he with ⟨ev, hev, hends⟩ | hfinal
  · exact Or.inl ⟨ev, hahead.kept hev, hends⟩
  · refine Or.inr ?_
    rw [hspared.fills _ _ fun ev hev hfill => hev.no_fill hfill.1]
    exact hfinal

/-- So does entering a new order of positive size. -/
theorem SimulatedExchange.Fated.placed (h : x.Fated) {o : Order} (hfwd : x.cfg.Forward)
    (hreorder : x.cfg.reorderFillBeforeAck = false) (horderly : x.Orderly) (hsize : 0 < o.size)
    (hnew : fillsOf o.internalId ∅ x.queue = []) : ((x.enter o).scheduleOutcome o).Fated := by
  have hqueued := scheduleOutcome_queued o (x.enter o)
  have hahead := scheduleOutcome_ahead o (x := x.enter o) hfwd
  intro id e he
  rw [exposure_congr hqueued.working, exposure_enter] at he
  by_cases hid : id = o.internalId
  · subst hid
    rw [Function.update_self, Option.some_inj] at he
    subst he
    exact scheduleOutcome_doomed (x := x.enter o) ⟨horderly.sorted, horderly.seq_lt⟩ hreorder
      hfwd.gap hsize hnew
  · rw [Function.update_of_ne hid] at he
    rcases h id e he with ⟨ev, hev, hends⟩ | hfinal
    · exact Or.inl ⟨ev, hahead.kept hev, hends⟩
    · refine Or.inr ?_
      rw [hqueued.fills _ _ fun ev hev hfill => hid (hfill.2.symm.trans hev.id_eq)]
      exact hfinal

/-- The books agree and every order is doomed, as long as no id has wrapped. -/
structure Settling (s : State (SimulatedExchange × B)) : Prop where
  books : SoundBooks s.om
  forward : s.world.1.cfg.Forward
  agreed : Unwrapped s.om → Agreed s
  fated : Unwrapped s.om → s.world.1.Fated
  near : ∀ ev ∈ s.world.1.queue, ev.dueAt ≤ s.world.1.now + s.world.1.cfg.horizon

theorem Settling.near_ahead (h : Settling s) (hahead : Ahead s.world.1 x') :
    ∀ ev ∈ x'.queue, ev.dueAt ≤ x'.now + x'.cfg.horizon := by
  intro ev hev
  rw [hahead.now, hahead.cfg]
  rcases hahead.mem hev with hold | htimely
  · exact h.near ev hold
  · exact htimely.2

/-- A submit leaves every order doomed. -/
theorem submit_fated (h : Settling s) {req : OrderRequest} (hsize : 0 < req.size)
    (hunwrapped : Unwrapped (s.submit (.withSim E venue) req).2.om) :
    (s.submit (.withSim E venue) req).2.world.1.Fated := by
  have hchain : Chain sized s.om (s.submit (.withSim E venue) req).2.om :=
    submit_chain trivial h.books.wf hsize
  have hunwrapped₀ : Unwrapped s.om := hchain.unwrapped h.books.wf hunwrapped
  have hagreed := h.agreed hunwrapped₀
  have hfated := h.fated hunwrapped₀
  rcases submit_cases (Env.withSim_canceller.and Env.withSim_ahead) s req with
    ⟨-, ⟨hspared, hahead⟩, -⟩ | ⟨v, ex, w, hplacing⟩
  · exact hfated.spared hspared (hahead h.forward)
  · obtain ⟨hspared, hahead⟩ := hplacing.world
    have hahead := hahead h.forward
    have hrouted : w.1.Fated := hfated.spared hspared hahead
    have hclient := registry_withSim hplacing.found
    subst hclient
    rw [hplacing.place]
    rcases place_sim req v { s with world := w } with hsame | ⟨id, om, hres, hplaced⟩
    · rw [hsame]
      exact hrouted
    · rw [hplaced]
      rcases placeOrder_cases (om.orderRef id) w.1 with hp | hp
      · rw [hp]
        exact hrouted
      · rw [hp]
        obtain ⟨-, -, -, href⟩ := reserve_opens h.books.wf hres
        obtain ⟨pool, hacq, hid, -⟩ := h.books.wf.reserve_cases hres
        have hfresh := not_issued_of_acquire h.books.wf hunwrapped₀ hacq hid
        have hagreed₁ : Agreed { s with world := w } :=
          spared_agreed hagreed (.refl _) (fun _ h => h) hspared
        refine hrouted.placed (hahead.cfg ▸ h.forward) hagreed₁.ready.no_reorder
          hagreed₁.ready.orderly ?_ ?_
        · rw [href]
          exact hsize
        · rw [href]
          refine firstSeen_eq_nil fun ev hev hfill => hfresh (hagreed₁.coupled.issued _ ?_)
          have hknown := hagreed₁.ready.known ev hev (by rw [hfill.1]; decide)
          rw [hfill.2] at hknown
          exact hknown

/-- A poll leaves every order doomed. -/
theorem poll_fated (h : s.world.1.Fated) : (s.poll (.withSim E venue)).world.1.Fated := by
  refine drain_invariant (I := fun s => s.world.1.Fated) (fun {s ev rest} hqueue _ hs => ?_) _ h
  rw [deliverNext_sim]
  refine book_fated (fun id e he => ?_) rfl
  rw [← hqueue]
  exact hs id e he

/-- Every call leaves every order doomed. -/
theorem step_fated (h : Settling s) {op : SimOp} (hop : op.Allowed)
    (hunwrapped : Unwrapped ((simMachine E venue).step s op).om) :
    ((simMachine E venue).step s op).world.1.Fated := by
  have hfated := h.fated ((simStep_chain h.books.wf hop).unwrapped h.books.wf hunwrapped)
  cases op with
  | oms op =>
    by_cases hsubmit : ∃ req, op = .submit req
    · obtain ⟨req, rfl⟩ := hsubmit
      exact submit_fated h (hop.2 req rfl).1 hunwrapped
    · exact hfated.spared (step_spared hop.1 fun req heq => hsubmit ⟨req, heq⟩)
        (step_ahead h.forward op)
  | massCancel inst =>
    exact hfated.spared (massCancel_spared inst _) (massCancel_ahead inst h.forward)
  | poll => exact poll_fated hfated
  | setConnected | setBook => exact hfated

/-- What a poll leaves in the queue is due later, and no later than before. -/
theorem poll_queue : (s.poll (.withSim E venue)).world.1.queue ⊆ s.world.1.queue ∧
    (s.poll (.withSim E venue)).world.1.cfg = s.world.1.cfg ∧
    (s.poll (.withSim E venue)).world.1.now = s.world.1.now + s.world.1.cfg.stepNs := by
  obtain ⟨hsplit, -, hcfg, hnow, -⟩ :=
    @drained_spec B E venue s.world.1.queue.length s.advance
  refine ⟨fun ev hev => ?_, hcfg, hnow⟩
  have hqueue : s.world.1.queue = _ := hsplit
  rw [hqueue]
  exact List.mem_append_right _ hev

/-- Every call keeps the books agreed and every order doomed. -/
theorem step_settling (hstep : 0 ≤ s.world.1.cfg.stepNs) {op : SimOp} (hop : op.Allowed)
    (h : Settling s) : Settling ((simMachine E venue).step s op) ∧
      ((simMachine E venue).step s op).world.1.cfg = s.world.1.cfg := by
  obtain ⟨hbooks, hagreed⟩ := @step_agreed B E venue s op hop ⟨h.books, h.agreed⟩
  by_cases hpoll : op = .poll
  · subst hpoll
    obtain ⟨hsub, hcfg, hnow⟩ := @poll_queue B E venue s
    refine ⟨⟨hbooks, hcfg ▸ h.forward, hagreed, step_fated h hop, fun ev hev => ?_⟩, hcfg⟩
    show ev.dueAt ≤ (s.poll (.withSim E venue)).world.1.now +
      (s.poll (.withSim E venue)).world.1.cfg.horizon
    rw [hcfg, hnow]
    have hnear := h.near ev (hsub hev)
    linarith
  · have hahead := @simStep_ahead B E venue s h.forward op hpoll
    exact ⟨⟨hbooks, hahead.cfg ▸ h.forward, hagreed, step_fated h hop, h.near_ahead hahead⟩,
      hahead.cfg⟩

end Calls

/-! ### Every run -/

section Runs

variable {B : Type} {E : SimulatedExchange → Env B} {venue : VenueId}
variable {s : State (SimulatedExchange × B)}

/-- A run of polls takes time, and only takes from the queue. What is left after the last of them is
due later. -/
theorem polls_queue (n : ℕ) (s : State (SimulatedExchange × B)) :
    let s' := (simMachine E venue).run s (List.replicate n .poll)
    s'.world.1.queue ⊆ s.world.1.queue ∧ s'.world.1.cfg = s.world.1.cfg ∧
      s'.world.1.now = s.world.1.now + n * s.world.1.cfg.stepNs ∧
      (0 < n → ∀ ev ∈ s'.world.1.queue.head?, s'.world.1.now < ev.dueAt) := by
  induction n with
  | zero => exact ⟨List.Subset.refl _, rfl, by simp, fun hpos => absurd hpos (lt_irrefl 0)⟩
  | succ n ih =>
    obtain ⟨hsub, hcfg, hnow, -⟩ := ih
    rw [List.replicate_succ', Machine.run_append]
    generalize (simMachine E venue).run s (List.replicate n .poll) = s₁ at hsub hcfg hnow ⊢
    obtain ⟨hsub', hcfg', hnow'⟩ := @poll_queue B E venue s₁
    refine ⟨fun ev hev => hsub (hsub' hev), hcfg'.trans hcfg, ?_, fun _ => poll_done⟩
    show (s₁.poll (.withSim E venue)).world.1.now = _
    rw [hnow', hnow, hcfg]
    push_cast
    ring

theorem settling_init (capacity : PoolCapacity) {cfg : SimConfig} (hfwd : cfg.Forward)
    (hreorder : cfg.reorderFillBeforeAck = false) (b : B) :
    Settling ⟨.init capacity, .init cfg, b⟩ where
  books := soundBooks_init capacity
  forward := hfwd
  agreed := fun _ => agreed_init capacity hfwd.gap hreorder b
  fated := fun _ => nofun
  near := nofun

/-- With an empty queue no order trades any more, at the venue or at the manager. -/
theorem Settling.settled (h : Settling s) (hunwrapped : Unwrapped s.om)
    (hqueue : s.world.1.queue = []) :
    (∀ id o, s.om.find id = some o → isTerminal o.status = true) ∧
      (∀ id w, s.world.1.working.lookup id = some w → w.alive = false) ∧
      ∀ inst, s.om.pendingQuantity inst = 0 ∧
        (s.om.position inst).net = s.world.1.positions.get inst := by
  have hcoupled := (h.agreed hunwrapped).coupled
  have hdead : ∀ id, s.world.1.exposure id = none := fun id => by
    cases he : s.world.1.exposure id with
    | none => rfl
    | some e =>
      -- nothing in an empty queue ends the order
      have hdoomed := h.fated hunwrapped id e he
      rw [hqueue] at hdoomed
      rcases hdoomed with ⟨ev, hev, -⟩ | ⟨ev, hev, -⟩
      · cases hev
      · cases hev
  have halive : ∀ id w, s.world.1.working.lookup id = some w → w.alive = false := by
    intro id w hlookup
    cases hw : w.alive with
    | false => rfl
    | true =>
      have he := exposure_eq_some_iff.2 ⟨w, hlookup, hw, rfl⟩
      rw [hdead] at he
      cases he
  refine ⟨fun id o hfind => ?_, halive, fun inst => ⟨?_, hcoupled.position inst⟩⟩
  · unfold find at hfind
    split_ifs at hfind with hcur
    rw [Option.some_inj] at hfind
    subst hfind
    rw [← Bool.not_eq_false]
    exact fun hopen => hcoupled.not_works (hdead _) (h.books.stamped.works ⟨hcur, hopen⟩)
  · rw [hcoupled.pendingQuantity h.books, openQuantity, Finmap.sumOver]
    refine Finset.sum_eq_zero fun id hid => ?_
    obtain ⟨w, hlookup⟩ := Finmap.mem_iff.1 (Finmap.mem_keys.1 hid)
    rw [Finmap.term_of_lookup _ _ hlookup, if_neg]
    rw [halive id w hlookup]
    exact fun hw => Bool.false_ne_true hw.1

/-- **Every order ends.** Let the latencies not be negative, and let no fill overtake its confirm.
Whatever was called before, with sizes and prices above zero, once the clock has passed the horizon
without further calls the queue of the venue is empty, every order the manager still knows is
terminal, the venue works none, nothing is pending and the positions are the same on both sides. -/
theorem orders_end {B : Type} (E : SimulatedExchange → Env B) (venue : VenueId) (cfg : SimConfig)
    (hfwd : cfg.Forward) (hreorder : cfg.reorderFillBeforeAck = false) (capacity : PoolCapacity)
    (b : B) (ops : List SimOp) (hops : ∀ op ∈ ops, op.Allowed) (n : ℕ)
    (hn : cfg.horizon ≤ n * cfg.stepNs) :
    let s := (simMachine E venue).run ⟨.init capacity, .init cfg, b⟩
      (ops ++ List.replicate n .poll)
    Unwrapped s.om → s.world.1.queue = [] ∧
      (∀ id o, s.om.find id = some o → isTerminal o.status = true) ∧
      (∀ id w, s.world.1.working.lookup id = some w → w.alive = false) ∧
      ∀ inst, s.om.pendingQuantity inst = 0 ∧
        (s.om.position inst).net = s.world.1.positions.get inst := by
  intro s hunwrapped
  have hhorizon : 0 < cfg.horizon := by
    have hgaps := hfwd.gaps_nonneg
    have hack := hfwd.ack
    have hfill := hfwd.fill
    unfold SimConfig.horizon
    linarith
  have hpos : 0 < n := by
    refine Nat.pos_of_ne_zero fun hzero => ?_
    rw [hzero, Nat.cast_zero, zero_mul] at hn
    linarith
  have hstep : 0 ≤ cfg.stepNs := by
    have hpos' : (0 : ℤ) < n := by exact_mod_cast hpos
    by_contra hneg
    have hle : (n : ℤ) * cfg.stepNs ≤ 0 := mul_nonpos_of_nonneg_of_nonpos hpos'.le (by lia)
    linarith
  have hall : ∀ ops : List SimOp, (∀ op ∈ ops, op.Allowed) →
      Settling ((simMachine E venue).run ⟨.init capacity, .init cfg, b⟩ ops) ∧
        ((simMachine E venue).run ⟨.init capacity, .init cfg, b⟩ ops).world.1.cfg = cfg := by
    intro ops hops
    refine Machine.run_invariant (G := fun _ op => op.Allowed)
      (I := fun (s : State (SimulatedExchange × B)) => Settling s ∧ s.world.1.cfg = cfg)
      (fun s op h hop => ?_) ⟨settling_init capacity hfwd hreorder b, rfl⟩
      (Machine.admits_of_forall hops)
    obtain ⟨hsettling, hcfg⟩ :=
      @step_settling B E venue s (by rw [h.2]; exact hstep) op hop h.1
    exact ⟨hsettling, hcfg.trans h.2⟩
  have hsettling : Settling s := by
    refine (hall _ fun op hop => ?_).1
    rcases List.mem_append.1 hop with hop | hop
    · exact hops op hop
    · rw [List.eq_of_mem_replicate hop]
      trivial
  have hqueue : s.world.1.queue = [] := by
    obtain ⟨hbefore, hcfg⟩ := hall ops hops
    have hpolls := @polls_queue B E venue n
      ((simMachine E venue).run ⟨.init capacity, .init cfg, b⟩ ops)
    rw [← Machine.run_append] at hpolls
    obtain ⟨hsub, -, hnow, hlater⟩ := hpolls
    rw [← List.head?_eq_none_iff]
    by_contra hsome
    obtain ⟨ev, hev⟩ := Option.ne_none_iff_exists'.1 hsome
    have hnear := hbefore.near ev (hsub (List.mem_of_mem_head? hev))
    have hdue := hlater hpos ev hev
    rw [hnow, hcfg] at hdue
    rw [hcfg] at hnear
    linarith
  exact ⟨hqueue, hsettling.settled hunwrapped hqueue⟩

/-- The order of three chunks and six polls. -/
def settledRun : State (SimulatedExchange × Unit) :=
  (simMachine (fun _ => acceptingEnv) 0).run ⟨.init twoSlots, .init chunkedConfig, ()⟩
    ([.oms (.submit { instrument := 7, size := 10, price := 5 })] ++ List.replicate 6 .poll)

/-- After six polls the order of three chunks has ended. -/
theorem orders_end_chunks : settledRun.world.1.queue = [] ∧
    settledRun.om.pendingQuantity 7 = 0 ∧
      (settledRun.om.position 7).net = settledRun.world.1.positions.get 7 := by
  have hfwd : chunkedConfig.Forward := ⟨by decide, by decide, by decide, by decide⟩
  have hops : ∀ op ∈ [SimOp.oms (.submit { instrument := 7, size := 10, price := 5 })],
      op.Allowed := by
    intro op hop
    rw [List.mem_singleton] at hop
    subst hop
    exact ⟨rfl, by rintro req ⟨⟩; decide⟩
  obtain ⟨hqueue, -, -, hbooks⟩ := orders_end (fun _ => acceptingEnv) 0 chunkedConfig hfwd rfl
    twoSlots () [.oms (.submit { instrument := 7, size := 10, price := 5 })] hops 6 (by decide)
    fun _ => Nat.zero_lt_succ 65535
  exact ⟨hqueue, hbooks 7⟩

end Runs

end Oms
