import Oms.OrderManager.Books
import Oms.SimulatedExchange.Exposure

/-!
# Coupling the manager to its simulated venue

* `Ready`: the queue of the venue holds only events of its own orders, and the fills that will count
  fill each living order exactly;
* `Coupled`: both sides expose the same orders and hold the same positions;
* `kill_agreed`, `fill_agreed`, …: what an event does on both sides keeps them coupled;
* `deliver_agreed`: so does every delivery.
-/

namespace Oms

open OrderManager SimulatedExchange Relation

/-- The queue of a venue, before anything is delivered. -/
structure SimulatedExchange.Ready (x : SimulatedExchange) : Prop where
  orderly : x.Orderly
  gap : 0 ≤ x.cfg.fillGapNs
  no_reorder : x.cfg.reorderFillBeforeAck = false
  known : ∀ ev ∈ x.queue, ev.type ≠ .CancelReject → ev.id ∈ x.working
  reject : ∀ ev ∈ x.queue, ev.type = .Reject → ev.reason = .RiskLimit
  planned : ∀ id e, x.exposure id = some e → Planned (fillsOf id e.trades x.queue) e.remaining

/-- The manager and the venue expose the same orders and hold the same positions, and what the
manager knows by id was placed at the venue. -/
structure Coupled (om : OrderManager) (x : SimulatedExchange) : Prop where
  exposure : om.view exposed = x.exposure
  position : ∀ inst, (om.position inst).net = x.positions.get inst
  trades : ∀ id ∈ om.tradeIds, id ∈ x.working
  issued : ∀ id ∈ x.working, Issued om id

section Coupled

variable {om om' : OrderManager} {x x' : SimulatedExchange} {id : OrderIdRaw}

/-- Neither side moves. -/
theorem Coupled.idle (h : Coupled om x) (hidle : Idle om om')
    (hexposure : x'.exposure = x.exposure ∧ x'.positions = x.positions)
    (hmem : ∀ k, k ∈ x'.working ↔ k ∈ x.working) (hissued : ∀ id, Issued om id → Issued om' id) :
    Coupled om' x' where
  exposure := by rw [hidle.view, h.exposure, hexposure.1]
  position := fun inst => by rw [hidle.position, h.position, hexposure.2]
  trades := fun id hid => (hmem id).2 (h.trades id (hidle.trades id hid))
  issued := fun id hid => hissued id (h.issued id ((hmem id).1 hid))

/-- An order ends on both sides. -/
theorem Coupled.closes (h : Coupled om x) (hcloses : Closes om om' id)
    (hissued : ∀ id, Issued om id → Issued om' id) : Coupled om' (x.kill id) where
  exposure := by rw [hcloses.view, h.exposure, exposure_kill]
  position := fun inst => by rw [hcloses.position, h.position, positions_kill]
  trades := fun k hk => mem_kill.2 (h.trades k (hcloses.trades k hk))
  issued := fun k hk => hissued k (h.issued k (mem_kill.1 hk))

/-- An id of the venue works at the manager as long as it is the id of a live order. -/
theorem Coupled.works (h : Coupled om x) (hid : id ∈ x.working) (hlive : om.Live id) :
    om.Works id := ⟨hlive, (h.issued id hid).own hlive.current⟩

/-- What the manager sees of an order that the venue exposes. -/
theorem Coupled.of_exposure (h : Coupled om x) {e : Exposure} (he : x.exposure id = some e) :
    om.Works id ∧ e = ⟨(om.orderRef id).instrument, (om.orderRef id).side,
      (om.orderRef id).remaining, om.tradesOf id⟩ := by
  rw [← h.exposure] at he
  by_cases hw : om.Works id
  · rw [view_of_works exposed hw, Option.some_inj] at he
    exact ⟨hw, he.symm⟩
  · rw [view_of_not_works exposed hw] at he
    cases he

theorem Coupled.not_works (h : Coupled om x) (he : x.exposure id = none) : ¬ om.Works id := by
  intro hw
  rw [← h.exposure, view_of_works exposed hw] at he
  cases he

end Coupled

/-! ### Deliveries -/

section Deliver

variable {B : Type} {E : SimulatedExchange → Env B} {venue : VenueId}
variable {s s' : State (SimulatedExchange × B)} {ev : SimEvent}

/-- The manager and its venue agree. -/
structure Agreed (s : State (SimulatedExchange × B)) : Prop where
  coupled : Coupled s.om s.world.1
  ready : s.world.1.Ready

/-- The two agree, and an event was just taken from the queue. -/
structure Due (ev : SimEvent) (s : State (SimulatedExchange × B)) : Prop where
  coupled : Coupled s.om s.world.1
  ready : { s.world.1 with queue := ev :: s.world.1.queue }.Ready

theorem Agreed.due (h : Agreed s) {rest : List SimEvent} (hqueue : s.world.1.queue = ev :: rest) :
    Due ev (s.modifySim fun x => { x with queue := rest }) where
  coupled := ⟨h.coupled.exposure, h.coupled.position, h.coupled.trades, h.coupled.issued⟩
  ready := by
    show ({ s.world.1 with queue := ev :: rest } : SimulatedExchange).Ready
    rw [← hqueue]
    exact h.ready

theorem agreed_of_eq {x : SimulatedExchange} (hx : s'.world.1 = x) (hcoupled : Coupled s'.om x)
    (hready : x.Ready) : Agreed s' := by
  subst hx
  exact ⟨hcoupled, hready⟩

theorem Due.known (h : Due ev s) (htype : ev.type ≠ .CancelReject) :
    ev.id ∈ s.world.1.working := h.ready.known ev List.mem_cons_self htype

/-- The queue still fills the orders that the event does not fill. -/
theorem Due.planned_other (h : Due ev s) {id : OrderIdRaw} {e : Exposure} (hother : ¬ FillOf id ev)
    (he : s.world.1.exposure id = some e) :
    Planned (fillsOf id e.trades s.world.1.queue) e.remaining := by
  have hplanned : Planned (fillsOf id e.trades (ev :: s.world.1.queue)) e.remaining :=
    h.ready.planned id e he
  rw [fillsOf, firstSeen_cons_other hother] at hplanned
  exact hplanned

/-- The queue that is left is still orderly and known. -/
theorem Due.ready_of (h : Due ev s) {x : SimulatedExchange} (hcfg : x.cfg = s.world.1.cfg)
    (hqueue : x.queue = s.world.1.queue) (hseq : x.seqCounter = s.world.1.seqCounter)
    (hmem : ∀ k, k ∈ x.working ↔ k ∈ s.world.1.working)
    (hplanned : ∀ id e, x.exposure id = some e →
      Planned (fillsOf id e.trades s.world.1.queue) e.remaining) : x.Ready where
  orderly := by
    refine ⟨by rw [hqueue]; exact (List.pairwise_cons.1 h.ready.orderly.sorted).2, ?_⟩
    rw [hqueue, hseq]
    exact fun ev' hev' => h.ready.orderly.seq_lt ev' (List.mem_cons_of_mem _ hev')
  gap := by rw [hcfg]; exact h.ready.gap
  no_reorder := by rw [hcfg]; exact h.ready.no_reorder
  known := by
    rw [hqueue]
    exact fun ev' hev' htype =>
      (hmem _).2 (h.ready.known ev' (List.mem_cons_of_mem _ hev') htype)
  reject := by
    rw [hqueue]
    exact fun ev' hev' => h.ready.reject ev' (List.mem_cons_of_mem _ hev')
  planned := by rw [hqueue]; exact hplanned

section Effect

variable (h : Due ev s) (hissued : ∀ id, Issued s.om id → Issued s'.om id)
include h hissued

/-- An event that ends an order. -/
theorem kill_agreed (htype : ev.type ≠ .Fill) (hworld : s'.world.1 = s.world.1.kill ev.id)
    (hcloses : Closes s.om s'.om ev.id) : Agreed s' := by
  refine agreed_of_eq hworld (h.coupled.closes hcloses hissued) ?_
  refine h.ready_of cfg_kill queue_kill seqCounter_kill (fun k => mem_kill) fun id e he => ?_
  rw [exposure_kill] at he
  by_cases hid : id = ev.id
  · subst hid
    rw [Function.update_self] at he
    cases he
  · rw [Function.update_of_ne hid] at he
    exact h.planned_other (fun hfill => htype hfill.1) he

/-- An event that moves neither side. -/
theorem idle_agreed (htype : ev.type ≠ .Fill) (hworld : s'.world.1 = s.world.1)
    (hidle : Idle s.om s'.om) : Agreed s' := by
  refine agreed_of_eq hworld
    (h.coupled.idle hidle ⟨rfl, rfl⟩ (fun _ => Iff.rfl) hissued) ?_
  refine h.ready_of rfl rfl rfl (fun _ => Iff.rfl) fun id e he => ?_
  exact h.planned_other (fun hfill => htype hfill.1) he

variable (hworld : s'.world.1 = s.world.1.bookFill ev)
include hworld

/-- A fill that counts on neither side. -/
theorem refused_agreed (hidle : Idle s.om s'.om)
    (hsame : (s.world.1.bookFill ev).exposure = s.world.1.exposure ∧
      (s.world.1.bookFill ev).positions = s.world.1.positions)
    (hplanned : ∀ e, s.world.1.exposure ev.id = some e →
      Planned (fillsOf ev.id e.trades s.world.1.queue) e.remaining) : Agreed s' := by
  refine agreed_of_eq hworld (h.coupled.idle hidle hsame (fun k => mem_bookFill) hissued) ?_
  refine h.ready_of cfg_bookFill queue_bookFill seqCounter_bookFill (fun k => mem_bookFill)
    fun id e he => ?_
  rw [hsame.1] at he
  by_cases hid : id = ev.id
  · subst hid
    exact hplanned e he
  · exact h.planned_other (fun hof => hid hof.2.symm) he

/-- A fill that counts on both sides. -/
theorem accepted_agreed (hknown : ev.id ∈ s.world.1.working) {e : Exposure}
    (he : s.world.1.exposure ev.id = some e) (hnew : ev.trade ∉ e.trades)
    (hfills : Fills s.om s'.om ev.id ev.qty ev.price ev.trade ev.dueAt)
    (hlast : ev.final = true ↔ ev.qty = e.remaining) (hle : ev.qty ≤ e.remaining)
    (hrest : Planned (fillsOf ev.id (insert ev.trade e.trades) s.world.1.queue)
      (e.remaining - ev.qty)) : Agreed s' := by
  obtain ⟨hw, heq⟩ := h.coupled.of_exposure he
  obtain ⟨hexposure, hpositions⟩ := exposure_bookFill_first he hnew
  have hend : (ev.final = true ∨ e.remaining - ev.qty ≤ 0) ↔ ev.qty = e.remaining := by
    rw [hlast]
    refine ⟨fun hor => hor.elim id fun hzero => ?_, Or.inl⟩
    exact le_antisymm hle (sub_nonpos.1 hzero)
  have hboth : s'.om.view exposed = (s.world.1.bookFill ev).exposure := by
    rw [hfills.view, hexposure, hw.own, h.coupled.exposure]
    refine congrArg _ (if_congr ?_ rfl ?_)
    · rw [hend, heq]
    · rw [tradesOf_applyFill, if_pos rfl, heq]
      show some (⟨_, _, ((s.om.orderRef ev.id).addFill _ _ _).remaining, _⟩ : Exposure) = _
      rw [Order.addFill_remaining]
      rfl
  refine agreed_of_eq hworld ⟨hboth, fun inst => ?_, fun k hk => ?_, fun k hk => ?_⟩ ?_
  · rw [hfills.position, hpositions, Finmap.get_adjust, heq, ← h.coupled.position]
    split_ifs
    · exact Position.net_apply _ _ _ _ _
    · exact (add_zero _).symm
  · rcases hfills.trades k hk with rfl | hk
    · exact mem_bookFill.2 hknown
    · exact mem_bookFill.2 (h.coupled.trades k hk)
  · exact hissued k (h.coupled.issued k (mem_bookFill.1 hk))
  · refine h.ready_of cfg_bookFill queue_bookFill seqCounter_bookFill (fun k => mem_bookFill)
      fun id e' he' => ?_
    rw [hexposure] at he'
    by_cases hid : id = ev.id
    · subst hid
      rw [Function.update_self] at he'
      split_ifs at he'
      rw [Option.some_inj] at he'
      subst he'
      exact hrest
    · rw [Function.update_of_ne hid] at he'
      exact h.planned_other (fun hof => hid hof.2.symm) he'

/-- A fill counts on both sides or on neither. -/
theorem fill_agreed (htype : ev.type = .Fill)
    (hcases : s.om.validate ev.id ⟨.Fill, ev.trade, ev.qty, ev.price⟩ = .Ok ∧
        Fills s.om s'.om ev.id ev.qty ev.price ev.trade ev.dueAt ∨
      s.om.validate ev.id ⟨.Fill, ev.trade, ev.qty, ev.price⟩ ≠ .Ok ∧ Idle s.om s'.om) :
    Agreed s' := by
  have hknown := h.known (by rw [htype]; decide)
  cases he : s.world.1.exposure ev.id with
  | none =>
    -- the order is dead at the venue, so it does not work at the manager
    have hidle : Idle s.om s'.om := by
      rcases hcases with ⟨hok, -⟩ | ⟨-, hidle⟩
      · obtain ⟨hcur, hopen, -⟩ := validate_fill_ok_iff.1 hok
        exact absurd (h.coupled.works hknown ⟨hcur, hopen⟩) (h.coupled.not_works he)
      · exact hidle
    refine refused_agreed h hissued hworld hidle (exposure_bookFill_none he) fun e he' => ?_
    rw [he] at he'
    cases he'
  | some e =>
    have hplanned : Planned (fillsOf ev.id e.trades (ev :: s.world.1.queue)) e.remaining :=
      h.ready.planned ev.id e he
    obtain ⟨hw, heq⟩ := h.coupled.of_exposure he
    by_cases hseen : ev.trade ∈ e.trades
    · have hidle : Idle s.om s'.om := by
        rcases hcases with ⟨hok, -⟩ | ⟨-, hidle⟩
        · refine absurd ?_ (validate_fill_ok_iff.1 hok).2.2.1
          rw [heq] at hseen
          exact hseen
        · exact hidle
      refine refused_agreed h hissued hworld hidle (exposure_bookFill_again he hseen)
        fun e' he' => ?_
      rw [he, Option.some_inj] at he'
      subst he'
      rw [fillsOf, firstSeen_cons_again hseen] at hplanned
      exact hplanned
    · rw [fillsOf, firstSeen_cons_first ⟨htype, rfl⟩ hseen] at hplanned
      obtain ⟨hqty, hprice, hle, hlast, hrest⟩ := hplanned
      have hok : s.om.validate ev.id ⟨.Fill, ev.trade, ev.qty, ev.price⟩ = .Ok := by
        rw [heq] at hseen hle
        exact validate_fill_ok_iff.2 ⟨hw.live.current, hw.live.isOpen, hseen, hqty, hprice, hle⟩
      rcases hcases with ⟨-, hfills⟩ | ⟨hnot, -⟩
      · exact accepted_agreed h hissued hworld hknown he hseen hfills hlast hle hrest
      · exact absurd hok hnot

end Effect

/-! #### Every delivery -/

/-- The manager's own books: what it needs to know of itself. -/
structure SoundBooks (om : OrderManager) : Prop where
  wf : om.WF
  stamped : Stamped om
  bounded : Bounded om
  pending : ∀ inst, PendingBalanced om inst

theorem SoundBooks.chain {om om' : OrderManager} (hchain : Chain sized om om')
    (h : SoundBooks om) : SoundBooks om' := by
  have hall := Chain.invariant
    (I := fun om => Stamped om ∧ Bounded om ∧ ∀ inst, PendingBalanced om inst)
    (fun om₁ om₂ hwf ⟨hstamped, hbounded, hpending⟩ hchange =>
      ⟨stamped_step hwf hstamped hchange, bounded_step hwf hbounded hchange, fun inst =>
        pendingBalanced_step hwf hbounded (hpending inst) hchange⟩)
    hchain h.wf ⟨h.stamped, h.bounded, h.pending⟩
  exact ⟨hall.1, hall.2.1, hall.2.2.1, hall.2.2.2⟩

theorem step_inbound_chain {W : Type} {E : Env W} {s : State W} (hwf : s.om.WF) {op : Op}
    {id : OrderIdRaw} (hop : op.inboundId = some id) : Chain sized s.om (s.step E op).om := by
  refine step_changes hwf ⟨fun req hreq => ?_, fun _ _ => ⟨trivial, fun _ => trivial⟩⟩
  subst hreq
  cases hop

/-- A delivery is an act of the venue on its own book, and an inbound event of the manager. -/
theorem deliver_cases (E' : Env (SimulatedExchange × B)) (ev : SimEvent)
    (s : State (SimulatedExchange × B)) : ∃ f op, op.inboundId = some ev.id ∧
      s.deliver E' ev = (s.modifySim f).step E' op ∧
      ((f s.world.1).queue = s.world.1.queue ∧ (f s.world.1).now = s.world.1.now) := by
  unfold State.deliver
  cases ev.type with
  | Confirm => exact ⟨fun x => x, .confirm ev.id _ ev.dueAt, rfl, rfl, rfl, rfl⟩
  | Fill =>
    exact ⟨.bookFill ev, .fill ev.id ev.qty ev.price ev.trade ev.dueAt, rfl, rfl, queue_bookFill,
      now_bookFill⟩
  | Reject =>
    exact ⟨.kill ev.id, .reject ev.id ev.reason ev.dueAt, rfl, rfl, queue_kill, now_kill⟩
  | CancelAck => exact ⟨.kill ev.id, .cancelAck ev.id ev.dueAt, rfl, rfl, queue_kill, now_kill⟩
  | CancelReject =>
    exact ⟨fun x => x, .reject ev.id .CancelRejected ev.dueAt, rfl, rfl, rfl, rfl⟩
  | Unsolicited =>
    exact ⟨.kill ev.id, .unsolicitedCancel ev.id ev.dueAt, rfl, rfl, queue_kill, now_kill⟩

theorem deliver_chain (E' : Env (SimulatedExchange × B)) (hwf : s.om.WF) (ev : SimEvent) :
    Chain sized s.om (s.deliver E' ev).om := by
  obtain ⟨f, op, hop, heq, -⟩ := deliver_cases E' ev s
  rw [heq]
  exact step_inbound_chain (s := s.modifySim f) hwf hop

/-- Delivery schedules nothing and takes no time. -/
theorem deliver_world (ev : SimEvent) :
    (s.deliver (.withSim E venue) ev).world.1.queue = s.world.1.queue ∧
      (s.deliver (.withSim E venue) ev).world.1.now = s.world.1.now := by
  obtain ⟨f, op, hop, heq, hqueue, hnow⟩ := deliver_cases (.withSim E venue) ev s
  have hworld : ((s.modifySim f).step (.withSim E venue) op).world.1 = (s.modifySim f).world.1 :=
    step_inbound_world Env.withSim_bystander hop
  rw [heq, hworld]
  exact ⟨hqueue, hnow⟩

/-- The end of an order that the manager hears of. -/
theorem closes_of_cases {om om' : OrderManager} {x : SimulatedExchange} {id : OrderIdRaw}
    (h : Coupled om x) (hid : id ∈ x.working)
    (hcases : om.Live id ∧ Closes om om' (om.orderRef id).internalId ∨
      ¬ om.Live id ∧ Idle om om') : Closes om om' id := by
  rcases hcases with ⟨hlive, hcloses⟩ | ⟨hdead, hidle⟩
  · rw [(h.works hid hlive).own] at hcloses
    exact hcloses
  · exact hidle.closes fun hw => hdead hw.live

/-- **Every delivery keeps the two sides agreed.** -/
theorem deliver_agreed (hbooks : SoundBooks s.om) (h : Due ev s)
    (hunwrapped : Unwrapped (s.deliver (.withSim E venue) ev).om) :
    Agreed (s.deliver (.withSim E venue) ev) := by
  have hissued : ∀ id, Issued s.om id → Issued (s.deliver (.withSim E venue) ev).om id := fun id =>
    (deliver_chain _ hbooks.wf ev).issued hbooks.wf hunwrapped
  have hworld : ∀ f op, op.inboundId = some ev.id →
      ((s.modifySim f).step (.withSim E venue) op).world.1 = f s.world.1 := fun f op hop =>
    step_inbound_world Env.withSim_bystander hop
  have hwf : ∀ f, (s.modifySim f).om.WF := fun _ => hbooks.wf
  have hstamped : ∀ f, Stamped (s.modifySim f).om := fun _ => hbooks.stamped
  revert hissued
  fun_cases State.deliver (.withSim E venue) ev s with
  | case1 hconfirm =>
    intro hissued
    refine idle_agreed h hissued (by rw [hconfirm]; decide) ?_ ?_
    · exact hworld (fun x => x) (.confirm ev.id _ ev.dueAt) rfl
    · exact onConfirm_idle hbooks.wf hbooks.stamped _
  | case2 hfill =>
    intro hissued
    refine fill_agreed h hissued ?_ hfill ?_
    · exact hworld (.bookFill ev) (.fill ev.id ev.qty ev.price ev.trade ev.dueAt) rfl
    · exact onFill_cases (hwf (.bookFill ev)) (hstamped _) _ _ _ _ _
  | case3 hreject =>
    intro hissued
    have hreason : ev.reason ≠ .CancelRejected := by
      rw [h.ready.reject ev List.mem_cons_self hreject]
      decide
    refine kill_agreed h hissued (by rw [hreject]; decide) ?_
      (closes_of_cases h.coupled (h.known (by rw [hreject]; decide)) ?_)
    · exact hworld (.kill ev.id) (.reject ev.id ev.reason ev.dueAt) rfl
    · exact onReject_cases (hwf (.kill ev.id)) (hstamped _) _ hreason _
  | case4 hcancelAck =>
    intro hissued
    refine kill_agreed h hissued (by rw [hcancelAck]; decide) ?_
      (closes_of_cases h.coupled (h.known (by rw [hcancelAck]; decide)) ?_)
    · exact hworld (.kill ev.id) (.cancelAck ev.id ev.dueAt) rfl
    · exact finishCancel_cases (hwf (.kill ev.id)) (hstamped _) _ (by decide) .Cancelled false _
  | case5 hcancelReject =>
    intro hissued
    refine idle_agreed h hissued (by rw [hcancelReject]; decide) ?_ ?_
    · exact hworld (fun x => x) (.reject ev.id .CancelRejected ev.dueAt) rfl
    · exact onCancelReject_idle hbooks.wf hbooks.stamped
  | case6 hunsolicited =>
    intro hissued
    refine kill_agreed h hissued (by rw [hunsolicited]; decide) ?_
      (closes_of_cases h.coupled (h.known (by rw [hunsolicited]; decide)) ?_)
    · exact hworld (.kill ev.id) (.unsolicitedCancel ev.id ev.dueAt) rfl
    · exact finishCancel_cases (hwf (.kill ev.id)) (hstamped _) _ (by decide) .UnsolicitedCancel
        true _

end Deliver

end Oms
