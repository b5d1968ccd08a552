import Oms.SimulatedExchange.Coupling

/-!
# The books of the manager and of its simulated venue

* `poll_done`: a poll delivers everything that is due;
* `poll_agreed`, `submit_agreed`, `spared_agreed`: every call keeps the two sides agreed;
* `manager_and_venue_agree`: after every run the positions are the same, and the manager's pending
  quantity is what the venue's living orders have open.
-/

namespace Oms

open OrderManager SimulatedExchange Relation

section Agreement

variable {B : Type} {E : SimulatedExchange → Env B} {venue : VenueId}
variable {s s' : State (SimulatedExchange × B)}

/-! ### Polling -/

theorem drain_chain {E' : Env (SimulatedExchange × B)} (fuel : ℕ) (hwf : s.om.WF) :
    Chain sized s.om (s.drain E' fuel).om := by
  induction fuel generalizing s with
  | zero => exact .refl
  | succ fuel ih =>
    unfold State.drain
    split
    · exact .refl
    · rename_i ev rest hqueue
      split_ifs
      · have hchain := deliver_chain E'
          (s := s.modifySim fun x => { x with queue := rest }) hwf ev
        exact hchain.trans (ih (Change.wf_of_chain hchain hwf))
      · exact .refl

theorem drain_agreed (fuel : ℕ) (hbooks : SoundBooks s.om) (h : Agreed s)
    (hunwrapped : Unwrapped (s.drain (.withSim E venue) fuel).om) :
    Agreed (s.drain (.withSim E venue) fuel) := by
  induction fuel generalizing s with
  | zero => exact h
  | succ fuel ih =>
    unfold State.drain at hunwrapped ⊢
    split at hunwrapped
    · exact h
    · rename_i ev rest hqueue
      split_ifs at hunwrapped ⊢
      · generalize hs₁ : (s.modifySim fun x => { x with queue := rest }) = s₁ at hunwrapped ⊢
        have hdue : Due ev s₁ := hs₁ ▸ h.due hqueue
        have hbooks₁ : SoundBooks s₁.om := hs₁ ▸ hbooks
        have hchain := deliver_chain (.withSim E venue) hbooks₁.wf ev
        have hbooks₂ := hbooks₁.chain hchain
        refine ih hbooks₂ (deliver_agreed hbooks₁ hdue ?_) hunwrapped
        exact (drain_chain fuel hbooks₂.wf).unwrapped hbooks₂.wf hunwrapped
      · exact h

/-- With enough fuel the loop stops because nothing more is due. -/
theorem drain_done (fuel : ℕ) (hfuel : s.world.1.queue.length ≤ fuel) :
    ∀ ev ∈ (s.drain (.withSim E venue) fuel).world.1.queue.head?,
      (s.drain (.withSim E venue) fuel).world.1.now < ev.dueAt := by
  induction fuel generalizing s with
  | zero =>
    have hnil : (s.drain (.withSim E venue) 0).world.1.queue = [] :=
      List.eq_nil_of_length_eq_zero (Nat.le_zero.1 hfuel)
    rw [hnil]
    exact fun ev hev => absurd hev (Option.not_mem_none ev)
  | succ fuel ih =>
    unfold State.drain
    split
    · rename_i hqueue
      rw [hqueue]
      exact fun ev hev => absurd hev (Option.not_mem_none ev)
    · rename_i ev rest hqueue
      split_ifs with hdue
      · refine ih ?_
        rw [(deliver_world ev).1]
        rw [hqueue, List.length_cons] at hfuel
        exact Nat.le_of_succ_le_succ hfuel
      · intro ev' hev'
        rw [hqueue, List.head?_cons, Option.mem_def, Option.some_inj] at hev'
        subst hev'
        exact not_le.1 hdue

/-- A poll delivers everything that is due. -/
theorem poll_done : ∀ ev ∈ (s.poll (.withSim E venue)).world.1.queue.head?,
    (s.poll (.withSim E venue)).world.1.now < ev.dueAt :=
  drain_done _ (le_refl _)

/-- Only the clock, the connection or the market data of the venue changed. -/
theorem Agreed.of_same (h : Agreed s) (hom : s'.om = s.om)
    (hcfg : s'.world.1.cfg = s.world.1.cfg) (hworking : s'.world.1.working = s.world.1.working)
    (hpositions : s'.world.1.positions = s.world.1.positions)
    (hqueue : s'.world.1.queue = s.world.1.queue)
    (hseq : s'.world.1.seqCounter = s.world.1.seqCounter) : Agreed s' where
  coupled := by
    rw [hom]
    refine h.coupled.idle (.refl _) ⟨exposure_congr hworking, hpositions⟩ (fun k => ?_) fun _ h => h
    rw [hworking]
  ready := by
    refine ⟨⟨by rw [hqueue]; exact h.ready.orderly.sorted, ?_⟩, by rw [hcfg]; exact h.ready.gap,
      by rw [hcfg]; exact h.ready.no_reorder, ?_, ?_, ?_⟩
    · rw [hqueue, hseq]
      exact h.ready.orderly.seq_lt
    · rw [hqueue, hworking]
      exact h.ready.known
    · rw [hqueue]
      exact h.ready.reject
    · rw [hqueue, exposure_congr hworking]
      exact h.ready.planned

theorem poll_agreed (hbooks : SoundBooks s.om) (h : Agreed s)
    (hunwrapped : Unwrapped (s.poll (.withSim E venue)).om) :
    Agreed (s.poll (.withSim E venue)) :=
  drain_agreed (s := s.modifySim _) _ hbooks (h.of_same rfl rfl rfl rfl rfl rfl) hunwrapped

/-! ### Calls that send no order -/

/-- The manager did nothing that is seen, and asked for cancels at most. -/
theorem spared_agreed (h : Agreed s) (hidle : Idle s.om s'.om)
    (hissued : ∀ id, Issued s.om id → Issued s'.om id) (hspared : Spared s.world.1 s'.world.1) :
    Agreed s' where
  coupled := by
    refine h.coupled.idle hidle ⟨exposure_congr hspared.working, hspared.positions⟩ (fun k => ?_)
      hissued
    rw [hspared.working]
  ready := by
    refine ⟨hspared.orderly h.ready.orderly, by rw [hspared.cfg]; exact h.ready.gap,
      by rw [hspared.cfg]; exact h.ready.no_reorder, fun ev hev htype => ?_, fun ev hev htype => ?_,
      fun id e he => ?_⟩
    · rw [hspared.working]
      rcases hspared.mem ev hev with hold | hnew
      · exact h.ready.known ev hold htype
      · exact hnew.known htype
    · rcases hspared.mem ev hev with hold | hnew
      · exact h.ready.reject ev hold htype
      · exact absurd htype hnew.no_reject
    · rw [exposure_congr hspared.working] at he
      rw [hspared.fills _ _ fun ev hev hfill => hev.no_fill hfill.1]
      exact h.ready.planned id e he

/-- An operation that is no submit and no inbound event asks for cancels at most. -/
theorem step_spared {op : Op} (hinbound : op.inboundId = none)
    (hsubmit : ∀ req, op ≠ .submit req) :
    Spared s.world.1 (s.step (.withSim E venue) op).world.1 := by
  have hwires : (Env.withSim E venue).Canceller _ := Env.withSim_canceller
  cases op with
  | submit req => exact absurd rfl (hsubmit req)
  | cancel id => exact cancel_world hwires id s
  | checkAckTimeouts now timeout => exact checkAckTimeouts_world hwires now timeout s
  | confirm | fill | reject | cancelAck | unsolicitedCancel => cases hinbound
  | _ => exact .refl _

/-! ### Orders -/

/-- A disconnected venue takes no order, and is left alone. -/
theorem placeOrder_cases (o : Order) (x : SimulatedExchange) :
    x.placeOrder o = (.TransportDown, x) ∨
      x.placeOrder o = (.Ok, (x.enter o).scheduleOutcome o) := by
  unfold placeOrder
  split_ifs
  · exact Or.inl rfl
  · exact Or.inr rfl

/-- A new order is opened on both sides. -/
theorem opens_agreed (h : Agreed s) {o : Order} (hopens : Opens s.om s'.om o.internalId o)
    (hworld : s'.world.1 = (s.world.1.enter o).scheduleOutcome o)
    (hissued : ∀ id, Issued s.om id → Issued s'.om id) (hnew : ¬ Issued s.om o.internalId)
    (hid : Issued s'.om o.internalId) (hsize : 0 < o.size) (hfilled : o.filledSize = 0)
    (hprice : 0 < o.limitPrice) : Agreed s' := by
  have hqueued := scheduleOutcome_queued o (s.world.1.enter o)
  have hfresh : o.internalId ∉ s.world.1.working := fun hmem => hnew (h.coupled.issued _ hmem)
  have hmem : ∀ k, k ∈ ((s.world.1.enter o).scheduleOutcome o).working ↔
      k = o.internalId ∨ k ∈ s.world.1.working := fun k => by
    rw [hqueued.working]
    exact Finmap.mem_insert
  have hexposure : ((s.world.1.enter o).scheduleOutcome o).exposure = Function.update
      s.world.1.exposure o.internalId (some ⟨o.instrument, o.side, o.size, ∅⟩) := by
    rw [exposure_congr hqueued.working, exposure_enter]
  -- a fresh id has neither trade ids nor events
  have htrades : s.om.tradesOf o.internalId = ∅ := by
    rw [tradesOf, Finmap.lookup_eq_none.2 fun hmem => hfresh (h.coupled.trades _ hmem)]
    rfl
  have hnone : fillsOf o.internalId ∅ s.world.1.queue = [] :=
    firstSeen_eq_nil fun ev hev hfill => hfresh (hfill.2 ▸
      h.ready.known ev hev (by rw [hfill.1]; decide))
  refine agreed_of_eq hworld ⟨?_, fun inst => ?_, fun k hk => ?_, fun k hk => ?_⟩
    ⟨?_, ?_, ?_, fun ev hev htype => ?_, fun ev hev htype => ?_, fun id e he => ?_⟩
  · have hsee : exposed.see o ∅ = ⟨o.instrument, o.side, o.size, ∅⟩ := by
      simp only [exposed, Order.remaining, hfilled, sub_zero]
    rw [hopens.view, hexposure, h.coupled.exposure, htrades, hsee]
  · rw [hopens.position, h.coupled.position, hqueued.positions]
    rfl
  · exact (hmem k).2 (Or.inr (h.coupled.trades k (hopens.trades k hk)))
  · rcases (hmem k).1 hk with rfl | hk
    · exact hid
    · exact hissued k (h.coupled.issued k hk)
  · exact hqueued.orderly ⟨h.ready.orderly.sorted, h.ready.orderly.seq_lt⟩
  · rw [hqueued.cfg]
    exact h.ready.gap
  · rw [hqueued.cfg]
    exact h.ready.no_reorder
  · rw [hmem]
    rcases hqueued.mem ev hev with hold | hev
    · exact Or.inr (h.ready.known ev hold htype)
    · exact Or.inl hev.id_eq
  · rcases hqueued.mem ev hev with hold | hev
    · exact h.ready.reject ev hold htype
    · exact hev.reject htype
  · rw [hexposure] at he
    by_cases hk : id = o.internalId
    · subst hk
      rw [Function.update_self, Option.some_inj] at he
      subst he
      exact scheduleOutcome_planned ⟨h.ready.orderly.sorted, h.ready.orderly.seq_lt⟩
        h.ready.no_reorder h.ready.gap hsize hprice hnone
    · rw [Function.update_of_ne hk] at he
      rw [hqueued.fills _ _ fun ev hev hfill => hk (hfill.2.symm.trans hev.id_eq)]
      exact h.ready.planned id e he

theorem submit_agreed (hbooks : SoundBooks s.om) (h : Agreed s) {req : OrderRequest}
    (hsize : 0 < req.size) (hprice : 0 < req.price)
    (hunwrapped : Unwrapped (s.submit (.withSim E venue) req).2.om) :
    Agreed (s.submit (.withSim E venue) req).2 := by
  have hchain : Chain sized s.om (s.submit (.withSim E venue) req).2.om :=
    submit_chain trivial hbooks.wf hsize
  have hissued : ∀ id, Issued s.om id → Issued (s.submit (.withSim E venue) req).2.om id :=
    fun id => hchain.issued hbooks.wf hunwrapped
  rcases submit_cases Env.withSim_canceller s req with ⟨-, hspared, hidle⟩ | ⟨v, ex, w, hplacing⟩
  · exact spared_agreed h ((hidle still).idle hbooks.wf hbooks.stamped) hissued hspared
  · have hclient := registry_withSim hplacing.found
    subst hclient
    have hplace := hplacing.place
    -- routing leaves the venue as it was, up to cancels
    have h₁ : Agreed { s with world := w } :=
      spared_agreed h (.refl _) (fun _ h => h) hplacing.world
    rw [hplace] at hunwrapped hissued hchain ⊢
    obtain ⟨id, pool, hacq, hid, hcases⟩ := place_cases (s := { s with world := w })
      (E := .withSim E venue) hbooks.wf hbooks.stamped req v simClient hplacing.free
    have hunwrapped₀ : Unwrapped s.om := hchain.unwrapped hbooks.wf hunwrapped
    rcases hcases with ⟨hok, -, hopens, hbooked, hworld⟩ | ⟨hfail, -, hidle, line, hworld⟩
    · rcases placeOrder_cases (req.stamp id ((Env.withSim E venue).clock w) {}) w.1 with hp | hp
      · rw [show (simClient.placeOrder (req.stamp id ((Env.withSim E venue).clock w) {}) w).1 =
          (w.1.placeOrder (req.stamp id ((Env.withSim E venue).clock w) {})).1 from rfl, hp] at hok
        cases hok
      · refine opens_agreed h₁ (o := req.stamp id ((Env.withSim E venue).clock w) {}) hopens ?_
          hissued (not_issued_of_acquire hbooks.wf hunwrapped₀ hacq hid) ?_ hsize rfl hprice
        · rw [hworld]
          exact congrArg Prod.snd hp
        · exact hbooked.issued (hbooks.wf.booked hacq) hunwrapped
            (issued_booked hbooks.wf hunwrapped₀ hacq hid)
    · rcases placeOrder_cases (req.stamp id ((Env.withSim E venue).clock w) {}) w.1 with hp | hp
      · refine spared_agreed h₁ hidle hissued ?_
        rw [hworld]
        show Spared w.1 (w.1.placeOrder _).2
        rw [hp]
        exact .refl _
      · exact absurd (congrArg Prod.fst hp) hfail

/-! ### Every run -/

theorem soundBooks_init (capacity : PoolCapacity) : SoundBooks (.init capacity) where
  wf := wf_init capacity
  stamped := stamped_init capacity
  bounded := bounded_init capacity
  pending := fun inst => by
    show Finmap.get ∅ inst = _
    rw [Finmap.get_empty]
    exact (OrderPool.openSum_init _ capacity).symm

theorem agreed_init (capacity : PoolCapacity) {cfg : SimConfig} (hgap : 0 ≤ cfg.fillGapNs)
    (hreorder : cfg.reorderFillBeforeAck = false) (b : B) :
    Agreed ⟨.init capacity, .init cfg, b⟩ where
  coupled := by
    refine ⟨?_, fun inst => ?_, nofun, nofun⟩
    · funext id
      rw [view_of_not_works _ (not_works_init capacity id)]
      rfl
    · rfl
  ready := by
    have hnone : ∀ {P : SimEvent → Prop}, ∀ ev ∈ (SimulatedExchange.init cfg).queue, P ev :=
      fun ev hev => absurd hev List.not_mem_nil
    exact ⟨⟨List.Pairwise.nil, hnone⟩, hgap, hreorder, hnone, hnone, nofun⟩

/-- Every call keeps the manager's books sound, and the two sides agreed. -/
theorem step_agreed {op : SimOp} (hop : op.Allowed)
    (h : SoundBooks s.om ∧ (Unwrapped s.om → Agreed s)) :
    SoundBooks ((simMachine E venue).step s op).om ∧
      (Unwrapped ((simMachine E venue).step s op).om →
        Agreed ((simMachine E venue).step s op)) := by
  obtain ⟨hbooks, hagreed⟩ := h
  cases op with
  | oms op =>
    obtain ⟨hinbound, hreq⟩ := hop
    have hchain : Chain sized s.om (s.step (.withSim E venue) op).om := by
      refine step_changes hbooks.wf ⟨fun req h => ⟨trivial, (hreq req h).1⟩, fun id h => ?_⟩
      rw [hinbound] at h
      cases h
    refine ⟨hbooks.chain hchain, fun hunwrapped => ?_⟩
    have h := hagreed (hchain.unwrapped hbooks.wf hunwrapped)
    by_cases hsubmit : ∃ req, op = .submit req
    · obtain ⟨req, rfl⟩ := hsubmit
      exact submit_agreed hbooks h (hreq req rfl).1 (hreq req rfl).2 hunwrapped
    · have hother : ∀ req, op ≠ .submit req := fun req heq => hsubmit ⟨req, heq⟩
      exact spared_agreed h (step_idle hbooks.wf hbooks.stamped hinbound hother)
        (fun id => hchain.issued hbooks.wf hunwrapped) (step_spared hinbound hother)
  | massCancel inst =>
    exact ⟨hbooks, fun hunwrapped =>
      spared_agreed (hagreed hunwrapped) (.refl _) (fun _ h => h) (massCancel_spared inst _)⟩
  | setConnected c =>
    exact ⟨hbooks, fun hunwrapped => (hagreed hunwrapped).of_same rfl rfl rfl rfl rfl rfl⟩
  | setBook inst b =>
    exact ⟨hbooks, fun hunwrapped => (hagreed hunwrapped).of_same rfl rfl rfl rfl rfl rfl⟩
  | poll =>
    have hchain : Chain sized s.om (s.poll (.withSim E venue)).om :=
      drain_chain (s := s.modifySim _) _ hbooks.wf
    exact ⟨hbooks.chain hchain, fun hunwrapped =>
      poll_agreed hbooks (hagreed (hchain.unwrapped hbooks.wf hunwrapped)) hunwrapped⟩

end Agreement

/-! ### The two books -/

/-- What the living orders of an instrument have open at the venue. -/
def SimulatedExchange.openQuantity (x : SimulatedExchange) (inst : InstrumentId) : Quantity :=
  x.working.sumOver fun _ w =>
    if w.alive ∧ w.instrument = inst then signedQty w.side w.remaining else 0

theorem Coupled.pendingQuantity {om : OrderManager} {x : SimulatedExchange} (h : Coupled om x)
    (hbooks : SoundBooks om) (inst : InstrumentId) :
    om.pendingQuantity inst = x.openQuantity inst := by
  have hids : ∀ id, om.Works id → id ∈ x.working.keys := fun id hw => by
    obtain ⟨e, he⟩ : ∃ e, x.exposure id = some e := ⟨_, by rw [← h.exposure, view_of_works _ hw]⟩
    obtain ⟨w, hlookup, -⟩ := exposure_eq_some_iff.1 he
    exact Finmap.mem_keys.2 (Finmap.mem_of_lookup_eq_some hlookup)
  rw [hbooks.pending inst, hbooks.stamped.openSum_eq_sum hbooks.wf _ hids, openQuantity,
    Finmap.sumOver]
  refine Finset.sum_congr rfl fun id hid => ?_
  obtain ⟨w, hlookup⟩ := Finmap.mem_iff.1 (Finmap.mem_keys.1 hid)
  rw [Finmap.term_of_lookup _ _ hlookup]
  cases halive : w.alive with
  | false =>
    have hnone : x.exposure id = none := by
      rw [SimulatedExchange.exposure, hlookup, Option.bind_some, Working.exposure, halive]
      rfl
    rw [if_neg (h.not_works hnone), if_neg fun hw => Bool.false_ne_true hw.1]
  | true =>
    obtain ⟨hworks, heq⟩ := h.of_exposure (exposure_eq_some_iff.2 ⟨w, hlookup, halive, rfl⟩)
    obtain ⟨hinst, hside, hrem, -⟩ := Exposure.mk.injEq .. ▸ heq
    rw [if_pos hworks, openQty, ← hinst, ← hside, ← hrem]
    simp only [true_and]

/-- The manager and its venue agree in every state of every run: positions are the same, and the
pending quantity is what the living orders of the venue have open. -/
theorem manager_and_venue_agree {B : Type} (E : SimulatedExchange → Env B) (venue : VenueId)
    (cfg : SimConfig) (hgap : 0 ≤ cfg.fillGapNs) (hreorder : cfg.reorderFillBeforeAck = false)
    (capacity : PoolCapacity) (b : B) (ops : List SimOp) (hops : ∀ op ∈ ops, op.Allowed) :
    let s := (simMachine E venue).run ⟨.init capacity, .init cfg, b⟩ ops
    Unwrapped s.om → ∀ inst,
      s.world.1.positions.get inst = (s.om.position inst).net ∧
        s.om.pendingQuantity inst = s.world.1.openQuantity inst := by
  intro s hunwrapped inst
  have hall : SoundBooks s.om ∧ (Unwrapped s.om → Agreed s) := by
    refine Machine.run_invariant (G := fun _ op => op.Allowed)
      (I := fun s => SoundBooks s.om ∧ (Unwrapped s.om → Agreed s))
      (fun s op h hop => step_agreed hop h)
      ⟨soundBooks_init capacity, fun _ => agreed_init capacity hgap hreorder b⟩ ?_
    exact Machine.admits_of_forall hops
  have hcoupled := (hall.2 hunwrapped).coupled
  exact ⟨(hcoupled.position inst).symm, hcoupled.pendingQuantity hall.1 inst⟩

/-- A venue that fills in three chunks. -/
def chunkedConfig : SimConfig where
  partialChunks := 3
  draws := fun n => decide (2 ≤ n)

def chunkedOps : List SimOp :=
  [.oms (.submit { instrument := 7, size := 10, price := 5 }), .poll, .poll, .poll]

def chunkedRun : State (SimulatedExchange × Unit) :=
  (simMachine (fun _ => acceptingEnv) 0).run
    ⟨.init twoSlots, .init chunkedConfig, ()⟩ chunkedOps

/-- After an order of ten and three polls, two chunks are filled. -/
theorem manager_and_venue_agree_chunks :
    chunkedRun.world.1.positions.get 7 = (chunkedRun.om.position 7).net ∧
      chunkedRun.om.pendingQuantity 7 = chunkedRun.world.1.openQuantity 7 := by
  have hops : ∀ op ∈ chunkedOps, op.Allowed := by
    rintro op (_ | ⟨_, _ | ⟨_, _ | ⟨_, _ | ⟨_, ⟨⟩⟩⟩⟩⟩)
    · exact ⟨rfl, by rintro req ⟨⟩; decide⟩
    all_goals trivial
  have hagree : Unwrapped chunkedRun.om → ∀ inst,
      chunkedRun.world.1.positions.get inst = (chunkedRun.om.position inst).net ∧
        chunkedRun.om.pendingQuantity inst = chunkedRun.world.1.openQuantity inst :=
    manager_and_venue_agree (fun _ => acceptingEnv) 0 chunkedConfig (by decide) rfl
      twoSlots () chunkedOps hops
  exact hagree (fun _ => Nat.zero_lt_succ 65535) 7

end Oms
