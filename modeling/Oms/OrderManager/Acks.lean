import Oms.ExecutionAlgo.Listening
import Oms.OrderManager.Chronicle

/-!
# One order, one ack

`OrderManager::on_confirm` guards the status of the order against a second confirm, and nothing
else.

* `Env.observed`: a world that records the ack samples the health model gets, and the events that
  are published;
* `step_samples`, `step_events`: what an operation adds to the records;
* `Unrepeated`, `one_ack_iff_unrepeated`: when each order causes one sample and one `Confirmed`
  event at most.
-/

namespace Oms

open OrderManager

/-- A latency sample of a venue. -/
abbrev AckSample := VenueId × LatencyNs

section Observed

variable {W : Type}

/-- The environment with a record of the ack samples that the health model gets. -/
def Env.sampled (E : Env W) : Env (W × List AckSample) :=
  { E.beside with
    health := { E.beside.health with
      onAck := fun venue latency w =>
        (E.health.onAck venue latency w.1, w.2 ++ [(venue, latency)]) } }

/-- The environment with a record of the ack samples and of the published events. -/
def Env.observed (E : Env W) : Env ((W × List AckSample) × List OrderEvent) :=
  E.sampled.listening fun e _ events => events ++ [e]

/-- The observed environment, if the health model got no samples. -/
def Env.unsampled (E : Env W) : Env ((W × List AckSample) × List OrderEvent) :=
  { E.observed with health := { E.observed.health with onAck := fun _ _ w => w } }

/-- The ack sample of an operation: a confirm that is accepted gives one. -/
def OrderManager.sample (om : OrderManager) : Op → List AckSample
  | .confirm id _ ts =>
    if om.validate id { kind := .Confirm } = .Ok then
      [((decodeOrderId id).venue, ts - (om.orderRef id).ts.sent)]
    else []
  | _ => []

variable {E : Env W} {s : State ((W × List AckSample) × List OrderEvent)}

/-- Clients leave both records alone. -/
theorem registry_observed {v : VenueId}
    {ex : ExchangeClient ((W × List AckSample) × List OrderEvent)}
    (h : E.observed.registry.get v = some ex) :
    ∃ ex₀ : ExchangeClient W, ex = ExchangeClient.beside (ExchangeClient.beside ex₀) := by
  have hget : E.observed.registry.get v =
      ((E.registry.get v).map ExchangeClient.beside).map ExchangeClient.beside :=
    (get_beside (E := E.sampled) v).trans (congrArg _ (get_beside (E := E) v))
  rw [hget, Option.map_map, Option.map_eq_some_iff] at h
  obtain ⟨ex₀, -, hex⟩ := h
  exact ⟨ex₀, hex.symm⟩

theorem unsampled_canceller : E.unsampled.Canceller fun w w' => w'.1.2 = w.1.2 where
  refl := fun _ => rfl
  trans := fun h h' => h'.trans h
  log := fun _ _ _ => rfl
  publish := fun _ _ _ => rfl
  select := fun _ _ _ _ => rfl
  onAck := fun _ _ _ => rfl
  onReject := fun _ _ _ => rfl
  onFill := fun _ _ => rfl
  onTimeout := fun _ _ => rfl
  onDisconnect := fun _ _ => rfl
  onReconnect := fun _ _ => rfl
  cancelOrder := fun hex id exchId w => by
    obtain ⟨ex₀, rfl⟩ := registry_observed hex
    rfl

/-- A submit gives no sample. -/
theorem submit_samples (req : OrderRequest) :
    (s.submit E.observed req).2.world.1.2 = s.world.1.2 := by
  show (s.submit E.unsampled req).2.world.1.2 = s.world.1.2
  rcases submit_cases unsampled_canceller s req with ⟨-, hworld, -⟩ | ⟨venue, ex, w, hplacing⟩
  · exact hworld
  · have hworld := hplacing.world
    obtain ⟨ex₀, rfl⟩ := registry_observed hplacing.found
    rw [hplacing.place]
    unfold State.place
    dsimp only
    split
    · exact hworld
    · split_ifs
      · exact hworld
      · exact hworld

/-- The health model gets the sample of the operation. -/
theorem step_samples (s : State ((W × List AckSample) × List OrderEvent)) (op : Op) :
    (s.step E.observed op).world.1.2 = s.world.1.2 ++ s.om.sample op := by
  have hframe : (s.step E.unsampled op).world.1.2 = s.world.1.2 →
      (s.step E.unsampled op).world.1.2 = s.world.1.2 ++ [] := fun h => by rw [h, List.append_nil]
  have hinbound : ∀ {id}, op.inboundId = some id →
      (s.step E.unsampled op).world.1.2 = s.world.1.2 ++ [] := fun h =>
    hframe (step_inbound_world unsampled_canceller.toBystander h)
  cases op with
  | confirm id exchId ts =>
    show (s.onConfirm E.observed id exchId ts).world.1.2 = _
    unfold OrderManager.sample
    dsimp only
    by_cases hok : s.om.validate id { kind := .Confirm } = .Ok
    · rw [if_pos hok]
      unfold State.onConfirm
      rw [hok]
      dsimp only
      rw [orderRef_modifyOrder]
      rfl
    · rw [if_neg hok, onConfirm_drop rfl hok, List.append_nil]
      rfl
  | submit req => exact (submit_samples req).trans (List.append_nil _).symm
  | cancel id => exact hframe (cancel_world unsampled_canceller id s)
  | checkAckTimeouts now timeout =>
    exact hframe (checkAckTimeouts_world unsampled_canceller now timeout s)
  | fill id qty price trade ts => exact hinbound rfl
  | reject id reason ts => exact hinbound rfl
  | cancelAck id ts => exact hinbound rfl
  | unsolicitedCancel id ts => exact hinbound rfl
  | _ => exact (List.append_nil _).symm

/-- The listeners get the event that the operation announces. -/
theorem step_events (s : State ((W × List AckSample) × List OrderEvent)) (op : Op) :
    (s.step E.observed op).world.2 =
      s.world.2 ++ ((announced s.om op).map fun x => x.1).toList := by
  rw [Env.observed, step_listening]
  cases announced s.om op with
  | none => exact (List.append_nil _).symm
  | some x => rfl

/-! ### What an order causes -/

/-- The order in a slot is the one that an event reaches. -/
def Op.reaches (op : Op) (slot : ℕ) : Bool := op.inboundId.any fun id => slotOf id = slot

/-- The ack samples an operation causes for the order in a slot. -/
def State.samples (E : Env W) (s : State ((W × List AckSample) × List OrderEvent)) (op : Op)
    (slot : ℕ) : List AckSample :=
  if op.reaches slot then (s.step E.observed op).world.1.2.drop s.world.1.2.length else []

/-- The `Confirmed` events an operation causes for the order in a slot. -/
def State.confirmations (E : Env W) (s : State ((W × List AckSample) × List OrderEvent)) (op : Op)
    (slot : ℕ) : List OrderEvent :=
  if op.reaches slot then
    ((s.step E.observed op).world.2.drop s.world.2.length).filter (·.kind = .Confirmed)
  else []

theorem count_told {W : Type} {E : Env W} {s : State W} (op : Op) (slot : ℕ) :
    (s.told E op slot).countP (· == .confirm) =
      if op.reaches slot then (s.om.sample op).length else 0 := by
  cases op with
  | confirm id exchId ts =>
    rw [told_confirm]
    by_cases hslot : slotOf id = slot
    · subst hslot
      by_cases hok : s.om.validate id { kind := .Confirm } = .Ok
      · simp [OrderManager.sample, Op.reaches, Op.inboundId, hok]
      · simp [OrderManager.sample, hok]
    · simp [Op.reaches, Op.inboundId, hslot, Ne.symm hslot]
  | fill id qty price trade ts =>
    rw [told_fill]
    split_ifs <;> rfl
  | checkAckTimeouts now timeout =>
    simp only [State.told, OrderManager.heard, timeoutsIn, OrderManager.sample, List.nil_append,
      List.length_nil, ite_self, List.countP_eq_zero]
    intro news hnews
    obtain ⟨-, -, rfl⟩ := List.mem_map.1 hnews
    decide
  | _ => exact (ite_self _).symm

theorem length_samples (s : State ((W × List AckSample) × List OrderEvent)) (op : Op) (slot : ℕ) :
    (s.samples E op slot).length = (s.told E.observed op slot).countP (· == .confirm) := by
  rw [count_told, State.samples, step_samples, List.drop_left]
  split_ifs <;> rfl

/-- An operation publishes a `Confirmed` event exactly if it gives a sample. -/
theorem length_announced (om : OrderManager) (op : Op) :
    (((announced om op).map fun x => x.1).toList.filter (·.kind = .Confirmed)).length =
      (om.sample op).length := by
  cases op with
  | confirm id exchId ts =>
    unfold announced OrderManager.sample
    dsimp only
    split_ifs <;> rfl
  | fill id qty price trade ts =>
    unfold announced OrderManager.sample
    dsimp only
    split_ifs <;> rfl
  | reject id reason ts =>
    unfold announced OrderManager.sample
    dsimp only
    split_ifs <;> rfl
  | cancelAck id ts =>
    unfold announced OrderManager.sample
    dsimp only
    split_ifs <;> rfl
  | unsolicitedCancel id ts =>
    unfold announced OrderManager.sample
    dsimp only
    split_ifs <;> rfl
  | _ => rfl

theorem length_confirmations (s : State ((W × List AckSample) × List OrderEvent)) (op : Op)
    (slot : ℕ) : (s.confirmations E op slot).length =
      (s.told E.observed op slot).countP (· == .confirm) := by
  rw [count_told, State.confirmations, step_events, List.drop_left]
  split_ifs
  · exact length_announced s.om op
  · rfl

end Observed

/-! ### Every run -/

section Runs

variable {W : Type}

/-- A confirm that is accepted is the first one of its order. -/
def Unrepeated (c : Chronicle W News) : Op → Prop
  | .confirm id _ _ => c.state.om.Live id → .confirm ∉ c.story (slotOf id)
  | _ => True

/-- Every story has one confirm at most. -/
def ConfirmedOnce (c : Chronicle W News) : Prop :=
  ∀ slot, (c.story slot).countP (· == .confirm) ≤ 1

variable {E : Env W} {c : Chronicle W News}

/-- A confirm reaches a working order, or gives no sample. -/
theorem length_sample (om : OrderManager) (id : OrderIdRaw) (exchId : ExchangeOrderId)
    (ts : Timestamp) :
    om.Live id ∧ (om.sample (.confirm id exchId ts)).length = 1 ∨
      ¬ om.Live id ∧ (om.sample (.confirm id exchId ts)).length = 0 := by
  unfold OrderManager.sample
  dsimp only
  split_ifs with hok
  · obtain ⟨hcur, hopen⟩ := (validate_ok_iff (by decide)).1 hok
    exact Or.inl ⟨⟨hcur, hopen⟩, rfl⟩
  · refine Or.inr ⟨fun h => hok ?_, rfl⟩
    exact (validate_ok_iff (by decide)).2 ⟨h.current, h.isOpen⟩

/-- The confirms in a story, after a step. -/
theorem count_step (op : Op) (slot : ℕ) :
    (((chronicle E (State.told E)).step c op).story slot).countP (· == .confirm) =
      if c.state.om.pool.allocated slot then (c.story slot).countP (· == .confirm) +
        (if op.reaches slot then (c.state.om.sample op).length else 0)
      else 0 := by
  show (if c.state.om.pool.allocated slot then c.story slot ++ c.state.told E op slot
    else []).countP _ = _
  split_ifs with halloc hreach
  · rw [List.countP_append, count_told, if_pos hreach]
  · rw [List.countP_append, count_told, if_neg hreach]
  · rfl

/-- A step keeps the stories to one confirm, if it gives none to a story that has one. -/
theorem ConfirmedOnce.step (h : ConfirmedOnce c) (op : Op)
    (hfirst : ∀ slot, op.reaches slot = true →
      (c.story slot).countP (· == .confirm) + (c.state.om.sample op).length ≤ 1) :
    ConfirmedOnce ((chronicle E (State.told E)).step c op) := by
  intro slot
  rw [count_step]
  split_ifs with halloc hreach
  · exact hfirst slot hreach
  · exact h slot
  · exact Nat.zero_le 1

/-- A step keeps the stories to one confirm exactly if its confirm is the first one. -/
theorem confirmedOnce_step (h : ConfirmedOnce c) (op : Op) :
    ConfirmedOnce ((chronicle E (State.told E)).step c op) ↔ Unrepeated c op := by
  have hquiet : (c.state.om.sample op).length = 0 →
      ConfirmedOnce ((chronicle E (State.told E)).step c op) := fun hnone =>
    h.step op fun slot _ => by
      rw [hnone]
      exact h slot
  cases op with
  | confirm id exchId ts =>
    have hreaches : ∀ slot, Op.reaches (.confirm id exchId ts) slot = decide (slotOf id = slot) :=
      fun _ => rfl
    rcases length_sample c.state.om id exchId ts with ⟨hlive, hone⟩ | ⟨hnot, hnone⟩
    · constructor
      · intro hstep _ hmem
        have hslot := hstep (slotOf id)
        rw [count_step, if_pos hlive.allocated, hreaches, if_pos (decide_eq_true rfl), hone]
          at hslot
        have hpos : 0 < (c.story (slotOf id)).countP (· == .confirm) :=
          List.countP_pos_iff.2 ⟨.confirm, hmem, rfl⟩
        omega
      · intro hfirst
        refine h.step _ fun slot hslot => ?_
        obtain rfl := of_decide_eq_true hslot
        have hzero : (c.story (slotOf id)).countP (· == .confirm) = 0 :=
          List.countP_eq_zero.2 fun news hnews heq => hfirst hlive (eq_of_beq heq ▸ hnews)
        omega
    · exact iff_of_true (hquiet hnone) fun hlive => absurd hlive hnot
  | _ => exact iff_of_true (hquiet rfl) trivial

/-- The ack samples that the order in a slot has caused, after the run of `ops`. -/
def Env.ackSamples (E : Env W) (capacity : PoolCapacity) (w : W) (ops : List Op) (slot : ℕ) :
    List AckSample :=
  ((chronicle E.observed (State.samples E)).run (.blank capacity ((w, []), [])) ops).story slot

/-- The `Confirmed` events that the order in a slot has caused, after the run of `ops`. -/
def Env.confirmations (E : Env W) (capacity : PoolCapacity) (w : W) (ops : List Op) (slot : ℕ) :
    List OrderEvent :=
  ((chronicle E.observed (State.confirmations E)).run (.blank capacity ((w, []), [])) ops).story
    slot

/-- **Each order causes one ack sample and one `Confirmed` event at most exactly in the runs in
which no confirm of a working order is repeated**. -/
theorem one_ack_iff_unrepeated (E : Env W) (capacity : PoolCapacity) (w : W) (ops : List Op) :
    (∀ pre, pre <+: ops → ∀ slot, (E.ackSamples capacity w pre slot).length ≤ 1 ∧
        (E.confirmations capacity w pre slot).length ≤ 1) ↔
      (chronicle E.observed (State.told E.observed)).Admits Unrepeated
        (.blank capacity ((w, []), [])) ops := by
  have hblank : ConfirmedOnce (.blank capacity ((w, []), []) :
      Chronicle ((W × List AckSample) × List OrderEvent) News) := fun _ => Nat.zero_le 1
  have hstep : ∀ c op, ConfirmedOnce c →
      (ConfirmedOnce ((chronicle E.observed (State.told E.observed)).step c op) ↔
        Unrepeated c op) := fun _ op h => confirmedOnce_step h op
  rw [← Machine.forall_prefix_iff_admits hstep hblank ops]
  refine forall₂_congr fun pre _ => forall_congr' fun slot => ?_
  have hsamples : (E.ackSamples capacity w pre slot).length =
      (((chronicle E.observed (State.told E.observed)).run (.blank capacity ((w, []), []))
        pre).story slot).countP (· == .confirm) :=
    length_story_eq_countP length_samples rfl (fun _ => rfl) pre slot
  have hevents : (E.confirmations capacity w pre slot).length =
      (((chronicle E.observed (State.told E.observed)).run (.blank capacity ((w, []), []))
        pre).story slot).countP (· == .confirm) :=
    length_story_eq_countP length_confirmations rfl (fun _ => rfl) pre slot
  rw [hsamples, hevents, and_self]

end Runs

/-- A venue confirms an order twice. -/
theorem replayed_confirm_acks_twice :
    ¬ ∀ pre, pre <+: [.submit { instrument := 7, size := 10, price := 5 }, .confirm 1 "X" 3,
        .confirm 1 "X" 4] → ∀ slot, (acceptingEnv.ackSamples twoSlots () pre slot).length ≤ 1 ∧
      (acceptingEnv.confirmations twoSlots () pre slot).length ≤ 1 := by
  intro h
  have htwice := (h _ List.prefix_rfl 0).1
  revert htwice
  decide

end Oms
