import Oms.Metrics
import Oms.OrderManager.Marks
import Oms.OrderManager.Watchdog

/-!
# Entries of the arrival table

An entry is made when an order is confirmed and removed when it is filled. Orders end in other ways
too.

* `NoneOutlives`: every entry is for a working order, with what follows from it;
* `table_confirm`, `table_fill`, `table_other`: what an operation does to the entries;
* `works_confirm`, `works_fill`, `works_end`: what it does to the working orders;
* `Kept`, `step_kept`: when an operation leaves no entry behind;
* `arrival_mids_iff`: no entry outlives its order exactly as long as no operation leaves one behind.
-/

namespace Oms

open OrderManager

variable {W V : Type} {rnd : ℚ → ℚ} {E : Env W} {s : MeteredState W V} {id k : OrderIdRaw}

/-! ### The table -/

section Table

variable {m : MetricsCollector V} {e : OrderEvent} {om : OrderManager} {v : V}

theorem mem_captureArrival : k ∈ (m.captureArrival e v).arrivalMid ↔
    k ∈ m.arrivalMid ∨ k = e.internalId ∧ m.mds.isSome = true := by
  unfold MetricsCollector.captureArrival
  cases m.mds with
  | none => simp
  | some mds =>
    dsimp only
    split_ifs with hmem
    · refine ⟨Or.inl, fun h => h.elim (fun h => h) fun h => ?_⟩
      rw [h.1]
      exact hmem
    · rw [Finmap.mem_insert]
      simp [or_comm]

/-- A confirmation makes an entry, if there is market data and the order is not a corrective one. -/
theorem mem_onOrderEvent_confirmed (hkind : e.kind = .Confirmed)
    (hcur : om.pool.isCurrent e.internalId = true) :
    k ∈ (m.onOrderEvent rnd e om v).arrivalMid ↔ k ∈ m.arrivalMid ∨ k = e.internalId ∧
      m.mds.isSome = true ∧ (om.orderRef e.internalId).reconciliation = false := by
  unfold MetricsCollector.onOrderEvent OrderManager.find
  rw [if_pos hcur, hkind]
  dsimp only
  cases hrecon : (om.orderRef e.internalId).reconciliation with
  | true => simp
  | false =>
    rw [if_neg Bool.false_ne_true]
    show k ∈ (m.captureArrival e v).arrivalMid ↔ _
    simpa using mem_captureArrival

/-- A final fill removes an entry, if the order is not a corrective one. -/
theorem mem_onOrderEvent_fill (hkind : e.kind = .Fill)
    (hcur : om.pool.isCurrent e.internalId = true) :
    k ∈ (m.onOrderEvent rnd e om v).arrivalMid ↔ k ∈ m.arrivalMid ∧
      ¬ (k = e.internalId ∧ (om.orderRef e.internalId).reconciliation = false) := by
  unfold MetricsCollector.onOrderEvent OrderManager.find
  rw [if_pos hcur, hkind]
  dsimp only
  cases hrecon : (om.orderRef e.internalId).reconciliation with
  | true => simp
  | false =>
    rw [if_neg Bool.false_ne_true]
    show k ∈ m.arrivalMid.erase e.internalId ↔ _
    rw [Finmap.mem_erase]
    simp [and_comm]

/-- Other events are not listened to. -/
theorem onOrderEvent_other (hconfirmed : e.kind ≠ .Confirmed) (hfill : e.kind ≠ .Fill) :
    m.onOrderEvent rnd e om v = m := by
  unfold MetricsCollector.onOrderEvent
  cases om.find e.internalId with
  | none => rfl
  | some o =>
    dsimp only
    split_ifs
    · rfl
    · cases hkind : e.kind with
      | Confirmed => exact absurd hkind hconfirmed
      | Fill => exact absurd hkind hfill
      | _ => rfl

end Table

/-! ### What an operation announces to the collector -/

section Announced

variable {om om' : OrderManager} {e : OrderEvent}

theorem announced_confirm (hlive : om.Live id) (exchId : ExchangeOrderId) (ts : Timestamp) :
    ∃ e, announced om (.confirm id exchId ts) =
        some (e, om.modifyOrder id (Order.confirm exchId ts)) ∧
      e.internalId = id ∧ e.kind = .Confirmed := by
  refine ⟨_, if_pos ?_, rfl, rfl⟩
  exact (validate_ok_iff (by decide)).2 ⟨hlive.current, hlive.isOpen⟩

theorem announced_fill {qty : Quantity} {price : Price} {trade : TradeId}
    (hok : om.validate id ⟨.Fill, trade, qty, price⟩ = .Ok) (ts : Timestamp) :
    ∃ e, announced om (.fill id qty price trade ts) =
        some (e, om.applyFill id qty price trade ts) ∧ e.internalId = id ∧
      e.kind = if qty = (om.orderRef id).remaining then .Fill else .PartialFill := by
  refine ⟨_, if_pos hok, rfl, ?_⟩
  dsimp only
  rw [applyFill_orderRef]
  show (if decide ((om.orderRef id).filledSize + qty = (om.orderRef id).size) = true then _ else _)
    = _
  simp only [decide_eq_true_eq, Order.filledSize_add_eq_size_iff]

/-- The collector listens to what is announced of confirms and fills. -/
def Op.metered : Op → Bool
  | .confirm _ _ _ => true
  | .fill _ _ _ _ _ => true
  | _ => false

/-- Other operations announce nothing that the collector listens to. -/
theorem announced_other {op : Op} (hop : op.metered = false)
    (h : announced om op = some (e, om')) : e.kind ≠ .Confirmed ∧ e.kind ≠ .Fill := by
  cases op with
  | confirm | fill => cases hop
  | reject | cancelAck | unsolicitedCancel =>
    unfold announced at h
    dsimp only at h
    split_ifs at h
    cases h
    exact ⟨nofun, nofun⟩
  | _ => cases h

end Announced

/-! ### What an operation does to the table -/

section Entries

/-- The collector beside a manager. -/
abbrev State.metrics (s : MeteredState W V) : MetricsCollector V := s.world.2.2

/-- The collector hears what an operation announces. -/
theorem metrics_step (op : Op) : (s.step (E.listening (hearMetrics rnd)) op).metrics =
    match announced s.om op with
    | none => s.metrics
    | some x => s.metrics.onOrderEvent rnd x.1 x.2 s.world.2.1 := by
  unfold State.metrics
  rw [step_listening]
  cases announced s.om op <;> rfl

theorem table_confirm (exchId : ExchangeOrderId) (ts : Timestamp) :
    k ∈ (s.step (E.listening (hearMetrics rnd)) (.confirm id exchId ts)).metrics.arrivalMid ↔
      k ∈ s.metrics.arrivalMid ∨ k = id ∧ s.om.Live id ∧ s.metrics.mds.isSome = true ∧
        (s.om.orderRef id).reconciliation = false := by
  rw [metrics_step]
  by_cases hlive : s.om.Live id
  · obtain ⟨e, hannounced, rfl, hkind⟩ := announced_confirm hlive exchId ts
    have hcur : (s.om.modifyOrder e.internalId (Order.confirm exchId ts)).pool.isCurrent
        e.internalId = true := (OrderPool.isCurrent_modify _).trans hlive.current
    rw [hannounced]
    dsimp only
    rw [mem_onOrderEvent_confirmed hkind hcur, orderRef_modifyOrder, and_iff_right hlive]
    rfl
  · have hnone : announced s.om (.confirm id exchId ts) = none := if_neg fun hok => by
      obtain ⟨hcur, hopen⟩ := (validate_ok_iff (by decide)).1 hok
      exact hlive ⟨hcur, hopen⟩
    rw [hnone]
    exact (or_iff_left fun h => hlive h.2.1).symm

theorem table_fill (qty : Quantity) (price : Price) (trade : TradeId) (ts : Timestamp) :
    k ∈ (s.step (E.listening (hearMetrics rnd)) (.fill id qty price trade ts)).metrics.arrivalMid ↔
      k ∈ s.metrics.arrivalMid ∧ ¬ (k = id ∧ s.om.validate id ⟨.Fill, trade, qty, price⟩ = .Ok ∧
        qty = (s.om.orderRef id).remaining ∧ (s.om.orderRef id).reconciliation = false) := by
  rw [metrics_step]
  by_cases hok : s.om.validate id ⟨.Fill, trade, qty, price⟩ = .Ok
  · obtain ⟨e, hannounced, rfl, hkind⟩ := announced_fill hok ts
    have hcur : (s.om.applyFill e.internalId qty price trade ts).pool.isCurrent e.internalId =
        true := (OrderPool.isCurrent_modify _).trans (validate_fill_ok_iff.1 hok).1
    rw [hannounced]
    dsimp only
    by_cases hqty : qty = (s.om.orderRef e.internalId).remaining
    · rw [if_pos hqty] at hkind
      rw [mem_onOrderEvent_fill hkind hcur, applyFill_orderRef, and_iff_right hok,
        and_iff_right hqty]
      rfl
    · rw [if_neg hqty] at hkind
      rw [onOrderEvent_other (by rw [hkind]; nofun) (by rw [hkind]; nofun)]
      exact (and_iff_left fun h => hqty h.2.2.1).symm
  · have hnone : announced s.om (.fill id qty price trade ts) = none := if_neg hok
    rw [hnone]
    exact (and_iff_left fun h => hok h.2.1).symm

theorem table_other {op : Op} (hop : op.metered = false) :
    (s.step (E.listening (hearMetrics rnd)) op).metrics = s.metrics := by
  rw [metrics_step]
  cases hannounced : announced s.om op with
  | none => rfl
  | some x =>
    obtain ⟨hconfirmed, hfilled⟩ := announced_other hop hannounced
    exact onOrderEvent_other hconfirmed hfilled

end Entries

/-! ### What an operation does to the working orders -/

section Works

variable {B : Type} {F : Env B} {t : State B} {op : Op}

/-- An order that is closed does not work any more. -/
theorem works_closes {om' : OrderManager}
    (h : t.om.Live id ∧ Closes t.om om' (t.om.orderRef id).internalId ∨
      ¬ t.om.Live id ∧ Idle t.om om') : om'.Works k ↔
        t.om.Works k ∧ ¬ (k = (t.om.orderRef id).internalId ∧ t.om.Live id) := by
  rcases h with ⟨hlive, hcloses⟩ | ⟨hnot, hidle⟩
  · rw [hcloses.works_iff, and_iff_left hlive]
  · rw [hidle.works_iff, and_iff_left fun h => hnot h.2]

variable (hreg : t.om.Regular)
include hreg

theorem works_confirm (exchId : ExchangeOrderId) (ts : Timestamp) :
    (t.step F (.confirm id exchId ts)).om.Works k ↔ t.om.Works k :=
  (onConfirm_idle hreg.wf hreg.stamped exchId).works_iff

theorem works_fill (qty : Quantity) (price : Price) (trade : TradeId) (ts : Timestamp) :
    (t.step F (.fill id qty price trade ts)).om.Works k ↔ t.om.Works k ∧
      ¬ (k = (t.om.orderRef id).internalId ∧ t.om.validate id ⟨.Fill, trade, qty, price⟩ = .Ok ∧
        qty = (t.om.orderRef id).remaining) := by
  rcases onFill_cases (E := F) hreg.wf hreg.stamped id qty price trade ts with
    ⟨hok, hfills⟩ | ⟨hnot, hidle⟩
  · obtain ⟨hcur, hopen, -⟩ := validate_fill_ok_iff.1 hok
    refine (hfills.works_iff (hreg.stamped.works ⟨hcur, hopen⟩)).trans ?_
    rw [and_iff_right hok, not_and]
  · exact hidle.works_iff.trans (and_iff_left fun h => hnot h.2.1).symm

/-- The id of an event that ends its order without a fill. -/
def Op.closingId : Op → Option OrderIdRaw
  | .reject id reason _ => if reason = .CancelRejected then none else some id
  | .cancelAck id _ => some id
  | .unsolicitedCancel id _ => some id
  | _ => none

theorem works_closing (hop : op.closingId = some id) : (t.step F op).om.Works k ↔
    t.om.Works k ∧ ¬ (k = (t.om.orderRef id).internalId ∧ t.om.Live id) := by
  have hwf := hreg.wf
  have hstamped := hreg.stamped
  cases op with
  | reject id' reason ts =>
    unfold Op.closingId at hop
    dsimp only at hop
    split_ifs at hop with hreason
    cases hop
    exact works_closes (onReject_cases hwf hstamped id hreason ts)
  | cancelAck id' ts =>
    cases hop
    exact works_closes (finishCancel_cases hwf hstamped id (by decide) .Cancelled false ts)
  | unsolicitedCancel id' ts =>
    cases hop
    exact works_closes
      (finishCancel_cases hwf hstamped id (by decide) .UnsolicitedCancel true ts)
  | _ => cases hop

/-- Whatever else happens, a working order goes on working. -/
theorem works_other (hop : op.metered = false) (hclosing : op.closingId = none)
    (h : t.om.Works k) : (t.step F op).om.Works k := by
  have hother (hinbound : op.inboundId = none) : (t.step F op).om.Works k := by
    have hturns : Turns { addresses := fun _ _ => False } t.om (t.step F op).om := by
      refine step_turns ⟨fun _ _ => ⟨trivial, trivial⟩, fun id hid => ?_⟩
      rw [hinbound] at hid
      cases hid
    exact hturns.works_kept hreg (fun _ _ => id) h
  cases op with
  | confirm | fill => cases hop
  | reject id reason ts =>
    unfold Op.closingId at hclosing
    dsimp only at hclosing
    split_ifs at hclosing with hreason
    subst hreason
    exact (onCancelReject_idle hreg.wf hreg.stamped).works_iff.2 h
  | cancelAck | unsolicitedCancel => cases hclosing
  | _ => exact hother rfl

end Works

/-! ### Entries and orders -/

/-- No entry of the table outlives its order: the table is no larger than the live index, and no new
order takes over an entry. -/
structure NoneOutlives (s : MeteredState W V) : Prop where
  works : ∀ id ∈ s.metrics.arrivalMid, s.om.Works id
  bounded : s.metrics.arrivalMid.keys.card ≤ s.om.live.card
  fresh : ∀ req venue now id om', s.om.reserve req venue now = some (id, om') →
    id ∉ s.metrics.arrivalMid

/-- The ids and the live index are sound, and the entries are for working orders, none of them a
corrective one. -/
structure Entered (s : MeteredState W V) : Prop where
  regular : s.om.Regular
  indexed : Indexed s.om
  works : ∀ id ∈ s.metrics.arrivalMid, s.om.Works id
  plain : ∀ id ∈ s.metrics.arrivalMid, (s.om.orderRef id).reconciliation = false

/-- An operation leaves no entry behind: an order that ends has none, or its own fill ends it; and
an order is confirmed under its own id. -/
def LeavesNone (s : MeteredState W V) : MetricsOp V → Prop
  | .oms (.confirm id _ _) => s.om.Live id → s.metrics.mds.isSome = true →
      (s.om.orderRef id).reconciliation = false → (s.om.orderRef id).internalId = id
  | .oms (.fill id qty price trade _) =>
      s.om.validate id ⟨.Fill, trade, qty, price⟩ = .Ok → qty = (s.om.orderRef id).remaining →
        (s.om.orderRef id).internalId ∈ s.metrics.arrivalMid → (s.om.orderRef id).internalId = id
  | .oms op => ∀ id, op.closingId = some id → s.om.Live id →
      (s.om.orderRef id).internalId ∉ s.metrics.arrivalMid
  | _ => True

section Steps

/-- Where the index is sound, entries for working orders are all there is to ask. -/
theorem noneOutlives_iff (hreg : s.om.Regular) (hindexed : Indexed s.om) :
    NoneOutlives s ↔ ∀ id ∈ s.metrics.arrivalMid, s.om.Works id := by
  refine ⟨fun h => h.works, fun h => ⟨h, ?_, ?_⟩⟩
  · refine Finset.card_le_card fun id hid => ?_
    have hworks := h id (Finmap.mem_keys.1 hid)
    have hmem := hindexed (slotOf id) ⟨hworks.live.allocated, hworks.live.isOpen⟩
    exact hworks.own ▸ hmem
  · intro req venue now id om' hres hmem
    obtain ⟨-, -, hfresh, -⟩ := reserve_opens hreg.wf hres
    exact hfresh (h id hmem)

theorem entered_fresh (capacity : PoolCapacity) (w : W) (v : V)
    (mds : Option (MarketDataSource V)) : Entered (MeteredState.fresh capacity w v mds) where
  regular := regular_init capacity
  indexed := indexed_init capacity
  works := fun _ h => absurd h Finmap.notMem_empty
  plain := fun _ h => absurd h Finmap.notMem_empty

variable (h : Entered s)
include h

variable (rnd E) in
theorem step_sound (op : Op) : (s.step (E.listening (hearMetrics rnd)) op).om.Regular ∧
    Indexed (s.step (E.listening (hearMetrics rnd)) op).om :=
  ⟨h.regular.chain (step_chain h.regular.wf op),
    (step_indexed h.regular.wf h.regular.stamped h.indexed op).2.2⟩

variable (rnd E) in
/-- **One operation** leaves entries for working orders only, exactly if it leaves none behind. -/
theorem step_works_iff (op : Op) :
    (∀ k ∈ (s.step (E.listening (hearMetrics rnd)) op).metrics.arrivalMid,
      (s.step (E.listening (hearMetrics rnd)) op).om.Works k) ↔ LeavesNone s (.oms op) := by
  have hreg := h.regular
  have hworks := h.works
  have hother (hop : op.metered = false) :
      (∀ k ∈ (s.step (E.listening (hearMetrics rnd)) op).metrics.arrivalMid,
        (s.step (E.listening (hearMetrics rnd)) op).om.Works k) ↔
      ∀ id, op.closingId = some id → s.om.Live id →
        (s.om.orderRef id).internalId ∉ s.metrics.arrivalMid := by
    rw [table_other hop]
    cases hclosing : op.closingId with
    | none => exact iff_of_true (fun k hk => works_other hreg hop hclosing (hworks k hk)) nofun
    | some id =>
      simp only [works_closing hreg hclosing]
      constructor
      · rintro hall _ ⟨⟩ hlive hmem
        exact (hall _ hmem).2 ⟨rfl, hlive⟩
      · intro hnone k hk
        refine ⟨hworks k hk, ?_⟩
        rintro ⟨rfl, hlive⟩
        exact hnone id rfl hlive hk
  cases op with
  | confirm id exchId ts =>
    simp only [table_confirm, works_confirm hreg]
    constructor
    · exact fun hall hlive hmds hrecon => (hall id (Or.inr ⟨rfl, hlive, hmds, hrecon⟩)).own
    · rintro hown k (hk | ⟨rfl, hlive, hmds, hrecon⟩)
      · exact hworks k hk
      · exact ⟨hlive, hown hlive hmds hrecon⟩
  | fill id qty price trade ts =>
    simp only [table_fill, works_fill hreg]
    constructor
    · intro hall hok hqty hmem
      by_contra hne
      exact (hall _ ⟨hmem, fun h => hne h.1⟩).2 ⟨rfl, hok, hqty⟩
    · rintro hown k ⟨hk, hkept⟩
      refine ⟨hworks k hk, ?_⟩
      rintro ⟨rfl, hok, hqty⟩
      obtain ⟨hcur, hopen, -⟩ := validate_fill_ok_iff.1 hok
      have hplain := h.plain _ hk
      rw [hreg.stamped.orderRef_internalId ⟨hcur, hopen⟩] at hplain
      exact hkept ⟨hown hok hqty hk, hok, hqty, hplain⟩
  | _ => exact hother rfl

/-- What has an entry after an operation had one before, or is being confirmed. -/
theorem mem_table_step {op : Op}
    (hk : k ∈ (s.step (E.listening (hearMetrics rnd)) op).metrics.arrivalMid) :
    s.om.pool.allocated (slotOf k) = true ∧ (s.om.orderRef k).reconciliation = false := by
  have hold (hmem : k ∈ s.metrics.arrivalMid) :
      s.om.pool.allocated (slotOf k) = true ∧ (s.om.orderRef k).reconciliation = false :=
    ⟨(h.works k hmem).live.allocated, h.plain k hmem⟩
  cases op with
  | confirm id exchId ts =>
    rcases (table_confirm exchId ts).1 hk with hmem | ⟨rfl, hlive, -, hrecon⟩
    · exact hold hmem
    · exact ⟨hlive.allocated, hrecon⟩
  | fill id qty price trade ts => exact hold ((table_fill qty price trade ts).1 hk).1
  | _ =>
    rw [table_other rfl] at hk
    exact hold hk

theorem entered_step {op : MetricsOp V} (hkept : LeavesNone s op) :
    Entered ((metricsMachine rnd E).step s op) := by
  cases op with
  | oms op =>
    obtain ⟨hreg', hindexed'⟩ := step_sound rnd E h op
    have hworks' := (step_works_iff rnd E h op).2 hkept
    refine ⟨hreg', hindexed', hworks', fun k hk => ?_⟩
    obtain ⟨halloc, hplain⟩ := mem_table_step h hk
    rw [← hplain]
    exact step_reconciliation h.regular.wf halloc (hworks' k hk).live.allocated
  | market v => exact ⟨h.regular, h.indexed, h.works, h.plain⟩
  | referenceVwap inst vwap => exact ⟨h.regular, h.indexed, h.works, h.plain⟩

theorem noneOutlives_step_iff (op : MetricsOp V) :
    NoneOutlives ((metricsMachine rnd E).step s op) ↔ LeavesNone s op := by
  have hnow : NoneOutlives s := (noneOutlives_iff h.regular h.indexed).2 h.works
  cases op with
  | oms op =>
    obtain ⟨hreg', hindexed'⟩ := step_sound rnd E h op
    exact (noneOutlives_iff hreg' hindexed').trans (step_works_iff rnd E h op)
  | market v => exact iff_of_true ⟨hnow.works, hnow.bounded, hnow.fresh⟩ trivial
  | referenceVwap inst vwap => exact iff_of_true ⟨hnow.works, hnow.bounded, hnow.fresh⟩ trivial

end Steps

/-! ### Runs -/

/-- **No entry of the arrival table outlives its order exactly as long as no operation leaves one
behind**: in every run of a manager with a collector that is subscribed from the start, whatever the
market does. -/
theorem arrival_mids_iff (rnd : ℚ → ℚ) (E : Env W) (capacity : PoolCapacity) (w : W) (v : V)
    (mds : Option (MarketDataSource V)) (ops : List (MetricsOp V)) :
    let M := metricsMachine rnd E
    let s := MeteredState.fresh capacity w v mds
    (∀ pre, pre <+: ops → NoneOutlives (M.run s pre)) ↔ M.Admits LeavesNone s ops := by
  intro M s
  refine Iff.trans ?_ (Machine.admits_and_forall_prefix_iff (H := fun _ _ => True) (I := Entered)
    (fun s h => (noneOutlives_iff h.regular h.indexed).2 h.works)
    (fun s op h hkept => entered_step h hkept)
    (fun s op h => (and_iff_right trivial).trans (noneOutlives_step_iff h op))
    (entered_fresh capacity w v mds) ops)
  exact (and_iff_right (M.admits_true s ops)).symm

/-- A book with a mid of ten, whatever happens. -/
def steadyMarket : MarketDataSource Unit where
  topOfBook := fun _ _ => { bid := 9, ask := 11 }
  volumeSince := fun _ _ _ => 0

/-- An order is confirmed and then cancelled. -/
def cancelledRun : MeteredState Unit Unit :=
  (metricsMachine (fun q => q) acceptingEnv).run (.fresh twoSlots () () (some steadyMarket))
    [.oms (.submit { instrument := 7, size := 10, price := 10 }), .oms (.confirm 1 "X" 1),
      .oms (.cancel 1), .oms (.cancelAck 1 2)]

/-- **The entry of a cancelled order stays**, with no order left that works. -/
theorem cancelled_order_keeps_entry :
    let s := cancelledRun
    s.metrics.arrivalMid.lookup 1 = some 10 ∧ (s.om.orderRef 1).status = .Cancelled ∧
      s.om.live = ∅ ∧ ¬ NoneOutlives s := by
  refine ⟨by decide, by decide, by decide, fun h => ?_⟩
  have hworks := h.works 1 (by decide)
  exact absurd hworks.live.isOpen (by decide)

end Oms
