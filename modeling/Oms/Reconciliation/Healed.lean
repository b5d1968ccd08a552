import Oms.OrderManager.Accepted
import Oms.OrderManager.Recorded
import Oms.Reconciliation.Corrective
import Oms.Reconciliation.Persist

/-!
# What a reported heal stands for

`Reconciliation.cpp`, `PeriodicReconciler::reconcile`: a cycle submits a corrective order, counts it
and reports the heal, whatever `submit` returned.

* `submit_recorded`: a submit gets one order taken by a venue exactly if nothing is in its way;
* `HealsAt`, `EachHeal`: when a heal is due, and what every heal of a cycle finds;
* `examine_recorded`, `examineAll_recorded`: a cycle reports and counts every heal;
* `reconcile_real_iff`: its reports are orders that venues took exactly if all were accepted.
-/

namespace Oms

open OrderManager

/-! ### Submits -/

section Submit

variable {W : Type} {E : Env W}

/-- The order that a venue took, if the call placed one that corrects a position. -/
def VenueCall.corrective : VenueCall → Option Order
  | .place o .Ok => if o.reconciliation then some o else none
  | _ => none

/-- An order is for a request. -/
structure OrderRequest.MetBy (req : OrderRequest) (o : Order) : Prop where
  instrument : o.instrument = req.instrument
  side : o.side = req.side
  size : o.size = req.size
  reconciliation : o.reconciliation = req.reconciliation

/-- More cancels were written down. -/
def OnlyCancels (w w' : W × List VenueCall) : Prop :=
  ∃ new, w'.2 = w.2 ++ new ∧ ∀ c ∈ new, ∃ id r, c = VenueCall.cancel id r

theorem OnlyCancels.of_eq {w w' : W × List VenueCall} (h : w'.2 = w.2) : OnlyCancels w w' :=
  ⟨[], by rw [h, List.append_nil], by simp⟩

/-- Whatever is not an order writes down cancels at most. -/
theorem noted_canceller (E : Env W) : E.noted.Canceller OnlyCancels where
  refl := fun _ => .of_eq rfl
  trans := by
    rintro w w' w'' ⟨new, hnew, hcancels⟩ ⟨new', hnew', hcancels'⟩
    refine ⟨new ++ new', by rw [hnew', hnew, List.append_assoc], fun c hc => ?_⟩
    exact (List.mem_append.1 hc).elim (hcancels c) (hcancels' c)
  log := fun _ _ _ => .of_eq rfl
  publish := fun _ _ _ => .of_eq rfl
  select := fun _ _ _ _ => .of_eq rfl
  onAck := fun _ _ _ => .of_eq rfl
  onReject := fun _ _ _ => .of_eq rfl
  onFill := fun _ _ => .of_eq rfl
  onTimeout := fun _ _ => .of_eq rfl
  onDisconnect := fun _ _ => .of_eq rfl
  onReconnect := fun _ _ => .of_eq rfl
  cancelOrder := fun hex id exchId w => by
    obtain ⟨ex, -, rfl⟩ := registry_noted hex
    exact ⟨_, rfl, fun c hc => ⟨id, _, List.mem_singleton.1 hc⟩⟩

/-- An order that was reserved for a request meets it. -/
theorem metBy_reserved {om om' : OrderManager} (hwf : om.WF) {req : OrderRequest} {venue : VenueId}
    {now : Timestamp} {id : OrderIdRaw} (hres : om.reserve req venue now = some (id, om')) :
    req.MetBy (om'.orderRef id) := by
  obtain ⟨-, -, href, -⟩ := reserved_slots hwf hres
  rw [href]
  exact ⟨rfl, rfl, rfl, rfl⟩

variable {s : State (W × List VenueCall)} {req : OrderRequest}

/-- What is noted of an order that is sent. -/
theorem Sends.recorded {venue : VenueId} {w : W × List VenueCall}
    {ex : ExchangeClient (W × List VenueCall)} {id : OrderIdRaw} {om' : OrderManager}
    (h : Sends E.noted s req venue w ex id om') : (s.submit E.noted req).2.world.2 =
      s.world.2 ++ [.place (om'.orderRef id) (ex.placeOrder (om'.orderRef id) w).1] := by
  obtain ⟨ex, -, rfl⟩ := registry_noted h.found
  -- to choose a venue leaves no note
  have hsame : w.2 = s.world.2 := (congrArg (fun x => x.2.2) h.selected).symm
  rw [h.submit, ← hsame]
  unfold State.place
  dsimp only
  rw [h.reserved]
  dsimp only
  split_ifs <;> rfl

/-- **A submit gets one order taken by a venue exactly if nothing is in its way.** -/
theorem submit_recorded (hwf : s.om.WF) (req : OrderRequest) :
    ∃ new, (s.submit E.noted req).2.world.2 = s.world.2 ++ new ∧
      (Accepts E.noted s req ∧ (∃ o, new = [.place o .Ok] ∧ req.MetBy o) ∨
        ¬ Accepts E.noted s req ∧ new.filterMap VenueCall.corrective = []) := by
  rcases submit_sends (noted_canceller E) hwf req with
    ⟨venue, w, ex, id, om', hsends⟩ | ⟨hnot, ⟨new, hnew, hcancels⟩, -⟩
  · refine ⟨_, hsends.recorded, ?_⟩
    by_cases haccepts : Accepts E.noted s req
    · refine Or.inl ⟨haccepts, _, ?_, metBy_reserved hwf hsends.reserved⟩
      rw [hsends.accepts_iff.1 haccepts]
    · have hrefused := mt hsends.accepts_iff.2 haccepts
      refine Or.inr ⟨haccepts, List.filterMap_eq_nil_iff.2 fun c hc => ?_⟩
      rw [List.mem_singleton.1 hc]
      unfold VenueCall.corrective
      split
      · rename_i heq
        exact absurd (VenueCall.place.inj heq).2 hrefused
      · rfl
  · refine ⟨new, hnew, Or.inr ⟨hnot, List.filterMap_eq_nil_iff.2 fun c hc => ?_⟩⟩
    obtain ⟨id, r, rfl⟩ := hcancels c hc
    rfl

end Submit

/-! ### Cycles -/

namespace PeriodicReconciler

section Cycle

variable {W : Type} {E : Env W} {r : PeriodicReconciler (W × List VenueCall)}
  {s : State (W × List VenueCall)} {now : Timestamp} {exPos : Holdings} {inst : InstrumentId}

/-- The count of an instrument is complete, and its drift is within the band. -/
def HealsAt {W : Type} (r : PeriodicReconciler W) (exPos : Holdings) (om : OrderManager)
    (inst : InstrumentId) : Prop :=
  r.cfg.reconcileThreshold < |driftOf exPos om inst| ∧
    r.cfg.persistCycles ≤ r.persist.get inst + 1 ∧ |driftOf exPos om inst| ≤ r.cfg.autoHealBand

theorem examine_heals_iff {W : Type} (E : Env W) (now : Timestamp) {r : PeriodicReconciler W}
    {s : State W} :
    (r.examine E now exPos inst s).1.action = .AutoHealed ↔ r.HealsAt exPos s.om inst := by
  unfold examine HealsAt driftOf
  dsimp only
  rw [magnitude_eq_abs]
  split_ifs with hin hzero hwait hband
  · simp [compare, not_lt.2 hin]
  · simp [compare, not_lt.2 hin]
  · simp [compare, hwait]
  · simp [compare, hband, not_le.1 hin, not_lt.1 hwait]
  · simp [compare, hband]

/-- What examining an instrument comes to when its heal is due. -/
theorem examine_of_heals {W : Type} {E : Env W} {r : PeriodicReconciler W} {s : State W}
    (h : r.HealsAt exPos s.om inst) : r.examine E now exPos inst s =
      (compare now exPos inst s.om .AutoHealed,
        { r with persist := r.persist.insert inst 0 }.autoHeal E inst (exPos.get inst)
          (s.om.position inst).net s) := by
  obtain ⟨hdrift, hcount, hband⟩ := h
  unfold driftOf at hdrift hband
  rw [← magnitude_eq_abs] at hdrift hband
  unfold examine
  dsimp only
  rw [if_neg (not_le.2 hdrift), if_neg (not_lt.2 hcount), if_pos hband]

/-- The state in which the corrective order for an instrument is submitted, and the order. -/
def healSubmit (E : Env W) (exPos : Holdings) (inst : InstrumentId) (s : State W) :
    State W × OrderRequest :=
  let (price, w) := correctivePrice E inst s.world
  ({ s with world := w }, correctiveRequest inst (driftOf exPos s.om inst) price)

/-- Every heal of the loop over the instruments finds the system as `Q` says. -/
def AtHeals {W : Type} (E : Env W) (now : Timestamp) (exPos : Holdings)
    (Q : State W → InstrumentId → Prop) :
    List InstrumentId → PeriodicReconciler W → State W → Prop
  | [], _, _ => True
  | inst :: insts, r, s =>
    (r.HealsAt exPos s.om inst → Q s inst) ∧
    (¬ r.HaltsAt exPos s.om inst →
      AtHeals E now exPos Q insts (r.examine E now exPos inst s).2.1
        (r.examine E now exPos inst s).2.2)

/-- Every heal of a cycle finds the venues' reports and the system as `Q` says. -/
def EachHeal {W : Type} (E : Env W) (now : Timestamp)
    (Q : Holdings → State W → InstrumentId → Prop) (r : PeriodicReconciler W) (s : State W) :
    Prop :=
  r.halted = false →
    let (exPos, w) := snapshot E s.world
    AtHeals E now exPos (Q exPos) (exPos.keys ∪ s.om.instruments).ascending r { s with world := w }

/-- The corrective order for an instrument meets nothing that is in its way. -/
def Unhindered (E : Env W) (exPos : Holdings) (s : State W) (inst : InstrumentId) : Prop :=
  Accepts E (healSubmit E exPos inst s).1 (healSubmit E exPos inst s).2

/-- A record stands for an order. -/
structure Stands (record : DriftRecord) (o : Order) : Prop where
  instrument : o.instrument = record.inst
  drift : signedQty o.side o.size = record.drift
  reconciliation : o.reconciliation = true

/-- The log of the reconciler is not a call to a venue. -/
def Unrecorded (r : PeriodicReconciler (W × List VenueCall)) : Prop :=
  ∀ level line w, (r.log level line w).2 = w.2

theorem correctivePrice_recorded (E : Env W) (inst : InstrumentId) (w : W × List VenueCall) :
    (correctivePrice E.noted inst w).2.2 = w.2 := by
  unfold correctivePrice
  rw [get_noted]
  cases E.registry.get 0 <;> rfl

theorem examine_log {W : Type} {E : Env W} {r : PeriodicReconciler W} {s : State W} :
    (r.examine E now exPos inst s).2.1.log = r.log := by
  unfold examine
  dsimp only
  split_ifs <;> rfl

/-- **What examining an instrument reports, counts, and gets out**: either no heal, and nothing, or
a heal, and what became of its order. -/
theorem examine_recorded (E : Env W) (now : Timestamp) (exPos : Holdings) (inst : InstrumentId)
    (hlog : r.Unrecorded) (hwf : s.om.WF) :
    let x := r.examine E.noted now exPos inst s
    (¬ r.HealsAt exPos s.om inst ∧ x.2.1.correctiveOrders = r.correctiveOrders ∧
        x.2.2.world.2 = s.world.2) ∨
      r.HealsAt exPos s.om inst ∧ x.2.1.correctiveOrders = r.correctiveOrders + 1 ∧
        ∃ new, x.2.2.world.2 = s.world.2 ++ new ∧
          (Unhindered E.noted exPos s inst ∧
              (∃ o, new.filterMap VenueCall.corrective = [o] ∧ Stands x.1 o) ∨
            ¬ Unhindered E.noted exPos s inst ∧ new.filterMap VenueCall.corrective = []) := by
  intro x
  by_cases hheals : r.HealsAt exPos s.om inst
  · refine Or.inr ⟨hheals, ?_⟩
    have hx : x = _ := examine_of_heals hheals
    obtain ⟨new, hnew, hcases⟩ := submit_recorded (E := E)
      (s := (healSubmit E.noted exPos inst s).1) hwf (healSubmit E.noted exPos inst s).2
    rw [hx]
    refine ⟨rfl, new, ?_, ?_⟩
    · rw [← correctivePrice_recorded E inst s.world]
      exact (hlog _ _ _).trans hnew
    · refine hcases.imp (fun ⟨haccepts, o, ho, hmet⟩ => ⟨haccepts, o, ?_, ?_⟩) id
      · have hrecon : o.reconciliation = true := hmet.reconciliation
        rw [ho]
        simp [VenueCall.corrective, hrecon]
      · refine ⟨hmet.instrument, ?_, hmet.reconciliation⟩
        rw [hmet.side, hmet.size]
        exact correctiveRequest_signed _ _ _
  · refine Or.inl ⟨hheals, ?_⟩
    show (r.examine E.noted now exPos inst s).2.1.correctiveOrders = _ ∧
      (r.examine E.noted now exPos inst s).2.2.world.2 = _
    rw [← examine_heals_iff E.noted now] at hheals
    unfold examine at hheals ⊢
    dsimp only at hheals ⊢
    split_ifs at hheals ⊢
    · exact ⟨rfl, hlog _ _ _⟩
    · exact ⟨rfl, rfl⟩
    · exact ⟨rfl, hlog _ _ _⟩
    · exact absurd rfl hheals
    · exact ⟨rfl, hlog _ _ _⟩

/-- The heals among the records of a cycle. -/
def heals (records : List DriftRecord) : List DriftRecord :=
  records.filter fun record => record.action = .AutoHealed

theorem heals_append (records records' : List DriftRecord) :
    heals (records ++ records') = heals records ++ heals records' := List.filter_append _ _

/-- What a pass over instruments reports, counts, and gets out. -/
structure Reported (r r' : PeriodicReconciler (W × List VenueCall))
    (s s' : State (W × List VenueCall)) (records : List DriftRecord) (accepted : Prop) : Prop where
  counted : r'.correctiveOrders = r.correctiveOrders + (heals records).length
  calls : ∃ new, s'.world.2 = s.world.2 ++ new ∧
    (accepted → List.Forall₂ Stands (heals records) (new.filterMap VenueCall.corrective)) ∧
    (¬ accepted → (new.filterMap VenueCall.corrective).length < (heals records).length)

section Reported

variable {r' r'' : PeriodicReconciler (W × List VenueCall)} {s' s'' : State (W × List VenueCall)}
  {records records' : List DriftRecord} {accepted accepted' : Prop}

/-- No more orders than heals. -/
theorem Reported.exists_calls (h : Reported r r' s s' records accepted) :
    ∃ new, s'.world.2 = s.world.2 ++ new ∧
      (accepted → List.Forall₂ Stands (heals records) (new.filterMap VenueCall.corrective)) ∧
      (¬ accepted → (new.filterMap VenueCall.corrective).length < (heals records).length) ∧
      (new.filterMap VenueCall.corrective).length ≤ (heals records).length := by
  obtain ⟨new, hnew, hyes, hno⟩ := h.calls
  refine ⟨new, hnew, hyes, hno, ?_⟩
  by_cases haccepted : accepted
  · exact (hyes haccepted).length_eq.ge
  · exact (hno haccepted).le

theorem Reported.append (h : Reported r r' s s' records accepted)
    (h' : Reported r' r'' s' s'' records' accepted') :
    Reported r r'' s s'' (records ++ records') (accepted ∧ accepted') := by
  obtain ⟨new, hnew, hyes, hno, hle⟩ := h.exists_calls
  obtain ⟨new', hnew', hyes', hno', hle'⟩ := h'.exists_calls
  refine ⟨?_, new ++ new', by rw [hnew', hnew, List.append_assoc], fun hboth => ?_, fun hnot => ?_⟩
  · rw [h'.counted, h.counted, heals_append, List.length_append, Nat.add_assoc]
  · rw [heals_append, List.filterMap_append]
    exact List.rel_append (hyes hboth.1) (hyes' hboth.2)
  · rw [heals_append, List.filterMap_append, List.length_append, List.length_append]
    by_cases haccepted : accepted
    · have hlt := hno' fun haccepted' => hnot ⟨haccepted, haccepted'⟩
      omega
    · have hlt := hno haccepted
      omega

end Reported

theorem examine_reported (E : Env W) (now : Timestamp) (exPos : Holdings) (inst : InstrumentId)
    (hlog : r.Unrecorded) (hwf : s.om.WF) :
    Reported r (r.examine E.noted now exPos inst s).2.1 s
      (r.examine E.noted now exPos inst s).2.2 [(r.examine E.noted now exPos inst s).1]
      (r.HealsAt exPos s.om inst → Unhindered E.noted exPos s inst) := by
  rcases examine_recorded E now exPos inst hlog hwf with
    ⟨hnot, hcount, hworld⟩ | ⟨hheals, hcount, new, hnew, hcases⟩
  · have hnil : heals [(r.examine E.noted now exPos inst s).1] = [] := by
      rw [← examine_heals_iff E.noted now] at hnot
      simp [heals, hnot]
    refine ⟨by rw [hnil, hcount]; rfl, [], by rw [hworld, List.append_nil], fun _ => ?_,
      fun h => ?_⟩
    · rw [hnil]
      exact .nil
    · exact absurd (fun hheals => absurd hheals hnot) h
  · have hone : heals [(r.examine E.noted now exPos inst s).1] =
        [(r.examine E.noted now exPos inst s).1] := by
      have haction := (examine_heals_iff E.noted now).2 hheals
      simp [heals, haction]
    refine ⟨by rw [hone, hcount]; rfl, new, hnew, fun haccepts => ?_, fun hnot => ?_⟩
    · rcases hcases with ⟨-, o, ho, hstands⟩ | ⟨hnot, -⟩
      · rw [hone, ho]
        exact .cons hstands .nil
      · exact absurd (haccepts hheals) hnot
    · rcases hcases with ⟨hyes, -⟩ | ⟨-, hnone⟩
      · exact absurd (fun _ => hyes) hnot
      · rw [hone, hnone]
        exact Nat.one_pos

/-- **A pass over the instruments.** -/
theorem examineAll_recorded (E : Env W) (now : Timestamp) (exPos : Holdings)
    (insts : List InstrumentId) (hlog : r.Unrecorded) (hwf : s.om.WF) :
    Reported r (examineAll E.noted now exPos insts r s).2.1 s
      (examineAll E.noted now exPos insts r s).2.2
      (examineAll E.noted now exPos insts r s).1
      (AtHeals E.noted now exPos (Unhindered E.noted exPos) insts r s) := by
  induction insts generalizing r s with
  | nil => exact ⟨rfl, [], (List.append_nil _).symm, fun _ => .nil, fun h => absurd trivial h⟩
  | cons inst insts ih =>
    have hfirst := examine_reported E now exPos inst hlog hwf
    have hhalts : (r.examine E.noted now exPos inst s).1.action = .Halted ↔
        r.HaltsAt exPos s.om inst := examine_halted_iff
    unfold examineAll AtHeals
    dsimp only
    split_ifs with hhalted
    · rw [hhalts] at hhalted
      rwa [and_iff_left fun hnot => absurd hhalted hnot]
    · have hlog' : (r.examine E.noted now exPos inst s).2.1.Unrecorded := by
        unfold Unrecorded
        rw [examine_log]
        exact hlog
      have hchain : Chain unfilled s.om (r.examine E.noted now exPos inst s).2.2.om :=
        examine_chain hwf
      have hwf' := Change.wf_of_chain hchain hwf
      have happend := hfirst.append (ih hlog' hwf')
      rw [hhalts] at hhalted
      rwa [forall_prop_of_true hhalted]

/-- The venues' reports of their positions write down nothing. -/
theorem snapshot_recorded (E : Env W) (w : W × List VenueCall) :
    (snapshot E.noted w).2.2 = w.2 := by
  have hvenue (s : Holdings × (W × List VenueCall)) (v : VenueId) :
      (snapshotVenue E.noted s v).2.2 = s.2.2 := by
    unfold snapshotVenue
    rw [get_noted]
    cases E.registry.get v with
    | none => rfl
    | some ex =>
      dsimp only [Option.map_some]
      split_ifs <;> rfl
  have hall (venues : List VenueId) (s : Holdings × (W × List VenueCall)) :
      (venues.foldl (snapshotVenue E.noted) s).2.2 = s.2.2 := by
    induction venues generalizing s with
    | nil => rfl
    | cons v venues ih => exact (ih _).trans (hvenue s v)
  exact hall _ _

/-- The heals a cycle reports are orders that venues took, one for each, and it counts them. -/
def Real (E : Env W) (now : Timestamp) (r : PeriodicReconciler (W × List VenueCall))
    (s : State (W × List VenueCall)) : Prop :=
  let (records, r', s') := r.reconcile E.noted now s
  ∃ new, s'.world.2 = s.world.2 ++ new ∧
    List.Forall₂ Stands (heals records) (new.filterMap VenueCall.corrective) ∧
    r'.correctiveOrders = r.correctiveOrders + (new.filterMap VenueCall.corrective).length

theorem reconcile_recorded (E : Env W) (now : Timestamp) (hlog : r.Unrecorded) (hwf : s.om.WF) :
    Reported r (r.reconcile E.noted now s).2.1 s (r.reconcile E.noted now s).2.2
      (r.reconcile E.noted now s).1 (EachHeal E.noted now (Unhindered E.noted) r s) := by
  unfold reconcile EachHeal
  split_ifs with hhalted
  · refine ⟨rfl, [], (List.append_nil _).symm, fun _ => .nil, fun h => ?_⟩
    exact absurd (fun hnot => absurd hhalted (by simp [hnot])) h
  · rw [forall_prop_of_true (by simpa using hhalted)]
    have h := examineAll_recorded E now (snapshot E.noted s.world).1
      ((snapshot E.noted s.world).1.keys ∪ s.om.instruments).ascending
      (s := { s with world := (snapshot E.noted s.world).2 }) hlog hwf
    refine ⟨h.counted, ?_⟩
    obtain ⟨new, hnew, hcases⟩ := h.calls
    refine ⟨new, ?_, hcases⟩
    rw [← snapshot_recorded E s.world]
    exact hnew

/-- **A cycle's heals are real exactly if its orders are all accepted.** -/
theorem reconcile_real_iff (E : Env W) (now : Timestamp) (hlog : r.Unrecorded) (hwf : s.om.WF) :
    r.Real E now s ↔ EachHeal E.noted now (Unhindered E.noted) r s := by
  have h := reconcile_recorded E now hlog hwf
  obtain ⟨new, hnew, hyes, hno⟩ := h.calls
  constructor
  · rintro ⟨new', hnew', hstands, -⟩
    by_contra hnot
    have hsame : new' = new := List.append_cancel_left (hnew'.symm.trans hnew)
    rw [hsame] at hstands
    exact absurd hstands.length_eq (hno hnot).ne'
  · intro hunhindered
    refine ⟨new, hnew, hyes hunhindered, ?_⟩
    rw [← (hyes hunhindered).length_eq]
    exact h.counted

theorem reconcile_log {W : Type} {E : Env W} {r : PeriodicReconciler W} {s : State W} :
    (r.reconcile E now s).2.1.log = r.log := by
  have hall (exPos : Holdings) (insts : List InstrumentId) (r : PeriodicReconciler W)
      (s : State W) : (examineAll E now exPos insts r s).2.1.log = r.log := by
    induction insts generalizing r s with
    | nil => rfl
    | cons inst insts ih =>
      unfold examineAll
      dsimp only
      split_ifs
      · exact examine_log
      · exact (ih _ _).trans examine_log
  unfold reconcile
  split_ifs
  · rfl
  · exact hall _ _ _ _

end Cycle

end PeriodicReconciler

/-! ### Runs -/

section Runs

open PeriodicReconciler

variable {W : Type}

def PeriodicReconciler.noted (r : PeriodicReconciler W) :
    PeriodicReconciler (W × List VenueCall) :=
  { r with log := fun level line w => (r.log level line w.1, w.2) }

/-- An operation in a world with a record, which no change from outside affects. -/
def ReconOp.noted (record : List VenueCall) : ReconOp W → ReconOp (W × List VenueCall)
  | .oms op => .oms op
  | .world w => .world (w, record)
  | .reconcile now => .reconcile now
  | .rearm => .rearm

/-- A reconciler and the manager, in a world in which the calls to the venues are written down. -/
def notedMachine (E : Env W) : Machine (ReconState (W × List VenueCall)) (ReconOp W) where
  step := fun x op => (reconMachine E.noted).step x (op.noted x.sys.world.2)

/-- A fresh manager. No venue was called. -/
def ReconState.unrecorded (capacity : PoolCapacity) (w : W) (r : PeriodicReconciler W) :
    ReconState (W × List VenueCall) :=
  ⟨⟨.init capacity, w, []⟩, r.noted⟩

/-- The heals that a step reports and counts are orders that venues took. -/
def HealsReal (E : Env W) (x : ReconState (W × List VenueCall)) : ReconOp W → Prop
  | .reconcile now => x.recon.Real E now x.sys
  | op => ((notedMachine E).step x op).recon.correctiveOrders = x.recon.correctiveOrders

/-- The corrective orders of a step meet nothing that is in their way. -/
def HealsAccepted (E : Env W) (x : ReconState (W × List VenueCall)) : ReconOp W → Prop
  | .reconcile now => EachHeal E.noted now (Unhindered E.noted) x.recon x.sys
  | _ => True

/-- **Reported heals are real orders exactly if they were accepted.** In every run of cycles and of
whatever else happens to the manager and the venues, each cycle reports and counts the orders that
venues took, one for one, exactly if at every heal nothing was in the way of its order. -/
theorem heals_real_iff (E : Env W) (capacity : PoolCapacity) (w : W) (r : PeriodicReconciler W)
    (ops : List (ReconOp W)) :
    (notedMachine E).Admits (HealsReal E) (.unrecorded capacity w r) ops ↔
      (notedMachine E).Admits (HealsAccepted E) (.unrecorded capacity w r) ops := by
  refine Machine.admits_congr (I := fun x => x.sys.om.WF ∧ x.recon.Unrecorded) ?_ ?_
    ⟨wf_init capacity, fun _ _ _ => rfl⟩ ops
  · rintro x op ⟨hwf, hlog⟩
    refine ⟨reconMachine_wf hwf _, ?_⟩
    cases op with
    | reconcile now =>
      show Unrecorded (x.recon.reconcile E.noted now x.sys).2.1
      unfold Unrecorded
      rw [reconcile_log]
      exact hlog
    | oms op => exact hlog
    | world w => exact hlog
    | rearm => exact hlog
  · rintro x op ⟨hwf, hlog⟩
    cases op with
    | reconcile now => exact reconcile_real_iff E now hlog hwf
    | oms op => exact iff_of_true rfl trivial
    | world w => exact iff_of_true rfl trivial
    | rearm => exact iff_of_true rfl trivial

/-- A fill of an order that the manager does not know trips the kill switch, and a cycle sees a
drift for the first time. -/
def killedRun : ReconState (Holdings × List VenueCall) :=
  (notedMachine mirrorEnv).run
    (.unrecorded twoSlots (Finmap.singleton 3 5) { cfg := healing })
    [.oms (.setUnknownFillHardstopThreshold 0), .oms (.fill 99 1 1 1 0), .reconcile 0]

/-- **A killed manager's heal is reported and counted, and no venue is called.** -/
theorem killed_heal_reported :
    let x := killedRun
    let (records, r, s) := x.recon.reconcile mirrorEnv.noted 1 x.sys
    x.sys.om.killed = true ∧ ⟨3, 5, 0, 5, .AutoHealed, 1⟩ ∈ records ∧
      r.correctiveOrders = x.recon.correctiveOrders + 1 ∧ s.world.2 = [] ∧
      ¬ HealsReal mirrorEnv x (.reconcile 1) := by
  refine ⟨by decide, by decide, by decide, rfl, ?_⟩
  rintro ⟨new, hnew, hstands, -⟩
  have hnone : new = [] := (List.nil_append new).symm.trans hnew.symm
  rw [hnone] at hstands
  exact absurd hstands.length_eq (by decide)

end Runs

end Oms
