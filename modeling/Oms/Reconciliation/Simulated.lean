import Oms.Reconciliation.Disconnected
import Oms.SimulatedExchange.Schedule

/-!
# The reconciler over the simulated venue

* `RigOp`, `rigMachine`: a manager, its simulated venue and a reconciler as one machine;
* `snapshot_sim`: while the venue is connected a snapshot is what the venue holds;
* `examineAll_agreed`, `reconcile_agreed`: a cycle over two sides that agree finds everything in
  sync, and touches neither;
* `never_alarms`: in no run in which the venue is connected at every cycle does the reconciler see a
  drift, send an order or halt.
-/

namespace Oms

open OrderManager SimulatedExchange

/-! ### The rig -/

section Rig

variable {B : Type}

/-- A manager and its simulated venue, and a reconciler. -/
inductive RigOp
  | sim (op : SimOp)
  | reconcile (now : Timestamp)
  | rearm

/-- The calls of a run: those of the manager and its venue, and cycles while the venue is
connected. -/
def RigOp.Allowed (x : ReconState (SimulatedExchange × B)) : RigOp → Prop
  | .sim op => op.Allowed
  | .reconcile _ => x.sys.world.1.connected = true
  | .rearm => True

variable (E : SimulatedExchange → Env B) (venue : VenueId)

/-- A reconciler whose log sink knows nothing of the venue. -/
def PeriodicReconciler.ofSim (cfg : PeriodicReconConfig) (log : LogLevel → String → B → B) :
    PeriodicReconciler (SimulatedExchange × B) where
  cfg := cfg
  log := fun level line w => (w.1, log level line w.2)

def rigMachine : Machine (ReconState (SimulatedExchange × B)) RigOp where
  step := fun x op =>
    match op with
    | .sim op => { x with sys := (simMachine E venue).step x.sys op }
    | .reconcile now => (reconMachine (.withSim E venue)).step x (.reconcile now)
    | .rearm => { x with recon := x.recon.rearm }

/-- The records that a call returns. -/
def recordsOf (x : ReconState (SimulatedExchange × B)) : RigOp → List DriftRecord
  | .reconcile now => (x.recon.reconcile (.withSim E venue) now x.sys).1
  | _ => []

end Rig

/-! ### The snapshot -/

section Snapshot

variable {B : Type} {E : SimulatedExchange → Env B} {venue : VenueId}
  {w : SimulatedExchange × B}

theorem get_withSim : (Env.withSim E venue).registry.get venue = some simClient := by
  show ((List.replicate venue.toNat none ++ [some simClient])[venue.toNat]?).join = _
  rw [List.getElem?_append_right (by simp)]
  simp

/-- The simulated venue is the only one. -/
theorem venues_withSim : (Env.withSim E venue).registry.venues = [venue] := by
  have hlength : (Env.withSim E venue).registry.byVenue.length = venue.toNat + 1 := by
    simp [Env.withSim]
  have hnone : ∀ i ∈ List.range venue.toNat,
      ¬ (((Env.withSim E venue).registry.byVenue[i]?).join).isSome = true := fun i hi => by
    show ¬ (((List.replicate venue.toNat none ++ [some simClient])[i]?).join).isSome = true
    rw [List.getElem?_append_left (by simpa using hi)]
    simp [List.mem_range.1 hi]
  have hlast : (((Env.withSim E venue).registry.byVenue[venue.toNat]?).join).isSome = true := by
    have hget : ((Env.withSim E venue).registry.byVenue[venue.toNat]?).join = some simClient :=
      get_withSim
    rw [hget]
    rfl
  unfold ExchangeRegistry.venues
  rw [hlength, List.range_succ, List.filter_append, List.filter_eq_nil_iff.2 hnone,
    List.nil_append, List.filter_cons, if_pos hlast]
  simp

/-- While the venue is connected a snapshot is what it holds. -/
theorem snapshot_sim (hconn : w.1.connected = true) :
    snapshot (.withSim E venue) w = (Holdings.addAll ∅ w.1.positions, w) := by
  unfold snapshot
  rw [venues_withSim]
  show snapshotVenue (.withSim E venue) (∅, w) venue = _
  unfold snapshotVenue
  rw [get_withSim]
  exact if_pos hconn

end Snapshot

/-! ### A cycle -/

namespace PeriodicReconciler

variable {B : Type} {E : SimulatedExchange → Env B} {venue : VenueId}
  {r : PeriodicReconciler (SimulatedExchange × B)} {s : State (SimulatedExchange × B)}
  {now : Timestamp} {exPos : Holdings}

/-- A reconciler that has done nothing so far, and that leaves the venue alone when it logs. -/
structure Idle (r : PeriodicReconciler (SimulatedExchange × B)) : Prop where
  threshold : 0 ≤ r.cfg.reconcileThreshold
  log : ∀ level line w, (r.log level line w).1 = w.1
  running : r.halted = false
  corrective : r.correctiveOrders = 0
  halts : r.halts = 0

/-- Where the two sides agree, an instrument is in sync, and examining it touches neither. -/
theorem examine_agreed (h : r.Idle) {inst : InstrumentId}
    (hagree : exPos.get inst = (s.om.position inst).net) :
    let x := r.examine (.withSim E venue) now exPos inst s
    (x.1.action = .InSync ∧ x.1.drift = 0) ∧ x.2.1.Idle ∧ x.2.2.om = s.om ∧
      x.2.2.world.1 = s.world.1 := by
  have hzero : exPos.get inst - (s.om.position inst).net = 0 := by rw [hagree, sub_self]
  have hmagnitude : magnitude (exPos.get inst - (s.om.position inst).net) = 0 := by
    rw [hzero]
    rfl
  have hsync : magnitude (exPos.get inst - (s.om.position inst).net) ≤
      r.cfg.reconcileThreshold := by
    rw [hmagnitude]
    exact h.threshold
  unfold examine
  dsimp only
  rw [if_pos hsync, if_pos hmagnitude]
  exact ⟨⟨rfl, hzero⟩, ⟨h.threshold, h.log, h.running, h.corrective, h.halts⟩, rfl,
    h.log _ _ _⟩

theorem examineAll_agreed (insts : List InstrumentId) (h : r.Idle)
    (hagree : ∀ inst, exPos.get inst = (s.om.position inst).net) :
    let x := examineAll (.withSim E venue) now exPos insts r s
    (∀ record ∈ x.1, record.action = .InSync ∧ record.drift = 0) ∧ x.2.1.Idle ∧
      x.2.2.om = s.om ∧ x.2.2.world.1 = s.world.1 := by
  induction insts generalizing r s with
  | nil => exact ⟨nofun, h, rfl, rfl⟩
  | cons inst insts ih =>
    obtain ⟨hrecord, hidle, hom, hworld⟩ :=
      @examine_agreed B E venue r s now exPos h inst (hagree inst)
    unfold examineAll
    dsimp only at hrecord hidle hom hworld ⊢
    rw [if_neg (by rw [hrecord.1]; decide)]
    obtain ⟨hrecords, hidle', hom', hworld'⟩ := ih hidle (by rw [hom]; exact hagree)
    refine ⟨fun record hmem => ?_, hidle', hom'.trans hom, hworld'.trans hworld⟩
    rcases List.mem_cons.1 hmem with rfl | hmem
    · exact hrecord
    · exact hrecords record hmem

/-- A cycle over two sides that agree finds everything in sync, and touches neither. -/
theorem reconcile_agreed (h : r.Idle) (hconn : s.world.1.connected = true)
    (hagree : ∀ inst, s.world.1.positions.get inst = (s.om.position inst).net) :
    let x := r.reconcile (.withSim E venue) now s
    (∀ record ∈ x.1, record.action = .InSync ∧ record.drift = 0) ∧ x.2.1.Idle ∧
      x.2.2.om = s.om ∧ x.2.2.world.1 = s.world.1 := by
  unfold reconcile
  rw [if_neg (by rw [h.running]; decide), snapshot_sim hconn]
  refine examineAll_agreed (s := { s with world := s.world }) _ h fun inst => ?_
  rw [Holdings.get_addAll, Finmap.get_empty, zero_add]
  exact hagree inst

end PeriodicReconciler

/-! ### Every run -/

section Runs

variable {B : Type} {E : SimulatedExchange → Env B} {venue : VenueId}
  {x : ReconState (SimulatedExchange × B)} {records : List DriftRecord}

/-- The two sides agree, the reconciler has done nothing, and every record is in sync. -/
structure AllInSync (x : ReconState (SimulatedExchange × B)) (records : List DriftRecord) :
    Prop where
  books : SoundBooks x.sys.om
  agreed : Agreed x.sys
  idle : x.recon.Idle
  inSync : ∀ record ∈ records, record.action = .InSync ∧ record.drift = 0

theorem AllInSync.cycle (h : AllInSync x records) (hconn : x.sys.world.1.connected = true)
    (now : Timestamp) : AllInSync ((rigMachine E venue).step x (.reconcile now))
      (records ++ recordsOf E venue x (.reconcile now)) := by
  obtain ⟨hrecords, hidle, hom, hworld⟩ :=
    @PeriodicReconciler.reconcile_agreed B E venue x.recon x.sys now h.idle hconn fun inst =>
      (h.agreed.coupled.position inst).symm
  have hagreed : Agreed ((rigMachine E venue).step x (.reconcile now)).sys :=
    h.agreed.of_same hom (congrArg _ hworld) (congrArg _ hworld) (congrArg _ hworld)
      (congrArg _ hworld) (congrArg _ hworld)
  have hbooks : SoundBooks ((rigMachine E venue).step x (.reconcile now)).sys.om := hom ▸ h.books
  refine ⟨hbooks, hagreed, hidle, fun record hmem => ?_⟩
  exact (List.mem_append.1 hmem).elim (h.inSync record) (hrecords record)

/-- What a call does to the manager is a chain of its changes. -/
theorem rigStep_chain (hwf : x.sys.om.WF) {op : RigOp} (hop : op.Allowed x) :
    ∃ P, Chain P x.sys.om ((rigMachine E venue).step x op).sys.om := by
  cases op with
  | sim op => exact ⟨sized, simStep_chain hwf hop⟩
  | reconcile now => exact ⟨unfilled, PeriodicReconciler.reconcile_chain hwf⟩
  | rearm => exact ⟨{}, .refl⟩

/-- As long as no id has wrapped, every call leaves everything in sync. -/
theorem rigStep_inSync {op : RigOp} (hop : op.Allowed x)
    (h : x.sys.om.WF ∧ (Unwrapped x.sys.om → AllInSync x records)) :
    ((rigMachine E venue).step x op).sys.om.WF ∧
      (Unwrapped ((rigMachine E venue).step x op).sys.om →
        AllInSync ((rigMachine E venue).step x op) (records ++ recordsOf E venue x op)) := by
  obtain ⟨hwf, hall⟩ := h
  obtain ⟨P, hchain⟩ := @rigStep_chain B E venue x hwf op hop
  refine ⟨Change.wf_of_chain hchain hwf, fun hunwrapped => ?_⟩
  have h := hall (hchain.unwrapped hwf hunwrapped)
  cases op with
  | sim op =>
    obtain ⟨hbooks, hagreed⟩ :=
      @step_agreed B E venue x.sys op hop ⟨h.books, fun _ => h.agreed⟩
    refine ⟨hbooks, hagreed hunwrapped, h.idle, ?_⟩
    show ∀ record ∈ records ++ [], _
    rw [List.append_nil]
    exact h.inSync
  | reconcile now => exact h.cycle hop now
  | rearm =>
    refine ⟨h.books, h.agreed, ?_, ?_⟩
    · exact ⟨h.idle.threshold, h.idle.log, rfl, h.idle.corrective, h.idle.halts⟩
    · show ∀ record ∈ records ++ [], _
      rw [List.append_nil]
      exact h.inSync

/-- **No false alarm.** With the simulated venue as the only one, connected whenever a cycle runs,
and with no fill that overtakes its confirm, no run of submits, cancels, polls and cycles in any
order makes the reconciler see a drift: every record is in sync, no corrective order is sent, and it
never halts. The sizes and prices are above zero, and the threshold is not below it. -/
theorem never_alarms {B : Type} (E : SimulatedExchange → Env B) (venue : VenueId)
    (cfg : SimConfig) (hgap : 0 ≤ cfg.fillGapNs) (hreorder : cfg.reorderFillBeforeAck = false)
    (rcfg : PeriodicReconConfig) (hthreshold : 0 ≤ rcfg.reconcileThreshold)
    (log : LogLevel → String → B → B) (capacity : PoolCapacity) (b : B) (ops : List RigOp) :
    let x₀ : ReconState (SimulatedExchange × B) :=
      ⟨⟨.init capacity, .init cfg, b⟩, .ofSim rcfg log⟩
    let x := (rigMachine E venue).run x₀ ops
    (rigMachine E venue).Admits (fun x op => op.Allowed x) x₀ ops → Unwrapped x.sys.om →
      (∀ record ∈ (rigMachine E venue).trace (recordsOf E venue) x₀ ops,
        record.action = .InSync ∧ record.drift = 0) ∧
      x.recon.correctiveOrders = 0 ∧ x.recon.halts = 0 ∧ x.recon.halted = false := by
  intro x₀ x hadmits hunwrapped
  have hinit : x₀.sys.om.WF ∧ (Unwrapped x₀.sys.om → AllInSync x₀ []) :=
    ⟨wf_init capacity, fun _ => ⟨soundBooks_init capacity, agreed_init capacity hgap hreorder b,
      ⟨hthreshold, fun _ _ _ => rfl, rfl, rfl, rfl⟩, nofun⟩⟩
  have h : AllInSync x ([] ++ (rigMachine E venue).trace (recordsOf E venue) x₀ ops) :=
    (Machine.run_trace_invariant
      (I := fun x records => x.sys.om.WF ∧ (Unwrapped x.sys.om → AllInSync x records))
      (fun x op records h hop => rigStep_inSync hop h) hinit hadmits).2 hunwrapped
  exact ⟨h.inSync, h.idle.corrective, h.idle.halts, h.idle.running⟩

/-- An order in three chunks, with a cycle after each poll. -/
def watchedOps : List RigOp :=
  [.sim (.oms (.submit { instrument := 7, size := 10, price := 5 })), .reconcile 0, .sim .poll,
    .reconcile 1, .sim .poll, .reconcile 2, .sim .poll, .reconcile 3]

/-- The rig before those calls. -/
def watchedRig : ReconState (SimulatedExchange × Unit) :=
  ⟨⟨.init twoSlots, .init chunkedConfig, ()⟩, .ofSim {} fun _ _ b => b⟩

/-- No cycle between the fills of an order sees a drift, and the reconciler does not halt. -/
theorem never_alarms_chunks :
    ((rigMachine (fun _ => acceptingEnv) 0).run watchedRig watchedOps).recon.halted = false ∧
      ∀ record ∈ (rigMachine (fun _ => acceptingEnv) 0).trace (recordsOf (fun _ => acceptingEnv) 0)
          watchedRig watchedOps, record.action = .InSync ∧ record.drift = 0 := by
  have hfirst : SimOp.Allowed (.oms (.submit { instrument := 7, size := 10, price := 5 })) :=
    ⟨rfl, by rintro req ⟨⟩; decide⟩
  obtain ⟨hrecords, -, -, hrunning⟩ := never_alarms (fun _ => acceptingEnv) 0 chunkedConfig
    (by decide) rfl {} (le_refl _) (fun _ _ b => b) twoSlots () watchedOps
    ⟨hfirst, rfl, trivial, rfl, trivial, rfl, trivial, rfl, trivial⟩
    fun _ => Nat.zero_lt_succ 65535
  exact ⟨hrunning, hrecords⟩

end Runs

end Oms
