import Oms.Foundation.Streak
import Oms.OrderManager.FailedSubmit
import Oms.OrderManager.Traded
import Oms.Reconciliation.Disconnected

/-!
# Persistent drift

The reconciler counts, for each instrument, in how many cycles it drifted, and acts when the count
is complete. It counts and resets only where it visits: an instrument that neither side reports, or
that stands behind one that halts the cycle, keeps its count although its drift is gone.

* `ReconCall`, `callMachine`: the calls of a reconciler, each with the system it finds;
* `Drifts`, `Visits`, `Attentive`: a cycle visits every instrument that it has counted and that does
  not drift any more;
* `examineAll_persist`, `examineAll_forgets`: what a cycle does to a count;
* `acts_on_persistent_drift`: after attentive cycles, an action comes after `persistCycles` cycles
  in a row with a drift;
* `acts_on_stale_count`: a drift that was gone in between is acted on.
-/

namespace Oms

open OrderManager

/-! ### Submitting moves no position -/

section Position

variable {W : Type} {E : Env W} {s : State W}

theorem place_position (req : OrderRequest) (venue : VenueId) (ex : ExchangeClient W)
    (inst : InstrumentId) : (s.place E req venue ex).2.om.position inst = s.om.position inst := by
  unfold State.place
  dsimp only
  cases hres : s.om.reserve req venue (E.clock s.world) with
  | none => rfl
  | some r =>
    obtain ⟨id, om'⟩ := r
    have hentry : om'.position inst = s.om.position inst := by
      unfold OrderManager.reserve at hres
      split at hres
      · cases hres
      · cases hres
        exact position_entry s.om.positions req.instrument inst
    dsimp only
    split_ifs
    · exact hentry
    · refine Eq.trans ?_ hentry
      unfold OrderManager.position
      rw [retire_positions]
      rfl

/-- Submitting books an order at most. -/
theorem submit_position (req : OrderRequest) (inst : InstrumentId) :
    (s.submit E req).2.om.position inst = s.om.position inst := by
  fun_cases State.submit E req s with
  | case1 hkilled => rfl
  | case2 hon w hselect => exact (cancelWorkingOrders_keepsBooks _).position inst
  | case3 hon venue w hselect s' hget => rfl
  | case4 hon venue w hselect s' ex hget hfull => exact (tripKillSwitch_keepsBooks _).position inst
  | case5 hon venue w hselect s' ex hget hfree => exact place_position req venue ex inst

end Position

/-! ### Calls -/

/-- A call of the reconciler. Its cycle finds the manager and the world as they are by then. -/
inductive ReconCall (W : Type)
  | reconcile (now : Timestamp) (sys : State W)
  | rearm

/-- The system that a call compares, if it is a cycle. -/
def ReconCall.sys? {W : Type} : ReconCall W → Option (State W)
  | .reconcile _ sys => some sys
  | .rearm => none

/-- The systems that the cycles of a run compared, the newest first. -/
def cycles {W : Type} (calls : List (ReconCall W)) : List (State W) :=
  (calls.filterMap ReconCall.sys?).reverse

/-- A reconciler that is called. Anything may happen to the system between two calls. -/
def callMachine {W : Type} (E : Env W) : Machine (PeriodicReconciler W) (ReconCall W) where
  step := fun r call =>
    match call with
    | .reconcile now sys => (r.reconcile E now sys).2.1
    | .rearm => r.rearm

namespace PeriodicReconciler

variable {W : Type} (E : Env W) (r : PeriodicReconciler W)

/-- An instrument drifts beyond a threshold. -/
def Drifts (threshold : Quantity) (inst : InstrumentId) (s : State W) : Prop :=
  threshold < |driftOf (snapshot E s.world).1 s.om inst|

instance (threshold : Quantity) (inst : InstrumentId) (s : State W) :
    Decidable (Drifts E threshold inst s) := inferInstanceAs (Decidable (_ < _))

/-- The count of an instrument is complete, and its drift is beyond the band. -/
def HaltsAt (exPos : Holdings) (om : OrderManager) (inst : InstrumentId) : Prop :=
  r.cfg.reconcileThreshold < |driftOf exPos om inst| ∧
    r.cfg.persistCycles ≤ r.persist.get inst + 1 ∧ r.cfg.autoHealBand < |driftOf exPos om inst|

/-- A cycle gets to an instrument: it is not halted, one of the sides reports the instrument, and no
instrument before it halts the cycle. -/
def Visits (s : State W) (inst : InstrumentId) : Prop :=
  let exPos := (snapshot E s.world).1
  r.halted = false ∧ inst ∈ exPos.keys ∪ s.om.instruments ∧
    ∀ j ∈ exPos.keys ∪ s.om.instruments, j < inst → ¬ r.HaltsAt exPos s.om j

/-- A cycle visits every instrument that it has counted and that does not drift any more. -/
def Attentive : ReconCall W → Prop
  | .reconcile _ s => ∀ inst, r.persist.get inst ≠ 0 →
      ¬ Drifts E r.cfg.reconcileThreshold inst s → r.Visits E s inst
  | .rearm => True

/-! ### What a cycle does to a count -/

section Count

variable {E r} {s : State W} {now : Timestamp} {exPos : Holdings} {inst j : InstrumentId}

@[simp] theorem examine_cfg : (r.examine E now exPos inst s).2.1.cfg = r.cfg := by
  unfold examine
  dsimp only
  split_ifs <;> rfl

/-- Examining an instrument writes its count. -/
theorem examine_persist_self : (r.examine E now exPos inst s).2.1.persist.get inst =
    if |driftOf exPos s.om inst| ≤ r.cfg.reconcileThreshold then 0
    else if r.persist.get inst + 1 < r.cfg.persistCycles then r.persist.get inst + 1
    else 0 := by
  unfold examine driftOf
  dsimp only
  rw [magnitude_eq_abs]
  split_ifs <;> simp [autoHeal]

theorem examine_persist_of_ne (h : j ≠ inst) :
    (r.examine E now exPos inst s).2.1.persist.get j = r.persist.get j := by
  unfold examine
  dsimp only
  split_ifs <;> simp [autoHeal, Finmap.get_insert_of_ne _ _ h]

theorem examine_halted_iff :
    (r.examine E now exPos inst s).1.action = .Halted ↔ r.HaltsAt exPos s.om inst := by
  unfold examine HaltsAt driftOf
  dsimp only
  rw [magnitude_eq_abs]
  split_ifs with hin hzero hwait hband
  · simp [compare, not_lt.2 hin]
  · simp [compare, not_lt.2 hin]
  · simp [compare, hwait]
  · simp [compare, hband]
  · simp [compare, not_le.1 hin, not_lt.1 hwait, not_le.1 hband]

/-- An action is taken on a drift whose count is complete. -/
theorem examine_acts
    (h : (r.examine E now exPos inst s).1.action = .AutoHealed ∨
      (r.examine E now exPos inst s).1.action = .Halted) :
    r.cfg.reconcileThreshold < |driftOf exPos s.om inst| ∧
      r.cfg.persistCycles ≤ r.persist.get inst + 1 := by
  unfold examine at h
  unfold driftOf
  dsimp only at h
  rw [magnitude_eq_abs] at h
  split_ifs at h with hin hzero hwait hband
  · simp [compare] at h
  · simp [compare] at h
  · simp [compare] at h
  · exact ⟨not_le.1 hin, not_lt.1 hwait⟩
  · exact ⟨not_le.1 hin, not_lt.1 hwait⟩

@[simp] theorem examine_inst : (r.examine E now exPos inst s).1.inst = inst := by
  obtain ⟨action, hrecord⟩ := examine_record (E := E) (r := r) (s := s)
  rw [hrecord]
  rfl

theorem examine_position (j : InstrumentId) :
    (r.examine E now exPos inst s).2.2.om.position j = s.om.position j := by
  rcases examine_om (E := E) (r := r) (s := s) with heq | ⟨req, w, heq⟩
  · rw [heq]
  · rw [heq]
    exact submit_position req j

theorem examineAll_cfg (insts : List InstrumentId) :
    (examineAll E now exPos insts r s).2.1.cfg = r.cfg := by
  induction insts generalizing r s with
  | nil => rfl
  | cons inst insts ih =>
    unfold examineAll
    dsimp only
    split_ifs
    · exact examine_cfg
    · exact ih.trans examine_cfg

theorem driftOf_examine (j : InstrumentId) :
    driftOf exPos (r.examine E now exPos inst s).2.2.om j = driftOf exPos s.om j := by
  unfold driftOf
  rw [examine_position]

/-- Examining an instrument does not decide whether another one halts. -/
theorem haltsAt_examine (h : j ≠ inst) : (r.examine E now exPos inst s).2.1.HaltsAt exPos
    (r.examine E now exPos inst s).2.2.om j ↔ r.HaltsAt exPos s.om j := by
  unfold HaltsAt
  rw [driftOf_examine, examine_cfg, examine_persist_of_ne h]

theorem examineAll_persist_of_notMem {insts : List InstrumentId} (h : j ∉ insts) :
    (examineAll E now exPos insts r s).2.1.persist.get j = r.persist.get j := by
  induction insts generalizing r s with
  | nil => rfl
  | cons inst insts ih =>
    rw [List.mem_cons, not_or] at h
    unfold examineAll
    dsimp only
    split_ifs
    · exact examine_persist_of_ne h.1
    · exact (ih h.2).trans (examine_persist_of_ne h.1)

/-- A cycle adds one to a count at most, and only for a drift. -/
theorem examineAll_persist {insts : List InstrumentId} (hnodup : insts.Nodup) (j : InstrumentId) :
    (examineAll E now exPos insts r s).2.1.persist.get j = r.persist.get j ∨
      (examineAll E now exPos insts r s).2.1.persist.get j = 0 ∨
      r.cfg.reconcileThreshold < |driftOf exPos s.om j| ∧
        (examineAll E now exPos insts r s).2.1.persist.get j = r.persist.get j + 1 := by
  induction insts generalizing r s with
  | nil => exact Or.inl rfl
  | cons inst insts ih =>
    obtain ⟨hnot, hnodup'⟩ := List.nodup_cons.1 hnodup
    by_cases hj : j = inst
    · -- the instrument itself is not examined again
      subst hj
      have hfirst : (examineAll E now exPos (j :: insts) r s).2.1.persist.get j =
          (r.examine E now exPos j s).2.1.persist.get j := by
        unfold examineAll
        dsimp only
        split_ifs
        · rfl
        · exact examineAll_persist_of_notMem hnot
      rw [hfirst, examine_persist_self]
      split_ifs with hin hwait
      · exact Or.inr (Or.inl rfl)
      · exact Or.inr (Or.inr ⟨not_le.1 hin, rfl⟩)
      · exact Or.inr (Or.inl rfl)
    · have hother : (r.examine E now exPos inst s).2.1.persist.get j = r.persist.get j :=
        examine_persist_of_ne hj
      unfold examineAll
      dsimp only
      split_ifs
      · exact Or.inl hother
      · rw [← hother, ← driftOf_examine (E := E) (r := r) (s := s) j, ← examine_cfg (E := E)]
        exact ih hnodup'

/-- A cycle forgets the count of an instrument that does not drift, if it gets to it. -/
theorem examineAll_forgets {insts : List InstrumentId} (hsorted : insts.Pairwise (· < ·))
    (hmem : j ∈ insts) (hfree : ∀ i ∈ insts, i < j → ¬ r.HaltsAt exPos s.om i)
    (hin : |driftOf exPos s.om j| ≤ r.cfg.reconcileThreshold) :
    (examineAll E now exPos insts r s).2.1.persist.get j = 0 := by
  induction insts generalizing r s with
  | nil => exact absurd hmem List.not_mem_nil
  | cons inst insts ih =>
    obtain ⟨hlt, hsorted'⟩ := List.pairwise_cons.1 hsorted
    unfold examineAll
    dsimp only
    rcases List.mem_cons.1 hmem with rfl | hmem'
    · have hself : (r.examine E now exPos j s).2.1.persist.get j = 0 := by
        rw [examine_persist_self, if_pos hin]
      split_ifs
      · exact hself
      · refine (examineAll_persist_of_notMem fun h => ?_).trans hself
        exact absurd (hlt j h) (by simp)
    · have hgo : ¬ r.HaltsAt exPos s.om inst := hfree inst List.mem_cons_self (hlt j hmem')
      rw [if_neg (mt examine_halted_iff.1 hgo)]
      refine ih hsorted' hmem' (fun i hi hij => ?_) ?_
      · have hne : i ≠ inst := fun heq => absurd (hlt i hi) (by simp [heq])
        rw [haltsAt_examine hne]
        exact hfree i (List.mem_cons_of_mem _ hi) hij
      · rw [driftOf_examine, examine_cfg]
        exact hin

/-- A cycle acts on drifts whose count is complete. -/
theorem examineAll_acts {insts : List InstrumentId} (hnodup : insts.Nodup) {record : DriftRecord}
    (hmem : record ∈ (examineAll E now exPos insts r s).1)
    (hact : record.action = .AutoHealed ∨ record.action = .Halted) :
    r.cfg.reconcileThreshold < |driftOf exPos s.om record.inst| ∧
      r.cfg.persistCycles ≤ r.persist.get record.inst + 1 ∧ record.inst ∈ insts := by
  induction insts generalizing r s with
  | nil => exact absurd hmem List.not_mem_nil
  | cons inst insts ih =>
    obtain ⟨hnot, hnodup'⟩ := List.nodup_cons.1 hnodup
    -- an instrument is examined once, so its count is still the one before the cycle
    have hfirst : record = (r.examine E now exPos inst s).1 →
        r.cfg.reconcileThreshold < |driftOf exPos s.om record.inst| ∧
          r.cfg.persistCycles ≤ r.persist.get record.inst + 1 ∧ record.inst ∈ inst :: insts := by
      intro heq
      rw [heq] at hact ⊢
      rw [examine_inst]
      exact ⟨(examine_acts hact).1, (examine_acts hact).2, List.mem_cons_self⟩
    unfold examineAll at hmem
    dsimp only at hmem
    split_ifs at hmem
    · exact hfirst (List.mem_singleton.1 hmem)
    · rcases List.mem_cons.1 hmem with heq | hmem'
      · exact hfirst heq
      · obtain ⟨hdrift, hcount, hin⟩ := ih hnodup' hmem'
        have hne : record.inst ≠ inst := fun heq => hnot (heq ▸ hin)
        rw [driftOf_examine, examine_cfg] at hdrift
        rw [examine_cfg, examine_persist_of_ne hne] at hcount
        exact ⟨hdrift, hcount, List.mem_cons_of_mem _ hin⟩

end Count

/-! ### Cycles -/

section Cycles

variable {E r} {s : State W} {now : Timestamp} {inst : InstrumentId}

theorem reconcile_cfg : (r.reconcile E now s).2.1.cfg = r.cfg := by
  unfold reconcile
  split_ifs
  · rfl
  · exact examineAll_cfg _

theorem reconcile_persist : (r.reconcile E now s).2.1.persist.get inst = r.persist.get inst ∨
    (r.reconcile E now s).2.1.persist.get inst = 0 ∨
    Drifts E r.cfg.reconcileThreshold inst s ∧
      (r.reconcile E now s).2.1.persist.get inst = r.persist.get inst + 1 := by
  unfold reconcile
  split_ifs
  · exact Or.inl rfl
  · exact examineAll_persist (s := { s with world := (snapshot E s.world).2 })
      (Finset.nodup_ascending _) inst

theorem reconcile_forgets (hvisits : r.Visits E s inst)
    (hdrift : ¬ Drifts E r.cfg.reconcileThreshold inst s) :
    (r.reconcile E now s).2.1.persist.get inst = 0 := by
  obtain ⟨hon, hmem, hfree⟩ := hvisits
  unfold reconcile
  rw [if_neg (by simp [hon])]
  exact examineAll_forgets (s := { s with world := (snapshot E s.world).2 })
    (Finset.pairwise_lt_ascending _)
    (Finset.mem_ascending.2 hmem) (fun i hi => hfree i (Finset.mem_ascending.1 hi))
    (not_lt.1 hdrift)

theorem reconcile_acts {record : DriftRecord} (hmem : record ∈ (r.reconcile E now s).1)
    (hact : record.action = .AutoHealed ∨ record.action = .Halted) :
    Drifts E r.cfg.reconcileThreshold record.inst s ∧
      r.cfg.persistCycles ≤ r.persist.get record.inst + 1 := by
  unfold reconcile at hmem
  split_ifs at hmem
  · exact absurd hmem List.not_mem_nil
  · obtain ⟨hdrift, hcount, -⟩ := examineAll_acts
      (s := { s with world := (snapshot E s.world).2 }) (Finset.nodup_ascending _) hmem hact
    exact ⟨hdrift, hcount⟩

/-- **One attentive cycle** keeps the count of an instrument within its streak. -/
theorem reconcile_streak {l : List (State W)}
    (h : List.Streak (Drifts E r.cfg.reconcileThreshold inst) (r.persist.get inst).toNat l)
    (hattentive : r.Attentive E (.reconcile now s)) :
    List.Streak (Drifts E r.cfg.reconcileThreshold inst)
      ((r.reconcile E now s).2.1.persist.get inst).toNat (s :: l) := by
  have hcases : (r.reconcile E now s).2.1.persist.get inst = r.persist.get inst ∨
      (r.reconcile E now s).2.1.persist.get inst = 0 ∨
      Drifts E r.cfg.reconcileThreshold inst s ∧
        (r.reconcile E now s).2.1.persist.get inst = r.persist.get inst + 1 :=
    reconcile_persist
  -- without a drift the count is 0 already, or the attentive cycle visits and resets it
  refine h.count (fun _ => ?_) fun hdrift => ?_
  · omega
  · by_cases hzero : r.persist.get inst = 0
    · rcases hcases with heq | heq | ⟨hyes, -⟩
      · simp [heq, hzero]
      · simp [heq]
      · exact absurd hyes hdrift
    · simp [reconcile_forgets (hattentive inst hzero hdrift) hdrift]

end Cycles

/-! ### Runs -/

section Runs

variable {E} {cfg : PeriodicReconConfig} {log : LogLevel → String → W → W}
  {calls : List (ReconCall W)}

@[simp] theorem cycles_snoc (call : ReconCall W) :
    cycles (calls ++ [call]) = call.sys?.toList ++ cycles calls := by
  cases call <;> simp [cycles, ReconCall.sys?]

/-- **Every run of attentive cycles** keeps the counts within the streaks. -/
theorem run_streak
    (hcalls : (callMachine E).Admits (fun r call => r.Attentive E call)
      { cfg := cfg, log := log } calls) :
    ((callMachine E).run { cfg := cfg, log := log } calls).cfg = cfg ∧
      ∀ inst, List.Streak (Drifts E cfg.reconcileThreshold inst)
        (((callMachine E).run { cfg := cfg, log := log } calls).persist.get inst).toNat
        (cycles calls) := by
  induction calls using List.reverseRecOn with
  | nil => exact ⟨rfl, fun inst => by simp⟩
  | append_singleton calls call ih =>
    rw [Machine.admits_append] at hcalls
    obtain ⟨hcalls, hcall, -⟩ := hcalls
    obtain ⟨hcfg, hstreak⟩ := ih hcalls
    rw [Machine.run_append]
    -- the last call is made on whatever the earlier ones have left
    generalize (callMachine E).run { cfg := cfg, log := log } calls = r at hcfg hstreak hcall
    subst hcfg
    cases call with
    | reconcile now s =>
      refine ⟨reconcile_cfg, fun inst => ?_⟩
      rw [cycles_snoc]
      exact reconcile_streak (hstreak inst) hcall
    | rearm =>
      refine ⟨rfl, fun inst => ?_⟩
      rw [cycles_snoc]
      exact hstreak inst

end Runs

end PeriodicReconciler

open PeriodicReconciler

/-- **The reconciler acts on persistent drift** after a run of attentive cycles: an instrument that
a further cycle heals or halts at drifted beyond the threshold in each of the last `persistCycles`
cycles, that one included. -/
theorem acts_on_persistent_drift {W : Type} (E : Env W) (cfg : PeriodicReconConfig)
    (log : LogLevel → String → W → W) (calls : List (ReconCall W)) (now : Timestamp) (s : State W)
    (hcalls : (callMachine E).Admits (fun r call => r.Attentive E call)
      { cfg := cfg, log := log } calls) :
    ∀ record ∈ (((callMachine E).run { cfg := cfg, log := log } calls).reconcile E now s).1,
      record.action = .AutoHealed ∨ record.action = .Halted →
      List.Streak (Drifts E cfg.reconcileThreshold record.inst) cfg.persistCycles.toNat
        (s :: cycles calls) := by
  intro record hmem hact
  obtain ⟨hcfg, hstreak⟩ := run_streak hcalls
  obtain ⟨hdrift, hcount⟩ := reconcile_acts hmem hact
  rw [hcfg] at hdrift hcount
  -- the count was complete but for this cycle
  refine List.Streak.mono (List.streak_succ_cons.2 ⟨hdrift, hstreak record.inst⟩) ?_
  omega

/-- A venue that holds whatever the world says. -/
def mirrorClient : ExchangeClient Holdings where
  placeOrder := fun _ w => (.Ok, w)
  cancelOrder := fun _ _ w => (.Ok, w)
  getPositions := fun w => (w, w)
  getOrderBook := fun _ w => ({}, w)
  isConnected := fun _ => true

def mirrorEnv : Env Holdings where
  registry := ⟨[some mirrorClient]⟩
  router := ⟨fun _ _ _ w => (some 0, w)⟩
  health :=
    { onOrderSent := fun _ _ w => w
      onAck := fun _ _ w => w
      onReject := fun _ _ w => w
      onFill := fun _ w => w
      onTimeout := fun _ w => w
      onDisconnect := fun _ w => w
      onReconnect := fun _ w => w }
  log := fun _ _ w => w
  clock := fun _ => 0
  publish := fun _ _ w => w
  liveOrder := fun _ s => s.ascending
  mem_liveOrder := fun _ _ _ => Finset.mem_ascending
  nodup_liveOrder := fun _ s => s.nodup_ascending

/-- A fresh manager, and a venue that holds `w`. -/
def mirrorState (w : Holdings) : State Holdings := ⟨.init twoSlots, w⟩

/-- Five of instrument `3`. -/
def fiveHeld : State Holdings := mirrorState (Finmap.singleton 3 5)

/-- Drifts up to `100` are healed. -/
def healing : PeriodicReconConfig where
  autoHealBand := 100

/-- The drift is there in both cycles. -/
theorem acts_on_persistent_drift_twice :
    List.Streak (Drifts mirrorEnv 0 3) 2 [fiveHeld, fiveHeld] :=
  acts_on_persistent_drift mirrorEnv healing (fun _ _ w => w) [.reconcile 0 fiveHeld] 1 fiveHeld
    ⟨fun _ hcount _ => absurd (Finmap.get_empty _) hcount, trivial⟩ ⟨3, 5, 0, 5, .AutoHealed, 1⟩
    (by decide) (Or.inl rfl)

/-- A cycle in between, in which neither side reports the instrument, does not reset its count. -/
theorem acts_on_stale_count :
    ¬ ∀ (calls : List (ReconCall Holdings)) (now : Timestamp) (s : State Holdings),
      ∀ record ∈ (((callMachine mirrorEnv).run { cfg := healing } calls).reconcile mirrorEnv now
          s).1, record.action = .AutoHealed ∨ record.action = .Halted →
        List.Streak (Drifts mirrorEnv healing.reconcileThreshold record.inst)
          healing.persistCycles.toNat (s :: cycles calls) := by
  intro hall
  have hstreak : List.Streak (Drifts mirrorEnv 0 3) 2 [fiveHeld, mirrorState ∅, fiveHeld] :=
    hall [.reconcile 0 fiveHeld, .reconcile 1 (mirrorState ∅)] 2 fiveHeld
      ⟨3, 5, 0, 5, .AutoHealed, 2⟩ (by decide) (Or.inl rfl)
  exact absurd (List.streak_succ_cons.1 (List.streak_succ_cons.1 hstreak).2).1 (by decide)

end Oms
