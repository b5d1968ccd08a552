import Mathlib.Algebra.Order.Group.Int
import Oms.Reconciliation

/-!
# Startup reconciliation

`Reconciliation.h`, `Reconciliation.cpp`: before trading is enabled, the startup reconciler compares
the persisted positions with those of the exchange, and decides whether the system can start and
with which positions.

* `ReconLine`, `StartupReport`, `StartupReconciler`: the data of the class;
* `settle`, `settleAll`, `reconcile`: the body of the loop, the loop, and the decision;
* `Adopts`: an instrument's position on the exchange can be adopted;
* `Tallied`: what the loop holds after some instruments, with `Tallied.settle`;
* `startup_reconcile_table`: the decision is that of the table.
-/

namespace Oms

inductive ReconAction
  /-- both sides are equal -/
  | Proceed
  /-- nothing was persisted: the exchange is adopted -/
  | AdoptColdStart
  /-- a small drift: the exchange is adopted -/
  | AdoptAutoHeal
  /-- the drift is too large, or the exchange is unreachable -/
  | HardStop
  deriving DecidableEq, Repr

structure ReconLine where
  instrument : InstrumentId := 0
  localPos : Quantity := 0
  exchange : Quantity := 0
  action : ReconAction := .Proceed
  why : String := ""
  deriving DecidableEq, Repr

structure StartupReport where
  canStart : Bool := false
  lines : List ReconLine := []
  /-- the positions to start from -/
  adopted : Holdings := ∅

structure StartupReconConfig where
  startupAutoHealThreshold : Quantity := 0

structure StartupReconciler (W : Type) where
  cfg : StartupReconConfig := {}
  /-- the log sink, which does nothing when none is configured -/
  log : LogLevel → String → W → W := fun _ _ w => w

/-- What the loop over the instruments carries along. -/
structure StartupLoop (W : Type) where
  report : StartupReport := {}
  hardStop : Bool := false
  world : W

/-- Adopt a position, and report on it. -/
def StartupLoop.adopt {W : Type} (s : StartupLoop W) (line : ReconLine) (q : Quantity) :
    StartupLoop W :=
  { s with report :=
    { s.report with
      adopted := s.report.adopted.insert line.instrument q
      lines := s.report.lines ++ [line] } }

namespace StartupReconciler

variable {W : Type} (r : StartupReconciler W) (loc : Holdings) (hasPersistedState : Bool)
  (exchange : Holdings)

def note (level : LogLevel) (line : String) (s : StartupLoop W) : StartupLoop W :=
  { s with world := r.log level line s.world }

/-- The body of the loop over the instruments. -/
def settle (s : StartupLoop W) (inst : InstrumentId) : StartupLoop W :=
  let l := loc.get inst
  let e := exchange.get inst
  let line : ReconLine := { instrument := inst, localPos := l, exchange := e }
  if hasPersistedState = false then
    (r.note .Warn ("startup recon COLD START inst=" ++ toString inst ++ " adopt exchange=" ++
      toString e) s).adopt
      { line with
        action := .AdoptColdStart
        why := "cold start: exchange is the only truth available" } e
  else if l = e then s.adopt { line with action := .Proceed, why := "match" } l
  else
    let drift := if l - e < 0 then e - l else l - e
    if drift ≤ r.cfg.startupAutoHealThreshold then
      (r.note .Warn ("startup recon AUTO-HEAL inst=" ++ toString inst ++ " local=" ++
        toString l ++ " exch=" ++ toString e ++ " drift=" ++ toString drift) s).adopt
        { line with
          action := .AdoptAutoHeal
          why := "drift<=threshold: missed fill while down; exchange authoritative" } e
    else
      let s := r.note .Error ("startup recon HARD STOP inst=" ++ toString inst ++ " local=" ++
        toString l ++ " exch=" ++ toString e ++ " drift=" ++ toString drift) s
      let line : ReconLine :=
        { line with
          action := .HardStop
          why := "drift>threshold: cannot distinguish missed fill from corruption" }
      { s with
        hardStop := true
        report := { s.report with lines := s.report.lines ++ [line] } }

/-- The loop over the instruments. -/
def settleAll (insts : List InstrumentId) (s : StartupLoop W) : StartupLoop W :=
  insts.foldl (r.settle loc hasPersistedState exchange) s

/-- The decision, from what was persisted and what the exchange holds. -/
def reconcile (exchangeReachable : Bool) (w : W) : StartupReport × W :=
  if exchangeReachable = false then
    ({ canStart := false
       lines := [⟨0, 0, 0, .HardStop, "exchange unreachable"⟩] },
      r.log .Error "startup recon: exchange unreachable -> HARD STOP" w)
  else
    let s := r.settleAll loc hasPersistedState exchange (loc.keys ∪ exchange.keys).ascending
      { world := w }
    let report := { s.report with canStart := !s.hardStop }
    (if s.hardStop then { report with adopted := ∅ } else report, s.world)

/-! ### The table -/

/-- The exchange's position of an instrument can be adopted. -/
def Adopts (inst : InstrumentId) : Prop :=
  hasPersistedState = false ∨ loc.get inst = exchange.get inst ∨
    |loc.get inst - exchange.get inst| ≤ r.cfg.startupAutoHealThreshold

instance (inst : InstrumentId) : Decidable (r.Adopts loc hasPersistedState exchange inst) :=
  inferInstanceAs (Decidable (_ ∨ _ ∨ _))

variable {r loc hasPersistedState exchange} {s : StartupLoop W} {inst : InstrumentId}

/-- The drift of the source is an absolute value. -/
theorem drift_eq_abs (l e : Quantity) : (if l - e < 0 then e - l else l - e) = |l - e| := by
  split_ifs with h
  · rw [abs_of_neg h, neg_sub]
  · rw [abs_of_nonneg (not_lt.1 h)]

theorem settle_of_adopts (h : r.Adopts loc hasPersistedState exchange inst) : ∃ w action why,
    r.settle loc hasPersistedState exchange s inst =
      { s with world := w }.adopt ⟨inst, loc.get inst, exchange.get inst, action, why⟩
        (exchange.get inst) := by
  unfold settle
  dsimp only
  rw [drift_eq_abs]
  split_ifs with hcold heq hdrift
  · exact ⟨_, _, _, rfl⟩
  · rw [heq]
    exact ⟨s.world, _, _, rfl⟩
  · exact ⟨_, _, _, rfl⟩
  · rcases h with h | h | h
    · exact absurd h hcold
    · exact absurd h heq
    · exact absurd h hdrift

theorem settle_of_not_adopts (h : ¬ r.Adopts loc hasPersistedState exchange inst) : ∃ w why,
    r.settle loc hasPersistedState exchange s inst =
      { report :=
          { s.report with
            lines := s.report.lines ++
              [⟨inst, loc.get inst, exchange.get inst, .HardStop, why⟩] }
        hardStop := true
        world := w } := by
  simp only [Adopts, not_or] at h
  unfold settle
  dsimp only
  rw [drift_eq_abs, if_neg h.1, if_neg h.2.1, if_neg h.2.2]
  exact ⟨_, _, rfl⟩

/-- What the loop holds after it has seen some instruments. -/
structure Tallied (r : StartupReconciler W) (loc : Holdings) (hasPersistedState : Bool)
    (exchange : Holdings) (seen : List InstrumentId) (s : StartupLoop W) : Prop where
  lines : s.report.lines.map (fun line => (line.instrument, line.localPos, line.exchange)) =
    seen.map fun inst => (inst, loc.get inst, exchange.get inst)
  hardStop : s.hardStop = true ↔ ∃ inst ∈ seen, ¬ r.Adopts loc hasPersistedState exchange inst
  adopted (inst : InstrumentId) : s.report.adopted.lookup inst =
    if inst ∈ seen ∧ r.Adopts loc hasPersistedState exchange inst then some (exchange.get inst)
    else none

theorem Tallied.settle {seen : List InstrumentId}
    (h : Tallied r loc hasPersistedState exchange seen s) (inst : InstrumentId) :
    Tallied r loc hasPersistedState exchange (seen ++ [inst])
      (r.settle loc hasPersistedState exchange s inst) := by
  by_cases hadopts : r.Adopts loc hasPersistedState exchange inst
  · obtain ⟨w, action, why, hsettle⟩ :=
      settle_of_adopts (s := s) hadopts
    rw [hsettle]
    constructor
    · simp [StartupLoop.adopt, h.lines]
    · have hnone : ¬ ∃ inst' ∈ [inst], ¬ r.Adopts loc hasPersistedState exchange inst' := by
        simp [hadopts]
      simp only [StartupLoop.adopt, h.hardStop, List.mem_append, or_and_right, exists_or, hnone,
        or_false]
    · intro k
      by_cases hk : k = inst
      · subst hk
        simp [StartupLoop.adopt, hadopts]
      · simp [StartupLoop.adopt, Finmap.lookup_insert_of_ne _ hk, h.adopted, hk]
  · obtain ⟨w, why, hsettle⟩ := settle_of_not_adopts (s := s) hadopts
    rw [hsettle]
    constructor
    · simp [h.lines]
    · simp only [true_iff]
      exact ⟨inst, by simp, hadopts⟩
    · intro k
      by_cases hk : k = inst
      · subst hk
        simp [h.adopted, hadopts]
      · simp [h.adopted, hk]

/-- The loop, whatever it has seen before. -/
theorem Tallied.settleAll {seen : List InstrumentId}
    (h : Tallied r loc hasPersistedState exchange seen s) (insts : List InstrumentId) :
    Tallied r loc hasPersistedState exchange (seen ++ insts)
      (r.settleAll loc hasPersistedState exchange insts s) := by
  induction insts generalizing seen s with
  | nil => rwa [List.append_nil]
  | cons inst insts ih =>
    rw [← List.singleton_append, ← List.append_assoc]
    exact ih (h.settle inst)

theorem tallied_nil (w : W) : Tallied r loc hasPersistedState exchange [] { world := w } where
  lines := rfl
  hardStop := by simp
  adopted inst := by simp

/-! ### The decision -/

theorem reconcile_unreachable (w : W) :
    (r.reconcile loc hasPersistedState exchange false w).1 =
      { canStart := false
        lines := [⟨0, 0, 0, .HardStop, "exchange unreachable"⟩] } := rfl

/-- With the exchange reachable, the report is what the loop tallied, or adopts nothing. -/
theorem reconcile_reachable (r : StartupReconciler W) (loc : Holdings) (hasPersistedState : Bool)
    (exchange : Holdings) (w : W) : ∃ s : StartupLoop W,
    Tallied r loc hasPersistedState exchange (loc.keys ∪ exchange.keys).ascending s ∧
      (r.reconcile loc hasPersistedState exchange true w).1 =
        { s.report with
          canStart := !s.hardStop
          adopted := if s.hardStop then ∅ else s.report.adopted } := by
  refine ⟨_, (tallied_nil w).settleAll (loc.keys ∪ exchange.keys).ascending, ?_⟩
  unfold reconcile
  rw [if_neg (by decide)]
  dsimp only
  split_ifs <;> rfl

/-- **The startup table.** Whatever the two sides hold: the system can start iff the exchange is
reachable and every instrument of either side can be adopted. Then exactly these are adopted, each
at its position on the exchange; otherwise nothing is. The report has one line for each. -/
theorem startup_reconcile_table (r : StartupReconciler W) (loc exchange : Holdings)
    (hasPersistedState exchangeReachable : Bool) (w : W) :
    ((r.reconcile loc hasPersistedState exchange exchangeReachable w).1.canStart = true ↔
      exchangeReachable = true ∧ (hasPersistedState = false ∨
        ∀ inst, inst ∈ loc ∨ inst ∈ exchange → loc.get inst = exchange.get inst ∨
          |loc.get inst - exchange.get inst| ≤ r.cfg.startupAutoHealThreshold)) ∧
    ((r.reconcile loc hasPersistedState exchange exchangeReachable w).1.canStart = true →
      ∀ inst, (r.reconcile loc hasPersistedState exchange exchangeReachable w).1.adopted.lookup
        inst = if inst ∈ loc ∨ inst ∈ exchange then some (exchange.get inst) else none) ∧
    ((r.reconcile loc hasPersistedState exchange exchangeReachable w).1.canStart = false →
      (r.reconcile loc hasPersistedState exchange exchangeReachable w).1.adopted = ∅) ∧
    (exchangeReachable = true →
      ((r.reconcile loc hasPersistedState exchange exchangeReachable w).1.lines.map
        (·.instrument)).Pairwise (· < ·) ∧
      (∀ inst, inst ∈ (r.reconcile loc hasPersistedState exchange exchangeReachable w).1.lines.map
        (·.instrument) ↔ inst ∈ loc ∨ inst ∈ exchange) ∧
      ∀ line ∈ (r.reconcile loc hasPersistedState exchange exchangeReachable w).1.lines,
        line.localPos = loc.get line.instrument ∧
          line.exchange = exchange.get line.instrument) := by
  cases exchangeReachable with
  | false =>
    rw [reconcile_unreachable]
    simp
  | true =>
    obtain ⟨s, htallied, hreport⟩ :=
      reconcile_reachable r loc hasPersistedState exchange w
    have hmem (inst : InstrumentId) : inst ∈ (loc.keys ∪ exchange.keys).ascending ↔
        inst ∈ loc ∨ inst ∈ exchange := by
      simp [Finmap.mem_keys]
    have hinsts : s.report.lines.map (·.instrument) = (loc.keys ∪ exchange.keys).ascending := by
      simpa [Function.comp_def] using congrArg (List.map Prod.fst) htallied.lines
    have hall : s.hardStop = false ↔ ∀ inst, inst ∈ loc ∨ inst ∈ exchange →
        r.Adopts loc hasPersistedState exchange inst := by
      rw [← Bool.not_eq_true, htallied.hardStop]
      simp only [not_exists, not_and, not_not, hmem]
    rw [hreport]
    refine ⟨?_, fun hstart inst => ?_, fun hstop => ?_, fun _ => ⟨?_, fun inst => ?_, ?_⟩⟩
    · rw [Bool.not_eq_true', hall]
      unfold Adopts
      cases hasPersistedState <;> simp
    · have hgo : s.hardStop = false := by simpa using hstart
      have hadopts := hall.1 hgo inst
      rw [hgo, if_neg Bool.false_ne_true, htallied.adopted]
      exact if_congr ((and_congr_left' (hmem inst)).trans (and_iff_left_of_imp hadopts)) rfl rfl
    · have hhalt : s.hardStop = true := by simpa using hstop
      rw [hhalt, if_pos rfl]
    · rw [hinsts]
      exact Finset.pairwise_lt_ascending _
    · rw [hinsts, hmem]
    · intro line hline
      have hrow : (line.instrument, line.localPos, line.exchange) ∈
          (loc.keys ∪ exchange.keys).ascending.map
            fun inst => (inst, loc.get inst, exchange.get inst) := by
        rw [← htallied.lines]
        exact List.mem_map_of_mem hline
      obtain ⟨inst, -, hinst⟩ := List.mem_map.1 hrow
      simp only [Prod.mk.injEq] at hinst
      obtain ⟨rfl, hloc, hexchange⟩ := hinst
      exact ⟨hloc.symm, hexchange.symm⟩

end StartupReconciler
end Oms
