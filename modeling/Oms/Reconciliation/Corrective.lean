import Mathlib.Tactic.Linarith
import Oms.Reconciliation.Cycle
import Oms.SimulatedExchange

/-!
# What corrective orders do to the drift

* `tradedBy`, `run_net`: a net position moves by the fills of a run;
* `corrective_order_keeps_drift`: the fill of a corrective order moves both sides of the comparison;
* `corrective_order_repeats`: so the drift is there again in the next cycle.
-/

namespace Oms

open OrderManager

/-! ### Runs -/

section Runs

variable {W : Type} {E : Env W}

/-- What an operation trades on an instrument. -/
def ReconState.traded (inst : InstrumentId) (x : ReconState W) : ReconOp W → Quantity
  | .oms op => x.sys.om.traded inst op
  | _ => 0

/-- What a run trades on an instrument. -/
def tradedBy (E : Env W) (inst : InstrumentId) : ReconState W → List (ReconOp W) → Quantity
  | _, [] => 0
  | x, op :: ops => x.traded inst op + tradedBy E inst ((reconMachine E).step x op) ops

theorem reconMachine_wf {x : ReconState W} (hwf : x.sys.om.WF) (op : ReconOp W) :
    ((reconMachine E).step x op).sys.om.WF := by
  cases op with
  | oms op => exact step_wf hwf op
  | world w => exact hwf
  | reconcile now => exact PeriodicReconciler.reconcile_wf hwf
  | rearm => exact hwf

theorem reconMachine_run_wf {x : ReconState W} (hwf : x.sys.om.WF) (ops : List (ReconOp W)) :
    ((reconMachine E).run x ops).sys.om.WF :=
  Machine.run_invariant (I := fun x : ReconState W => x.sys.om.WF) (G := fun _ _ => True)
    (fun _ op h _ => reconMachine_wf h op) hwf ((reconMachine E).admits_true x ops)

theorem reconStep_net {x : ReconState W} (hwf : x.sys.om.WF) (inst : InstrumentId)
    (op : ReconOp W) : (((reconMachine E).step x op).sys.om.position inst).net =
      (x.sys.om.position inst).net + x.traded inst op := by
  cases op with
  | oms op => exact step_net hwf op inst
  | reconcile now =>
    show ((x.recon.reconcile E now x.sys).2.2.om.position inst).net = _
    rw [PeriodicReconciler.reconcile_position hwf inst]
    exact (add_zero _).symm
  | world w => exact (add_zero _).symm
  | rearm => exact (add_zero _).symm

/-- A net position moves by what a run trades. -/
theorem run_net {x : ReconState W} (hwf : x.sys.om.WF) (inst : InstrumentId)
    (ops : List (ReconOp W)) :
    (((reconMachine E).run x ops).sys.om.position inst).net =
      (x.sys.om.position inst).net + tradedBy E inst x ops := by
  induction ops generalizing x with
  | nil => exact (add_zero _).symm
  | cons op ops ih =>
    rw [Machine.run_cons, ih (reconMachine_wf hwf op), reconStep_net hwf inst op, add_assoc]
    rfl

/-- **A corrective order never closes its drift.** Take any run up to a cycle that emits a
corrective order, and any run after it in which the order fills fully and nothing else trades its
instrument, at venues whose reports move by exactly the fills. Then the fills moved both sides of
the comparison alike, and the next cycle sees the same drift. -/
theorem corrective_order_keeps_drift (E : Env W) (capacity : PoolCapacity) (w : W)
    (r : PeriodicReconciler W) (before after : List (ReconOp W)) (now now' : Timestamp) :
    let M := reconMachine E
    let x := M.run ⟨⟨.init capacity, w⟩, r⟩ before
    let x' := M.step x (.reconcile now)
    let y := M.run x' after
    ∀ record ∈ (x.recon.reconcile E now x.sys).1, record.action = .AutoHealed →
      ∀ price, let req := PeriodicReconciler.correctiveRequest record.inst record.drift price
      tradedBy E record.inst x' after = signedQty req.side req.size →
      (snapshot E y.sys.world).1.get record.inst =
        (snapshot E x.sys.world).1.get record.inst + tradedBy E record.inst x' after →
      ∀ record' ∈ (y.recon.reconcile E now' y.sys).1, record'.inst = record.inst →
        record'.drift = record.drift ∧ ¬ |record'.drift| < |record.drift| := by
  intro M x x' y record hrecord _ price req htraded hreported record' hrecord' hinst
  have hwf : x.sys.om.WF := reconMachine_run_wf (wf_init capacity) before
  have hwf' : x'.sys.om.WF := PeriodicReconciler.reconcile_wf hwf
  have hnet : (y.sys.om.position record.inst).net =
      (x.sys.om.position record.inst).net + tradedBy E record.inst x' after := by
    have hcycle : x'.sys.om.position record.inst = x.sys.om.position record.inst :=
      PeriodicReconciler.reconcile_position hwf record.inst
    rw [← hcycle]
    exact run_net hwf' record.inst after
  have hdrift := PeriodicReconciler.reconcile_drift hwf record hrecord
  have hdrift' := PeriodicReconciler.reconcile_drift (reconMachine_run_wf hwf' after) record'
    hrecord'
  have hsame : record'.drift = record.drift := by
    rw [hdrift', hdrift, hinst]
    change (snapshot E y.sys.world).1.get record.inst - (y.sys.om.position record.inst).net = _
    rw [hreported, hnet]
    linarith
  exact ⟨hsame, by rw [hsame]; exact lt_irrefl _⟩

end Runs

/-- A venue that holds a hundred the manager never saw, and a band that covers them. -/
def driftedRecon : ReconState (SimulatedExchange × Unit) where
  sys := ⟨.init twoSlots, .setPosition 42 100 (.init {}), ()⟩
  recon := { cfg := { autoHealBand := 200 } }

/-- The simulated venue. -/
def driftedEnv : Env (SimulatedExchange × Unit) := .withSim (fun _ => acceptingEnv) 0

/-- The second cycle, which acts on the drift. -/
def healingCycle : List DriftRecord × PeriodicReconciler (SimulatedExchange × Unit) ×
    State (SimulatedExchange × Unit) :=
  let x := (reconMachine driftedEnv).step driftedRecon (.reconcile 0)
  x.recon.reconcile driftedEnv 1 x.sys

/-- The venue reports the fill and moves its position. -/
theorem corrective_order_keeps_drift_full_fill :
    let x := (reconMachine driftedEnv).run driftedRecon
      [.reconcile 0, .reconcile 1, .world (.setPosition 42 200 (.init {}), ()),
        .oms (.fill 1 100 1 9 0)]
    ∀ record' ∈ (x.recon.reconcile driftedEnv 2 x.sys).1, record'.inst = 42 →
      record'.drift = 100 ∧ ¬ |record'.drift| < |100| := by
  have hall := corrective_order_keeps_drift driftedEnv twoSlots driftedRecon.sys.world
    driftedRecon.recon [.reconcile 0]
    [.world (.setPosition 42 200 (.init {}), ()), .oms (.fill 1 100 1 9 0)] 1 2
    ⟨42, 100, 0, 100, .AutoHealed, 1⟩ (by decide) rfl 1 (by decide) (by decide)
  exact hall

/-- The corrective order for a drift of a hundred fills, and the drift is a hundred again. -/
theorem corrective_order_repeats :
    let filled := healingCycle.2.2.poll driftedEnv |>.poll driftedEnv |>.poll driftedEnv
    let next := (healingCycle.2.1.reconcile driftedEnv 2 filled).1
    ∃ record ∈ healingCycle.1, record.action = .AutoHealed ∧
      (filled.om.position record.inst).net = record.exchange ∧ filled.world.1.queue = [] ∧
      ∃ record' ∈ next, record'.inst = record.inst ∧ ¬ |record'.drift| < |record.drift| :=
  ⟨⟨42, 100, 0, 100, .AutoHealed, 1⟩, by decide, rfl, by decide, by decide,
    ⟨42, 200, 100, 100, .PendingConfirm, 2⟩, by decide, rfl, by decide⟩

end Oms
