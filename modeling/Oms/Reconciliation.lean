import Oms.Foundation.Ascending
import Oms.OrderManager.Steps

/-!
# Periodic reconciliation

`Reconciliation.h`, `Reconciliation.cpp`: the periodic reconciler compares what the venues report
with the filled positions of the order manager, on a timer of its own.

* `PeriodicReconciler`: the fields of the class;
* `snapshot`: the positions of all connected venues, added up;
* `examine`, `examineAll`, `reconcile`: one instrument, the loop over them, and a whole cycle;
* `reconMachine`: a reconciler, the manager and the world as one machine.
-/

namespace Oms

inductive DriftAction
  /-- within the threshold -/
  | InSync
  /-- seen, but not yet in enough cycles -/
  | PendingConfirm
  /-- within the band: a corrective order is emitted -/
  | AutoHealed
  /-- beyond the band: sticky, until it is re-armed by hand -/
  | Halted
  deriving DecidableEq, Repr

structure DriftRecord where
  inst : InstrumentId := 0
  exchange : Quantity := 0
  /-- the filled position of the manager, without what is in flight -/
  oms : Quantity := 0
  drift : Quantity := 0
  action : DriftAction := .InSync
  ts : Timestamp := 0
  deriving DecidableEq, Repr

structure PeriodicReconConfig where
  /-- a drift up to this is ignored -/
  reconcileThreshold : Quantity := 0
  /-- a drift up to this is corrected -/
  autoHealBand : Quantity := 0
  /-- a drift must persist this many cycles before anything is done about it -/
  persistCycles : ℤ := 2

structure PeriodicReconciler (W : Type) where
  cfg : PeriodicReconConfig := {}
  /-- the log sink, which does nothing when none is configured -/
  log : LogLevel → String → W → W := fun _ _ w => w
  halted : Bool := false
  correctiveOrders : ℕ := 0
  halts : ℕ := 0
  persist : Finmap fun _ : InstrumentId => ℤ := ∅

variable {W : Type} (E : Env W)

/-! ### The snapshot -/

/-- Add the positions of a venue to a total, instrument by instrument. -/
def Holdings.addAll (total pos : Holdings) : Holdings :=
  pos.keys.ascending.foldl (fun m inst => m.adjust inst (pos.get inst)) total

/-- Add the positions of a venue, unless it is not connected. -/
def snapshotVenue (s : Holdings × W) (v : VenueId) : Holdings × W :=
  match E.registry.get v with
  | none => s
  | some ex =>
    if ex.isConnected s.2 then
      let (pos, w) := ex.getPositions s.2
      (s.1.addAll pos, w)
    else s

/-- What the connected venues report. -/
def snapshot (w : W) : Holdings × W := E.registry.venues.foldl (snapshotVenue E) (∅, w)

/-! ### A cycle -/

namespace PeriodicReconciler

variable (r : PeriodicReconciler W)

def note (level : LogLevel) (line : String) (s : State W) : State W :=
  { s with world := r.log level line s.world }

/-- The corrective order for a drift, off metrics and netting. -/
def correctiveRequest (inst : InstrumentId) (drift : Quantity) (price : Price) : OrderRequest where
  instrument := inst
  side := if 0 < drift then .Buy else .Sell
  size := magnitude drift
  price := price
  type := .IOC
  reconciliation := true

/-- The mid of the book of the first venue, if it has one. -/
def correctivePrice (inst : InstrumentId) (w : W) : Price × W :=
  match E.registry.get 0 with
  | none => (1, w)
  | some ex =>
    let (book, w) := ex.getOrderBook inst w
    (if book.mid ≤ 0 then 1 else book.mid, w)

/-- Emit the corrective order for a drift within the band. -/
def autoHeal (inst : InstrumentId) (ex oms : Quantity) (s : State W) :
    PeriodicReconciler W × State W :=
  let (price, w) := correctivePrice E inst s.world
  let req := correctiveRequest inst (ex - oms) price
  let (_, s) := State.submit E req { s with world := w }
  ({ r with correctiveOrders := r.correctiveOrders + 1 },
    r.note .Warn ("reconcile AUTO-HEAL inst=" ++ toString inst ++ " exch=" ++ toString ex ++
      " oms=" ++ toString oms ++ " corrective=" ++ toString (signedQty req.side req.size)) s)

/-- The comparison of one instrument, before anything is done about it. -/
def compare (now : Timestamp) (exPos : Holdings) (inst : InstrumentId) (om : OrderManager)
    (action : DriftAction) : DriftRecord where
  inst := inst
  exchange := exPos.get inst
  oms := (om.position inst).net
  drift := exPos.get inst - (om.position inst).net
  action := action
  ts := now

/-- The body of the loop over the instruments. -/
def examine (now : Timestamp) (exPos : Holdings) (inst : InstrumentId) (s : State W) :
    DriftRecord × PeriodicReconciler W × State W :=
  let oms := (s.om.position inst).net
  let ex := exPos.get inst
  let drift := ex - oms
  let adrift := magnitude drift
  if adrift ≤ r.cfg.reconcileThreshold then
    (compare now exPos inst s.om .InSync, { r with persist := r.persist.insert inst 0 },
      if adrift = 0 then r.note .Info ("[[RESOLVED]] reconcile inst=" ++ toString inst) s else s)
  else
    let c := r.persist.get inst + 1
    if c < r.cfg.persistCycles then
      (compare now exPos inst s.om .PendingConfirm, { r with persist := r.persist.insert inst c },
        r.note .Warn ("reconcile drift pending confirm inst=" ++ toString inst ++ " exch=" ++
          toString ex ++ " oms=" ++ toString oms ++ " drift=" ++ toString drift ++ " cycle=" ++
          toString c) s)
    else
      let r := { r with persist := r.persist.insert inst 0 }
      if adrift ≤ r.cfg.autoHealBand then
        (compare now exPos inst s.om .AutoHealed, r.autoHeal E inst ex oms s)
      else
        (compare now exPos inst s.om .Halted, { r with halted := true, halts := r.halts + 1 },
          r.note .Error ("reconcile HALT inst=" ++ toString inst ++ " exch=" ++ toString ex ++
            " oms=" ++ toString oms ++ " drift=" ++ toString drift ++
            " (manual re-arm required)") s)

/-- The loop over the instruments, which a halt ends. -/
def examineAll (now : Timestamp) (exPos : Holdings) :
    List InstrumentId → PeriodicReconciler W → State W →
      List DriftRecord × PeriodicReconciler W × State W
  | [], r, s => ([], r, s)
  | inst :: insts, r, s =>
    let (record, r, s) := r.examine E now exPos inst s
    if record.action = .Halted then ([record], r, s)
    else
      let (records, r, s) := examineAll now exPos insts r s
      (record :: records, r, s)

/-- One cycle. -/
def reconcile (now : Timestamp) (s : State W) :
    List DriftRecord × PeriodicReconciler W × State W :=
  if r.halted then ([], r, s)
  else
    let (exPos, w) := snapshot E s.world
    examineAll E now exPos (exPos.keys ∪ s.om.instruments).ascending r { s with world := w }

/-- The manual re-arm. -/
def rearm : PeriodicReconciler W := { r with halted := false }

end PeriodicReconciler

/-! ### Runs -/

/-- What can happen to a reconciler and the manager it watches. Between two calls the world behind
the interfaces may change in any way. -/
inductive ReconOp (W : Type)
  | oms (op : Op)
  | world (w : W)
  | reconcile (now : Timestamp)
  | rearm

/-- The manager with its world, and the reconciler. -/
structure ReconState (W : Type) where
  sys : State W
  recon : PeriodicReconciler W

def reconMachine : Machine (ReconState W) (ReconOp W) where
  step := fun x op =>
    match op with
    | .oms op => { x with sys := x.sys.step E op }
    | .world w => { x with sys := { x.sys with world := w } }
    | .reconcile now =>
      let (_, r, s) := x.recon.reconcile E now x.sys
      ⟨s, r⟩
    | .rearm => { x with recon := x.recon.rearm }

end Oms
