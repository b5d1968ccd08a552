import Oms.ExecutionAlgo.Listening
import Oms.OrderManager.Marks
import Oms.Reconciliation

/-!
# Many algos behind one dispatcher

* `Algo`, `AlgoFactory.create`: an algo behind the common interface;
* `AlgoDispatcher.dispatch`: the loop over the registrations; `Env.withDispatcher`: the dispatcher
  as a listener;
* `Ledger`: who submitted the working orders, and what they filled;
* `Desk`, `deskMachine`: the algos, direct submitters and the reconciler around one manager;
* `Desk.Owned`: an operation opens no order that another algo takes for its own.
-/

namespace Oms

open OrderManager

/-- An algo behind the common interface. -/
inductive Algo (W : Type)
  | twap (a : TwapAlgo W)
  | pov (a : PovAlgo W)

namespace Algo

variable {W : Type}

/-- The bookkeeping that both share. -/
def base : Algo W → AlgoBase W
  | .twap a => a.toAlgoBase
  | .pov a => a.toAlgoBase

def start (p : ParentOrder) : Algo W → Algo W
  | .twap a => .twap (a.start p)
  | .pov a => .pov (a.start p)

def stats (a : Algo W) : AlgoStats := a.base.stats

def onTimer (E : Env W) (now : Timestamp) (s : State W) : Algo W → Algo W × State W
  | .twap a => (.twap (a.onTimer E now s).1, (a.onTimer E now s).2)
  | .pov a => (.pov (a.onTimer E now s).1, (a.onTimer E now s).2)

def onFill (o : Order) (qty : Quantity) (price : Price) : Algo W → Algo W
  | .twap a => .twap (a.onFill o qty price)
  | .pov a => .pov (a.onFill o qty price)

def onReject (o : Order) (reason : RejectReason) : Algo W → Algo W
  | .twap a => .twap (a.onReject o reason)
  | .pov a => .pov (a.onReject o reason)

def onCancel (o : Order) : Algo W → Algo W
  | .twap a => .twap (a.onCancel o)
  | .pov a => .pov (a.onCancel o)

def cancel (E : Env W) (s : State W) : Algo W → State W
  | .twap a => a.toAlgoBase.cancel E s
  | .pov a => a.cancel E s

end Algo

instance : ExecutionAlgo Algo where
  onTimer := fun E now a s => a.onTimer E now s
  onFill := fun o qty price a => a.onFill o qty price
  onReject := fun o reason a => a.onReject o reason
  onCancel := fun o a => a.onCancel o
  cancel := fun E a s => a.cancel E s

/-- The factory names the algos; TWAP is the default. -/
def AlgoFactory.create {W : Type} (type : String) (cfg : AlgoConfig W) : Algo W :=
  if type = "twap" then .twap { config := cfg }
  else if type = "pov" then .pov { config := cfg }
  else .twap { config := cfg }

/-- A registration, with the algo that its pointer refers to. -/
structure AlgoDispatcher.Reg (W : Type) where
  algo : Algo W
  offset : ScratchOffset
  index : ℤ

/-- The order that an event is about is shown to every registration whose scratch field holds its
index. -/
def AlgoDispatcher.dispatch {W : Type} (e : OrderEvent) (om : OrderManager)
    (regs : List (AlgoDispatcher.Reg W)) : List (AlgoDispatcher.Reg W) :=
  match om.find e.internalId with
  | none => regs
  | some o => regs.map fun r => { r with algo := notify r.offset r.index o e r.algo }

/-- The environment in which the dispatcher is subscribed. -/
def Env.withDispatcher {B : Type} (E : Env B) : Env (B × List (AlgoDispatcher.Reg B)) :=
  E.listening AlgoDispatcher.dispatch

/-! ### Who submitted what -/

/-- Who submitted the working orders, and what the orders of each algo have filled. The algos are
numbered as they are registered; `none` is a direct submitter or the reconciler. The program keeps
no such ledger. -/
structure Ledger where
  owner : OrderIdRaw → Option ℕ := fun _ => none
  filled : ℕ → Quantity := fun _ => 0

namespace Ledger

/-- An accepted fill counts for the owner of the order that it reaches. -/
def credit (l : Ledger) (om : OrderManager) : Op → Ledger
  | .fill id qty price trade _ =>
    if om.validate id ⟨.Fill, trade, qty, price⟩ = .Ok then
      match l.owner (om.orderRef id).internalId with
      | none => l
      | some i => { l with filled := Function.update l.filled i (l.filled i + qty) }
    else l
  | _ => l

/-- The orders that work now and did not before belong to `actor`. -/
def assign (l : Ledger) (actor : Option ℕ) (om om' : OrderManager) : Ledger :=
  { l with owner := fun id => if om'.Works id ∧ ¬ om.Works id then actor else l.owner id }

end Ledger

/-! ### A desk -/

/-- Algos behind a dispatcher and a reconciler, around one manager. -/
structure Desk (B : Type) where
  om : OrderManager
  world : B
  regs : List (AlgoDispatcher.Reg B)
  recon : PeriodicReconciler B
  ledger : Ledger := {}

/-- What can happen at a desk. A direct submit and every event is an operation of the manager.
Between two calls the world behind the interfaces may change in any way. -/
inductive DeskOp (B : Type)
  | oms (op : Op)
  | start (i : ℕ) (p : ParentOrder)
  | timer (i : ℕ) (now : Timestamp)
  | cancel (i : ℕ)
  | reconcile (now : Timestamp)
  | rearm
  | world (w : B)

namespace Desk

variable {B : Type}

/-- Algos of the given types, each registered under the pair that it stamps on its children. -/
def init (capacity : PoolCapacity) (w : B) (recon : PeriodicReconciler B)
    (specs : List (String × AlgoConfig B)) : Desk B where
  om := .init capacity
  world := w
  regs := specs.map fun spec =>
    ⟨AlgoFactory.create spec.1 spec.2, spec.2.workerOffset, spec.2.workerIndex⟩
  recon := recon

variable (E : Env B) (d : Desk B)

/-- A call that `actor` makes has led to the state `s` of the manager and the world. -/
def called (actor : Option ℕ) (s : State B) : Desk B :=
  { d with om := s.om, world := s.world, ledger := d.ledger.assign actor d.om s.om }

/-- Neither `submit` nor `cancel` publishes an event, so no algo is called back while an algo or the
reconciler runs. -/
def step : DeskOp B → Desk B
  | .oms op =>
    let s := State.step E.withDispatcher ⟨d.om, d.world, d.regs⟩ op
    { d with
      om := s.om
      world := s.world.1
      regs := s.world.2
      ledger := (d.ledger.credit d.om op).assign none d.om s.om }
  | .start i p => { d with regs := d.regs.modify i fun r => { r with algo := r.algo.start p } }
  | .timer i now =>
    match d.regs[i]? with
    | none => d
    | some r =>
      let (a, s) := ExecutionAlgo.onTimer E now r.algo ⟨d.om, d.world⟩
      { d.called (some i) s with regs := d.regs.set i { r with algo := a } }
  | .cancel i =>
    match d.regs[i]? with
    | none => d
    | some r => d.called (some i) (ExecutionAlgo.cancel E r.algo ⟨d.om, d.world⟩)
  | .reconcile now =>
    let (_, recon, s) := d.recon.reconcile E now ⟨d.om, d.world⟩
    { d.called none s with recon := recon }
  | .rearm => { d with recon := d.recon.rearm }
  | .world w => { d with world := w }

/-- The pair that the orders of an operation are marked with. -/
def tag : DeskOp B → Option (ScratchOffset × ℤ)
  | .oms (.submit req) => some req.tag
  | .timer i _ => (d.regs[i]?).map fun r => (r.offset, r.index)
  | .reconcile _ => some (0, 0)
  | _ => none

end Desk

/-- The algo that makes a call of the manager. -/
def DeskOp.actor {B : Type} : DeskOp B → Option ℕ
  | .timer i _ => some i
  | .cancel i => some i
  | _ => none

/-- When the operation opens an order, the marks of its orders match no registration but the one of
the algo that submits them. -/
def Desk.Owned {B : Type} (E : Env B) (d : Desk B) (op : DeskOp B) : Prop :=
  (∃ id, (d.step E op).om.Works id ∧ ¬ d.om.Works id) →
    ∀ pair ∈ d.tag op, ∀ i r, d.regs[i]? = some r → scratch pair r.offset = r.index →
      op.actor = some i

def deskMachine {B : Type} (E : Env B) : Machine (Desk B) (DeskOp B) where
  step := Desk.step E

end Oms
