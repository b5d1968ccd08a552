import Oms.OrderManager.World
import Oms.Reconciliation.Corrective

/-!
# What a halt of the reconciler stops

A halt is a flag of the reconciler. It stops the cycles, and the manager does not know of it.

* `Env.counting`: a world that counts the orders placed at its venues;
* `Refused`: the guards of `submit`; `submit_count`: an order is placed exactly behind them;
* `halt_stops_orders_iff`: after a halt no order is placed exactly as long as the guards of `submit`
  refuse every request;
* `order_after_halt`: they do not know of the halt.
-/

namespace Oms

open OrderManager

/-! ### Counting orders -/

section Counting

variable {W : Type}

/-- Act on the world, and leave the count alone. -/
def uncounted {α : Type} (f : W → α × W) (w : W × ℕ) : α × (W × ℕ) := ((f w.1).1, (f w.1).2, w.2)

def ExchangeClient.counting (ex : ExchangeClient W) : ExchangeClient (W × ℕ) where
  placeOrder := fun o w => ((ex.placeOrder o w.1).1, (ex.placeOrder o w.1).2, w.2 + 1)
  cancelOrder := fun id exchId => uncounted (ex.cancelOrder id exchId)
  getPositions := uncounted ex.getPositions
  getOrderBook := fun inst => uncounted (ex.getOrderBook inst)
  isConnected := fun w => ex.isConnected w.1

/-- The same world, with a count of the orders that were placed at its venues. -/
def Env.counting (E : Env W) : Env (W × ℕ) where
  registry := ⟨E.registry.byVenue.map (Option.map .counting)⟩
  router := ⟨fun inst side qty => uncounted (E.router.select inst side qty)⟩
  health :=
    { onOrderSent := fun venue now w => (E.health.onOrderSent venue now w.1, w.2)
      onAck := fun venue latency w => (E.health.onAck venue latency w.1, w.2)
      onReject := fun venue benign w => (E.health.onReject venue benign w.1, w.2)
      onFill := fun venue w => (E.health.onFill venue w.1, w.2)
      onTimeout := fun venue w => (E.health.onTimeout venue w.1, w.2)
      onDisconnect := fun venue w => (E.health.onDisconnect venue w.1, w.2)
      onReconnect := fun venue w => (E.health.onReconnect venue w.1, w.2) }
  log := fun level line w => (E.log level line w.1, w.2)
  clock := fun w => E.clock w.1
  publish := fun e om w => (E.publish e om w.1, w.2)
  liveOrder := fun w => E.liveOrder w.1
  mem_liveOrder := fun w => E.mem_liveOrder w.1
  nodup_liveOrder := fun w => E.nodup_liveOrder w.1

def PeriodicReconciler.counting (r : PeriodicReconciler W) : PeriodicReconciler (W × ℕ) :=
  { r with log := fun level line w => (r.log level line w.1, w.2) }

/-- An operation at a world with a count, which no change from outside affects. -/
def ReconOp.counting (n : ℕ) : ReconOp W → ReconOp (W × ℕ)
  | .oms op => .oms op
  | .world w => .world (w, n)
  | .reconcile now => .reconcile now
  | .rearm => .rearm

/-- A reconciler and the manager, in a world that counts the orders placed. -/
def countingMachine (E : Env W) : Machine (ReconState (W × ℕ)) (ReconOp W) where
  step := fun x op => (reconMachine E.counting).step x (op.counting x.sys.world.2)

/-- A fresh manager. No order was placed. -/
def ReconState.start (capacity : PoolCapacity) (w : W) (r : PeriodicReconciler W) :
    ReconState (W × ℕ) :=
  ⟨⟨.init capacity, w, 0⟩, r.counting⟩

variable {E : Env W}

/-- The worlds have the same count. -/
abbrev SameCount (w w' : W × ℕ) : Prop := w'.2 = w.2

/-- Every client of the counting world counts. -/
theorem counting_get {venue : VenueId} {ex : ExchangeClient (W × ℕ)}
    (h : E.counting.registry.get venue = some ex) : ∃ ex', ex = ExchangeClient.counting ex' := by
  change ((E.registry.byVenue.map (Option.map ExchangeClient.counting))[venue.toNat]?).join =
    some ex at h
  rw [List.getElem?_map] at h
  cases hget : E.registry.byVenue[venue.toNat]? with
  | none => simp [hget] at h
  | some client =>
    cases client with
    | none => simp [hget] at h
    | some ex' =>
      rw [hget] at h
      exact ⟨ex', (Option.some.inj h).symm⟩

/-- Only placing an order counts. -/
theorem counting_canceller (E : Env W) : E.counting.Canceller SameCount where
  refl := fun _ => rfl
  trans := fun h h' => h'.trans h
  log := fun _ _ _ => rfl
  publish := fun _ _ _ => rfl
  select := fun _ _ _ _ => rfl
  onAck := fun _ _ _ => rfl
  onReject := fun _ _ _ => rfl
  onFill := fun _ _ => rfl
  onTimeout := fun _ _ => rfl
  onDisconnect := fun _ _ => rfl
  onReconnect := fun _ _ => rfl
  cancelOrder := by
    intro venue ex hex id exchId w
    obtain ⟨ex', rfl⟩ := counting_get hex
    rfl

end Counting

/-! ### The guards of `submit` -/

section Submit

variable {W : Type} {E : Env W}

/-- A guard of `submit` refuses the request: the kill switch is active, the router knows no
tradeable venue, there is no client for the venue it chose, or the pool is full. -/
def Refused (E : Env W) (s : State W) (req : OrderRequest) : Prop :=
  s.om.killed = true ∨
    ∀ venue, (E.router.select req.instrument req.side req.size s.world).1 = some venue →
      E.registry.get venue = none ∨ s.om.pool.capacity ≤ s.om.pool.inUse

variable {s : State (W × ℕ)}

/-- Behind the guards, an order is placed. -/
theorem place_count (hwf : s.om.WF) (hfree : s.om.pool.inUse < s.om.pool.capacity)
    (req : OrderRequest) (venue : VenueId) (ex : ExchangeClient W) :
    (s.place E.counting req venue ex.counting).2.world.2 = s.world.2 + 1 := by
  obtain ⟨id, om', hres⟩ := hwf.exists_reserve hfree req venue (E.counting.clock s.world)
  unfold State.place
  dsimp only
  rw [hres]
  dsimp only
  split_ifs <;> rfl

/-- A submit places an order exactly if no guard refuses it. -/
theorem submit_count (hwf : s.om.WF) (req : OrderRequest) :
    Refused E.counting s req ∧ (s.submit E.counting req).2.world.2 = s.world.2 ∨
      ¬ Refused E.counting s req ∧ (s.submit E.counting req).2.world.2 = s.world.2 + 1 := by
  have hcanceller := counting_canceller E
  have hworld := hcanceller.select req.instrument req.side req.size s.world
  unfold Refused
  fun_cases State.submit E.counting req s with
  | case1 hkilled => exact Or.inl ⟨Or.inl hkilled, rfl⟩
  | case2 hon w hselect s' =>
    rw [or_iff_right hon, hselect]
    rw [hselect] at hworld
    refine Or.inl ⟨fun _ h => absurd h (Option.some_ne_none _).symm, ?_⟩
    exact (cancelWorkingOrders_world hcanceller s').trans hworld
  | case3 hon venue w hselect s' hget =>
    rw [or_iff_right hon, hselect]
    rw [hselect] at hworld
    exact Or.inl ⟨fun v h => Or.inl (Option.some.inj h ▸ hget), hworld⟩
  | case4 hon venue w hselect s' ex hget hfull =>
    rw [or_iff_right hon, hselect]
    rw [hselect] at hworld
    refine Or.inl ⟨fun _ _ => Or.inr hfull, ?_⟩
    exact (tripKillSwitch_world hcanceller.toBystander _ s').trans hworld
  | case5 hon venue w hselect s' ex hget hfree =>
    rw [or_iff_right hon, hselect]
    rw [hselect] at hworld
    obtain ⟨ex', rfl⟩ := counting_get hget
    refine Or.inr ⟨fun hrefused => ?_, ?_⟩
    · rcases hrefused venue rfl with hnone | hle
      · rw [hget] at hnone
        cases hnone
      · exact hfree hle
    · exact (place_count (s := s') hwf (not_le.1 hfree) req venue ex').trans
        (congrArg (· + 1) hworld)

end Submit

/-! ### After a halt -/

section Halt

variable {W : Type} {E : Env W}

/-- Every submit meets a guard that refuses it. -/
def Refusing (E : Env W) (x : ReconState (W × ℕ)) (op : ReconOp W) : Prop :=
  ∀ req, op = .oms (.submit req) → Refused E.counting x.sys req

/-- A full pool refuses every submit. -/
theorem refusing_of_full {x : ReconState (W × ℕ)}
    (hfull : x.sys.om.pool.capacity ≤ x.sys.om.pool.inUse) (op : ReconOp W) : Refusing E x op :=
  fun _ _ => Or.inr fun _ _ => Or.inr hfull

/-- An operation other than a submit places no order. -/
theorem step_count {s : State (W × ℕ)} {op : Op} (hsubmit : ∀ req, op ≠ .submit req) :
    (s.step E.counting op).world.2 = s.world.2 := by
  have hcanceller := counting_canceller E
  cases op with
  | submit req => exact absurd rfl (hsubmit req)
  | cancel id => exact cancel_world hcanceller id s
  | checkAckTimeouts now timeout => exact checkAckTimeouts_world hcanceller now timeout s
  | confirm id exchId ts => exact step_inbound_world hcanceller.toBystander rfl
  | fill id qty price trade ts => exact step_inbound_world hcanceller.toBystander rfl
  | reject id reason ts => exact step_inbound_world hcanceller.toBystander rfl
  | cancelAck id ts => exact step_inbound_world hcanceller.toBystander rfl
  | unsolicitedCancel id ts => exact step_inbound_world hcanceller.toBystander rfl
  | _ => rfl

/-- While the reconciler is halted, a step places an order exactly if it is a submit that no guard
refuses. Only a re-arm ends the halt. -/
theorem countingStep_cases {x : ReconState (W × ℕ)} (hwf : x.sys.om.WF)
    (hhalted : x.recon.halted = true) {op : ReconOp W} (hop : op ≠ .rearm) :
    let x' := (countingMachine E).step x op
    x'.recon.halted = true ∧
      (Refusing E x op ∧ x'.sys.world.2 = x.sys.world.2 ∨
        ¬ Refusing E x op ∧ x'.sys.world.2 = x.sys.world.2 + 1) := by
  cases op with
  | rearm => exact absurd rfl hop
  | world w => exact ⟨hhalted, Or.inl ⟨nofun, rfl⟩⟩
  | reconcile now =>
    intro x'
    have hstay : x' = x := PeriodicReconciler.reconcile_halted hhalted now
    rw [hstay]
    exact ⟨hhalted, Or.inl ⟨nofun, rfl⟩⟩
  | oms op =>
    refine ⟨hhalted, ?_⟩
    by_cases hsubmit : ∃ req, op = .submit req
    · obtain ⟨req, rfl⟩ := hsubmit
      have hrefusing : Refusing E x (.oms (.submit req)) ↔ Refused E.counting x.sys req :=
        ⟨fun h => h req rfl, fun h req' heq => by cases heq; exact h⟩
      rw [hrefusing]
      exact submit_count hwf req
    · refine Or.inl ⟨fun req heq => ?_, step_count fun req heq => hsubmit ⟨req, heq⟩⟩
      exact absurd ⟨req, by cases heq; rfl⟩ hsubmit

/-- The orders placed after a halt are counted up, and stay none exactly as long as every submit is
refused. -/
theorem run_count {x : ReconState (W × ℕ)} (hwf : x.sys.om.WF) (hhalted : x.recon.halted = true)
    {ops : List (ReconOp W)} (hops : .rearm ∉ ops) :
    let y := (countingMachine E).run x ops
    x.sys.world.2 ≤ y.sys.world.2 ∧
      (y.sys.world.2 = x.sys.world.2 ↔ (countingMachine E).Admits (Refusing E) x ops) := by
  induction ops generalizing x with
  | nil => exact ⟨le_refl _, iff_of_true rfl trivial⟩
  | cons op ops ih =>
    obtain ⟨hhead, htail⟩ := List.ne_and_not_mem_of_not_mem_cons hops
    obtain ⟨hhalted', hcount⟩ := countingStep_cases (E := E) hwf hhalted hhead.symm
    have hwf' : ((countingMachine E).step x op).sys.om.WF := reconMachine_wf hwf _
    obtain ⟨hle, hiff⟩ := ih hwf' hhalted' htail
    rw [Machine.run_cons, Machine.admits_cons]
    rcases hcount with ⟨hrefusing, heq⟩ | ⟨hnot, heq⟩
    · rw [heq] at hle hiff
      exact ⟨hle, hiff.trans (and_iff_right hrefusing).symm⟩
    · rw [heq] at hle
      refine ⟨(Nat.le_succ _).trans hle, iff_of_false (fun hsame => ?_) fun h => hnot h.1⟩
      rw [hsame] at hle
      exact absurd hle (Nat.not_succ_le_self _)

theorem countingMachine_run_wf {x : ReconState (W × ℕ)} (hwf : x.sys.om.WF)
    (ops : List (ReconOp W)) : ((countingMachine E).run x ops).sys.om.WF :=
  Machine.run_invariant (M := countingMachine E) (I := fun x => x.sys.om.WF)
    (G := fun _ _ => True) (fun _ _ h _ => reconMachine_wf h _) hwf
    ((countingMachine E).admits_true x ops)

/-- **When no order follows a halt.** Take any run up to a cycle that records a halt, and any run
after it without a re-arm. No order is placed on any venue after the halt exactly if every submit
meets one of its own guards. -/
theorem halt_stops_orders_iff (E : Env W) (capacity : PoolCapacity) (w : W)
    (r : PeriodicReconciler W) (before after : List (ReconOp W)) (now : Timestamp) :
    let M := countingMachine E
    let x := M.run (.start capacity w r) before
    let x' := M.step x (.reconcile now)
    let y := M.run x' after
    (∃ record ∈ (x.recon.reconcile E.counting now x.sys).1, record.action = .Halted) →
      .rearm ∉ after →
      (y.sys.world.2 = x'.sys.world.2 ↔ M.Admits (Refusing E) x' after) := by
  intro M x x' y hrecord hafter
  have hwf : x.sys.om.WF := countingMachine_run_wf (wf_init capacity) before
  have hhalted : x'.recon.halted = true := PeriodicReconciler.reconcile_halts hrecord
  exact (run_count (PeriodicReconciler.reconcile_wf hwf) hhalted hafter).2

end Halt

/-- Ten are bought that the venue does not report. -/
def unreportedFill : List (ReconOp Unit) :=
  [.oms (.submit { instrument := 3, size := 10, price := 5 }), .oms (.fill 1 10 5 9 0),
    .reconcile 0]

/-- The same, and an order on another instrument takes the last slot. -/
def unreportedAndFull : List (ReconOp Unit) :=
  unreportedFill ++ [.oms (.submit { instrument := 4, size := 10, price := 5 })]

/-- The second cycle halts, and a submit after it finds the pool full. -/
theorem halt_stops_orders_full :
    let M := countingMachine acceptingEnv
    let x' := M.step (M.run (.start twoSlots () {}) unreportedAndFull) (.reconcile 1)
    (M.run x' [.oms (.submit { instrument := 3, size := 10, price := 5 })]).sys.world.2 =
      x'.sys.world.2 :=
  (halt_stops_orders_iff acceptingEnv twoSlots () {} unreportedAndFull
    [.oms (.submit { instrument := 3, size := 10, price := 5 })] 1
    ⟨⟨3, 0, 10, -10, .Halted, 1⟩, by decide, rfl⟩ (by simp)).2
    ⟨refusing_of_full (by decide) _, trivial⟩

/-- After the halt, a strategy's order is placed as before. -/
theorem order_after_halt :
    let M := countingMachine acceptingEnv
    let x := M.run (.start twoSlots () {}) unreportedFill
    let x' := M.step x (.reconcile 1)
    let y := M.run x' [.oms (.submit { instrument := 3, size := 10, price := 5 })]
    (∃ record ∈ (x.recon.reconcile acceptingEnv.counting 1 x.sys).1, record.action = .Halted) ∧
      x'.sys.world.2 = 1 ∧ y.sys.world.2 = 2 :=
  ⟨⟨⟨3, 0, 10, -10, .Halted, 1⟩, by decide, rfl⟩, by decide, by decide⟩

end Oms
