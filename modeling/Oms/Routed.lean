import Oms.Health.Reentry
import Oms.OrderManager.World
import Oms.Router

/-!
# The manager behind its own circuit breaker

The manager asks the router for a venue, the router asks the health model, and the health model
learns from what the manager reports. Here the three are one system.

* `Routed`, `Env.routed`: the world with a health model in it, and a router that reads it; a journal
  of what health is told, and a list of the orders that went out;
* `RoutedOp`, `routedMachine`: the operations of the manager, whatever else health is told, and
  time that passes in the world;
* `Onward`: what any number of operations do to the journal and to the list;
  `step_onward`, `run_onward`;
* `orders_routed`: every order goes to the healthiest venue, and a venue that was Down gets orders
  again only on its way back.
-/

namespace Oms

open OrderManager

/-! ### The system -/

/-- A world with a health model, what the model was told, and where orders went, each with what the
model had been told by then. -/
structure Routed (W : Type) where
  base : W
  health : CircuitBreakerHealthModel
  journal : List HealthOp := []
  sent : List (VenueId × List HealthOp) := []

section System

variable {W : Type} (rnd : ℚ → ℚ) (r : HealthAwareRouter)

/-- Tell the health model something. -/
def Routed.tell (op : HealthOp) (w : Routed W) : Routed W :=
  { w with health := w.health.step rnd op, journal := w.journal ++ [op] }

/-- The client of a venue; the orders that it gets are listed. -/
def ExchangeClient.routed (venue : VenueId) (ex : ExchangeClient W) :
    ExchangeClient (Routed W) where
  placeOrder := fun o w =>
    let (res, base) := ex.placeOrder o w.base
    (res, { w with base := base, sent := w.sent ++ [(venue, w.journal)] })
  cancelOrder := fun id exchId w =>
    let (res, base) := ex.cancelOrder id exchId w.base
    (res, { w with base := base })
  getPositions := fun w =>
    let (held, base) := ex.getPositions w.base
    (held, { w with base := base })
  getOrderBook := fun inst w =>
    let (top, base) := ex.getOrderBook inst w.base
    (top, { w with base := base })
  isConnected := fun w => ex.isConnected w.base

/-- The environment of a manager that routes by the health of the venues. The health model reads
the clock of the manager. -/
def Env.routed (E : Env W) : Env (Routed W) where
  registry := ⟨E.registry.byVenue.mapIdx fun i ex => ex.map (.routed (UInt8.ofNat i))⟩
  router := ⟨fun inst side qty w => (r.select w.health inst side qty, w)⟩
  health :=
    { onOrderSent := fun v ts w => w.tell rnd (.orderSent v ts (E.clock w.base))
      onAck := fun v lat w => w.tell rnd (.ack v lat (E.clock w.base))
      onReject := fun v benign w => w.tell rnd (.reject v benign (E.clock w.base))
      onFill := fun v w => w.tell rnd (.fill v (E.clock w.base))
      onTimeout := fun v w => w.tell rnd (.timeout v (E.clock w.base))
      onDisconnect := fun v w => w.tell rnd (.disconnect v (E.clock w.base))
      onReconnect := fun v w => w.tell rnd (.reconnect v (E.clock w.base)) }
  log := fun level line w => { w with base := E.log level line w.base }
  clock := fun w => E.clock w.base
  publish := fun e om w => { w with base := E.publish e om w.base }
  liveOrder := fun w => E.liveOrder w.base
  mem_liveOrder := fun w => E.mem_liveOrder w.base
  nodup_liveOrder := fun w => E.nodup_liveOrder w.base

/-- What happens to the system: the manager does something, someone else tells health something (a
venue is registered, the timer ticks), or the world moves on. -/
inductive RoutedOp (W : Type)
  | oms (op : Op)
  | health (op : HealthOp)
  | world (w : W)

def routedStep (E : Env W) (s : State (Routed W)) : RoutedOp W → State (Routed W)
  | .oms op => s.step (E.routed rnd r) op
  | .health op => { s with world := s.world.tell rnd op }
  | .world w => { s with world := { s.world with base := w } }

/-- The system as a machine. -/
def routedMachine (E : Env W) : Machine (State (Routed W)) (RoutedOp W) where
  step := routedStep rnd r E

/-- Nothing is registered yet, and nothing was sent. -/
def routedStart (cfg : HealthConfig) (capacity : PoolCapacity) (w : W) : State (Routed W) :=
  ⟨.init capacity, { base := w, health := .init cfg }⟩

/-- The clients of the system are those of the environment, each under its venue. -/
theorem registry_routed {E : Env W} {venue : VenueId} {ex : ExchangeClient (Routed W)}
    (h : (E.routed rnd r).registry.get venue = some ex) :
    ∃ ex₀ : ExchangeClient W, ex = ex₀.routed venue := by
  unfold ExchangeRegistry.get Env.routed at h
  rw [List.getElem?_mapIdx] at h
  cases hex : E.registry.byVenue[venue.toNat]? with
  | none =>
    rw [hex] at h
    cases h
  | some entry =>
    rw [hex] at h
    have hentry : entry.map (ExchangeClient.routed (UInt8.ofNat venue.toNat)) = some ex := h
    rw [UInt8.ofNat_toNat, Option.map_eq_some_iff] at hentry
    obtain ⟨ex₀, -, rfl⟩ := hentry
    exact ⟨ex₀, rfl⟩

end System

/-! ### What an operation does to the journal -/

/-- The venue that orders go to: the first of greatest weight among those that are not Down. -/
def HealthAwareRouter.Chooses (r : HealthAwareRouter) (h : CircuitBreakerHealthModel)
    (v : VenueId) : Prop :=
  (r.venues.filter h.tradeable).argmax h.weight = some v

/-- Health was told some things that satisfy `P`, and some orders went out, each to the venue of
choice by what health had been told. -/
structure Onward {W : Type} (rnd : ℚ → ℚ) (r : HealthAwareRouter) (P : HealthOp → Prop)
    (told : List HealthOp) (new : List (VenueId × List HealthOp)) (w w' : Routed W) : Prop where
  allowed : ∀ op ∈ told, P op
  journal : w'.journal = w.journal ++ told
  health : w'.health = (healthMachine rnd).run w.health told
  sent : w'.sent = w.sent ++ new
  chosen : ∀ x ∈ new, ∃ pre, pre <+: told ∧ x.2 = w.journal ++ pre ∧
    r.Chooses ((healthMachine rnd).run w.health pre) x.1

/-- The world moved on in some way. -/
def MovesOn {W : Type} (rnd : ℚ → ℚ) (r : HealthAwareRouter) (P : HealthOp → Prop)
    (w w' : Routed W) : Prop := ∃ told new, Onward rnd r P told new w w'

section Onward

variable {W : Type} {rnd : ℚ → ℚ} {r : HealthAwareRouter} {P : HealthOp → Prop}
  {w w' w'' : Routed W}

theorem MovesOn.of_eq (hhealth : w'.health = w.health) (hjournal : w'.journal = w.journal)
    (hsent : w'.sent = w.sent) : MovesOn rnd r P w w' :=
  ⟨[], [], by simp, by simp [hjournal], hhealth, by simp [hsent], by simp⟩

theorem MovesOn.refl (w : Routed W) : MovesOn rnd r P w w := .of_eq rfl rfl rfl

theorem MovesOn.trans (h : MovesOn rnd r P w w') (h' : MovesOn rnd r P w' w'') :
    MovesOn rnd r P w w'' := by
  obtain ⟨told, new, h⟩ := h
  obtain ⟨told', new', h'⟩ := h'
  refine ⟨told ++ told', new ++ new', ?_, ?_, ?_, ?_, ?_⟩
  · intro op hop
    rcases List.mem_append.1 hop with hop | hop
    · exact h.allowed op hop
    · exact h'.allowed op hop
  · rw [h'.journal, h.journal, List.append_assoc]
  · rw [h'.health, h.health, Machine.run_append]
  · rw [h'.sent, h.sent, List.append_assoc]
  · intro x hx
    rcases List.mem_append.1 hx with hx | hx
    · obtain ⟨pre, hpre, hjournal, hchosen⟩ := h.chosen x hx
      exact ⟨pre, hpre.trans (List.prefix_append _ _), hjournal, hchosen⟩
    · obtain ⟨pre, hpre, hjournal, hchosen⟩ := h'.chosen x hx
      refine ⟨told ++ pre, (List.prefix_append_right_inj told).2 hpre, ?_, ?_⟩
      · rw [hjournal, h.journal, List.append_assoc]
      · rwa [Machine.run_append, ← h.health]

theorem tell_movesOn {op : HealthOp} (hop : P op) (w : Routed W) :
    MovesOn rnd r P w (w.tell rnd op) :=
  ⟨[op], [], by simpa using hop, rfl, rfl, by simp [Routed.tell], by simp⟩

end Onward

/-! ### One step -/

section Step

variable {W : Type} {rnd : ℚ → ℚ} {r : HealthAwareRouter} {P : HealthOp → Prop} {E : Env W}
  {s : State (Routed W)}

/-- The environment in which health is not told of reconnects. -/
def Env.deaf (E : Env W) : Env W :=
  { E with health := { E.health with onReconnect := fun _ w => w } }

/-- Only a reconnect is missed. -/
theorem step_deaf {E : Env W} {s : State W} {op : Op} (hop : ∀ v, op ≠ .venueReconnect v) :
    s.step E op = s.step E.deaf op := by
  cases op with
  | venueReconnect v => exact absurd rfl (hop v)
  | _ => rfl

/-- All that the manager tells health, reconnects apart. -/
def Steady (P : HealthOp → Prop) : Prop := ∀ op, (∀ v now, op ≠ HealthOp.reconnect v now) → P op

theorem routed_canceller (hP : Steady P) : (E.routed rnd r).deaf.Canceller (MovesOn rnd r P) where
  refl := .refl
  trans := .trans
  log := fun _ _ _ => .of_eq rfl rfl rfl
  publish := fun _ _ _ => .of_eq rfl rfl rfl
  select := fun _ _ _ w => .refl w
  onAck := fun _ _ _ => tell_movesOn (hP _ fun _ _ => HealthOp.noConfusion) _
  onReject := fun _ _ _ => tell_movesOn (hP _ fun _ _ => HealthOp.noConfusion) _
  onFill := fun _ _ => tell_movesOn (hP _ fun _ _ => HealthOp.noConfusion) _
  onTimeout := fun _ _ => tell_movesOn (hP _ fun _ _ => HealthOp.noConfusion) _
  onDisconnect := fun _ _ => tell_movesOn (hP _ fun _ _ => HealthOp.noConfusion) _
  onReconnect := fun _ w => .refl w
  cancelOrder := fun hget _ _ _ => by
    obtain ⟨ex₀, rfl⟩ := registry_routed rnd r hget
    exact .of_eq rfl rfl rfl

/-- An order that is placed goes out to its venue, on what health has been told so far. -/
theorem place_movesOn (hP : Steady P) (req : OrderRequest) {venue : VenueId}
    (ex : ExchangeClient W) (hchosen : r.Chooses s.world.health venue) :
    MovesOn rnd r P s.world
      (s.place (E.routed rnd r) req venue (ex.routed venue)).2.world := by
  unfold State.place
  dsimp only
  split
  · exact .refl _
  · rename_i id om hres
    have hsent : MovesOn rnd r P s.world
        ((ex.routed venue).placeOrder (om.orderRef id) s.world).2 := by
      refine ⟨[], [(venue, s.world.journal)], by simp, by simp [ExchangeClient.routed], rfl, rfl,
        ?_⟩
      intro x hx
      cases List.mem_singleton.1 hx
      exact ⟨[], List.nil_prefix, (List.append_nil _).symm, hchosen⟩
    have htold : MovesOn rnd r P s.world ((E.routed rnd r).health.onOrderSent venue
        ((E.routed rnd r).clock s.world)
          ((ex.routed venue).placeOrder (om.orderRef id) s.world).2) :=
      hsent.trans (tell_movesOn (hP _ fun _ _ => HealthOp.noConfusion) _)
    split_ifs
    · exact htold
    · refine htold.trans ?_
      exact (tell_movesOn (hP (.reject _ _ _) fun _ _ => HealthOp.noConfusion) _).trans
        (.of_eq rfl rfl rfl)

theorem submit_movesOn (hP : Steady P) (req : OrderRequest) :
    MovesOn rnd r P s.world (s.submit (E.routed rnd r) req).2.world := by
  have hcanceller : (E.routed rnd r).deaf.Canceller (MovesOn rnd r P) := routed_canceller hP
  fun_cases State.submit (E.routed rnd r) req s with
  | case1 hkilled => exact .of_eq rfl rfl rfl
  | case2 hon w hselect s' =>
    obtain ⟨-, rfl⟩ := Prod.mk.inj hselect
    have hmarked : MovesOn rnd r P s.world s'.world := .of_eq rfl rfl rfl
    exact hmarked.trans (cancelWorkingOrders_world hcanceller s')
  | case3 hon venue w hselect s' hget =>
    obtain ⟨-, rfl⟩ := Prod.mk.inj hselect
    exact .of_eq rfl rfl rfl
  | case4 hon venue w hselect s' ex hget hfull =>
    obtain ⟨-, rfl⟩ := Prod.mk.inj hselect
    exact tripKillSwitch_world hcanceller.toBystander _ s'
  | case5 hon venue w hselect s' ex hget hfree =>
    obtain ⟨hvenue, rfl⟩ := Prod.mk.inj hselect
    obtain ⟨ex₀, rfl⟩ := registry_routed rnd r hget
    exact place_movesOn hP req ex₀ (select_eq_argmax.symm.trans hvenue)

/-- An inbound event, none of which is a reconnect. -/
theorem inbound_movesOn (hP : Steady P) {op : Op} {id : OrderIdRaw}
    (hinbound : op.inboundId = some id) :
    MovesOn rnd r P s.world (s.step (E.routed rnd r) op).world := by
  have hcanceller : (E.routed rnd r).deaf.Canceller (MovesOn rnd r P) := routed_canceller hP
  have hother : ∀ v, op ≠ .venueReconnect v := by
    rintro v rfl
    cases hinbound
  rw [step_deaf hother]
  exact step_inbound_world hcanceller.toBystander hinbound

/-- Every operation of the manager moves the world on, if health may be told of the reconnects
in it. -/
theorem step_movesOn (hP : Steady P) (op : Op)
    (hop : ∀ v, op = .venueReconnect v → ∀ now, P (.reconnect v now)) :
    MovesOn rnd r P s.world (s.step (E.routed rnd r) op).world := by
  have hcanceller : (E.routed rnd r).deaf.Canceller (MovesOn rnd r P) := routed_canceller hP
  cases op with
  | submit req => exact submit_movesOn hP req
  | cancel id => exact cancel_world hcanceller id s
  | checkAckTimeouts now timeout => exact checkAckTimeouts_world hcanceller now timeout s
  | venueDisconnect v =>
    exact (tell_movesOn (hP _ fun _ _ => HealthOp.noConfusion) _).trans (.of_eq rfl rfl rfl)
  | venueReconnect v => exact (tell_movesOn (hop v rfl _) _).trans (.of_eq rfl rfl rfl)
  | confirm | fill | reject | cancelAck | unsolicitedCancel => exact inbound_movesOn hP rfl
  | _ => exact .refl _

/-- What health may hear in an operation of the system. -/
def RoutedOp.Tells (P : HealthOp → Prop) : RoutedOp W → Prop
  | .oms op => ∀ v, op = .venueReconnect v → ∀ now, P (.reconnect v now)
  | .health op => P op
  | .world _ => True

theorem run_movesOn (hP : Steady P) {ops : List (RoutedOp W)} (hops : ∀ op ∈ ops, op.Tells P) :
    MovesOn rnd r P s.world ((routedMachine rnd r E).run s ops).world := by
  induction ops generalizing s with
  | nil => exact .refl _
  | cons op ops ih =>
    have hop := hops op List.mem_cons_self
    refine .trans ?_ (ih fun op' hop' => hops op' (List.mem_cons_of_mem _ hop'))
    cases op with
    | oms op => exact step_movesOn hP op hop
    | health op => exact tell_movesOn hop _
    | world w => exact .of_eq rfl rfl rfl

end Step

/-! ### Where orders go -/

section Orders

variable {W : Type}

/-- The evaluations of a venue, in a health model that started from nothing. -/
def evaluationsOf (rnd : ℚ → ℚ) (cfg : HealthConfig) (journal : List HealthOp) (v : VenueId) :
    List Evaluation :=
  (CircuitBreakerHealthModel.init cfg).evaluations rnd v journal

/-- A venue that is registered and not Down has never been Down, has gone the whole way back, or is
on it. -/
theorem comeback_of_tradeable {rnd : ℚ → ℚ} {cfg : HealthConfig} {journal : List HealthOp}
    {v : VenueId}
    (htradeable : ((healthMachine rnd).run (.init cfg) journal).tradeable v = true) :
    (∀ o ∈ evaluationsOf rnd cfg journal v, o.after ≠ .Down) ∨
      Recovered cfg (evaluationsOf rnd cfg journal v) ∨
      ∃ n, Probes cfg n (evaluationsOf rnd cfg journal v) := by
  have hstart : Traced (CircuitBreakerHealthModel.init cfg).cfg []
      ((CircuitBreakerHealthModel.init cfg).venues v) := rfl
  have hacc := traced_run rnd hstart journal
  rw [List.nil_append] at hacc
  cases hst : ((healthMachine rnd).run (.init cfg) journal).venues v with
  | none =>
    rw [not_tradeable hst] at htradeable
    cases htradeable
  | some st =>
    rw [hst] at hacc
    rw [tradeable_eq hst, decide_eq_true_iff] at htradeable
    cases hstate : st.state with
    | Healthy => exact ((accounts_up (Or.inl hstate)).1 hacc).imp_right Or.inl
    | Degraded => exact ((accounts_up (Or.inr hstate)).1 hacc).imp_right Or.inl
    | Down => exact absurd hstate htradeable
    | Probing => exact Or.inr (Or.inr ⟨_, (accounts_probing hstate).1 hacc⟩)

section Runs

variable (rnd : ℚ → ℚ) (r : HealthAwareRouter) (E : Env W) (cfg : HealthConfig)
  (capacity : PoolCapacity) (w : W) (ops : List (RoutedOp W))

theorem run_onward :
    let w' := ((routedMachine rnd r E).run (routedStart cfg capacity w) ops).world
    Onward rnd r (fun _ => True) w'.journal w'.sent (routedStart cfg capacity w).world w' := by
  intro w'
  have hops : ∀ op ∈ ops, op.Tells fun _ => True := by
    intro op _
    cases op <;> simp [RoutedOp.Tells]
  have hmoves : MovesOn rnd r (fun _ => True) (routedStart cfg capacity w).world w' :=
    run_movesOn (fun _ _ => trivial) hops
  obtain ⟨told, new, hrun⟩ := hmoves
  have hjournal : w'.journal = told := hrun.journal
  have hsent : w'.sent = new := hrun.sent
  rwa [hjournal, hsent]

/-- The health model is the one that its journal leads to. -/
theorem health_run :
    let w' := ((routedMachine rnd r E).run (routedStart cfg capacity w) ops).world
    w'.health = (healthMachine rnd).run (.init cfg) w'.journal :=
  (run_onward rnd r E cfg capacity w ops).health

/-- **Orders go to the healthiest venue, and come back step by step.** In every run of the manager
with its router and its health model, over every environment, whatever else health is told and
however time passes, every order that went out went to the first venue of greatest weight among
those that were not Down, by what health had been told. If that venue had been Down before, it had
gone the whole way back, or was probing after the whole dwell. -/
theorem orders_routed {v : VenueId} {journal : List HealthOp}
    (hsent : (v, journal) ∈
      ((routedMachine rnd r E).run (routedStart cfg capacity w) ops).world.sent) :
    journal <+: ((routedMachine rnd r E).run (routedStart cfg capacity w) ops).world.journal ∧
      r.Chooses ((healthMachine rnd).run (.init cfg) journal) v ∧
      ((∀ o ∈ evaluationsOf rnd cfg journal v, o.after ≠ .Down) ∨
        Recovered cfg (evaluationsOf rnd cfg journal v) ∨
        ∃ n, Probes cfg n (evaluationsOf rnd cfg journal v)) := by
  obtain ⟨pre, hpre, heq, hchosen⟩ :=
    (run_onward rnd r E cfg capacity w ops).chosen (v, journal) hsent
  have hsame : journal = pre := heq
  subst hsame
  refine ⟨hpre, hchosen, comeback_of_tradeable ?_⟩
  exact (List.mem_filter.1 (List.argmax_mem hchosen)).2

end Runs

end Orders

/-- What a venue goes through that is disconnected, comes back, and is good for the whole dwell. -/
def reentry : List HealthOp :=
  [.registerVenue 0 1, .disconnect 0 1, .tick 1000000001, .reconnect 0 1000000001,
    .tick 4000000001]

/-- After that the first order goes to the venue, which is probing. -/
theorem orders_routed_probing :
    ∃ n, Probes (.default id) n (evaluationsOf id (.default id) reentry 0) := by
  have hcomeback := (orders_routed id ⟨[0]⟩ acceptingEnv (.default id) twoSlots ()
    (reentry.map .health ++ [.oms (.submit { instrument := 7, size := 10, price := 5 })])
    (show (0, reentry) ∈ _ by decide +kernel)).2.2
  have hstate : (evaluationsOf id (.default id) reentry 0).map (·.after) =
      [.Degraded, .Down, .Down, .Probing] := by decide +kernel
  rcases hcomeback with hup | ⟨probe, exit, past, n, heq, -, ⟨-, hhealthy, -⟩, -⟩ | hprobes
  · have hdown : HealthState.Down ∈
        (evaluationsOf id (.default id) reentry 0).map (·.after) := by
      rw [hstate]
      decide
    obtain ⟨o, ho, hafter⟩ := List.mem_map.1 hdown
    exact absurd hafter (hup o ho)
  · have hnone : HealthState.Healthy ∉
        (evaluationsOf id (.default id) reentry 0).map (·.after) := by
      rw [hstate]
      decide
    refine absurd (List.mem_map.2 ⟨exit, ?_, hhealthy⟩) hnone
    rw [heq]
    exact List.mem_append_right _ List.mem_cons_self
  · exact hprobes

end Oms
