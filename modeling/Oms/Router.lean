import Mathlib.Data.List.MinMax
import Oms.Health

/-!
# Routing

`Router.h`, `Router.cpp`: an order goes to the healthiest tradeable venue.

* `HealthAwareRouter.select`: the loop over the venues;
* `select_eq_argmax`: it finds the first venue of greatest weight among the tradeable ones;
* `Routing`, `RouteOp`, `routeMachine`: the orders that a router sends, their acks and the ticks of
  the timer as one machine.
-/

namespace Oms

structure HealthAwareRouter where
  venues : List VenueId

namespace HealthAwareRouter

variable (h : CircuitBreakerHealthModel)

/-- The body of the loop of `select`: the best venue so far and its weight, and the next venue. At a
venue that is not registered the source fails an assertion; here it is passed over. -/
def consider (best : Option VenueId × ℚ) (v : VenueId) : Option VenueId × ℚ :=
  match h.isTradeable v, h.score v with
  | some true, some score =>
    -- strictly greater keeps the first venue on ties
    if best.1 = none ∨ best.2 < score.weight then (some v, score.weight) else best
  | _, _ => best

/-- The venue for an order; `none` when all are Down. What is ordered plays no part. -/
def select (r : HealthAwareRouter) (_inst : InstrumentId) (_side : Side) (_qty : Quantity) :
    Option VenueId :=
  (r.venues.foldl (consider h) (none, 0)).1

end HealthAwareRouter

/-! ### The greatest weight -/

section Weight

variable (h : CircuitBreakerHealthModel)

/-- A registered venue that is not Down. -/
def CircuitBreakerHealthModel.tradeable (v : VenueId) : Bool := h.isTradeable v = some true

/-- The weight of a venue. -/
def CircuitBreakerHealthModel.weight (v : VenueId) : ℚ := (h.score v).elim 0 (·.weight)

variable {h} {r : HealthAwareRouter} {inst : InstrumentId} {side : Side} {qty : Quantity}
  {u v : VenueId} {st : VenueState}

theorem tradeable_eq (hst : h.venues v = some st) : h.tradeable v = decide (st.state ≠ .Down) := by
  unfold CircuitBreakerHealthModel.tradeable CircuitBreakerHealthModel.isTradeable
  rw [hst]
  simp

theorem weight_eq (hst : h.venues v = some st) :
    h.weight v =
      match st.state with
      | .Healthy => 1
      | .Degraded => h.cfg.degradedWeight
      | .Probing => h.cfg.probeWeight
      | .Down => 0 := by
  unfold CircuitBreakerHealthModel.weight CircuitBreakerHealthModel.score
  rw [hst]
  rfl

theorem not_tradeable (hst : h.venues v = none) : h.tradeable v = false := by
  unfold CircuitBreakerHealthModel.tradeable CircuitBreakerHealthModel.isTradeable
  rw [hst]
  rfl

/-- The best venue so far comes with its weight. -/
theorem consider_eq (best : Option VenueId) (v : VenueId) :
    HealthAwareRouter.consider h (best, best.elim 0 h.weight) v =
      let best' := if h.tradeable v then List.argAux (fun b c => h.weight c < h.weight b) best v
        else best
      (best', best'.elim 0 h.weight) := by
  unfold HealthAwareRouter.consider
  cases hst : h.venues v with
  | none =>
    have htradeable : h.isTradeable v = none := by
      simp [CircuitBreakerHealthModel.isTradeable, hst]
    simp [not_tradeable hst, htradeable]
  | some st =>
    have htradeable : h.isTradeable v = some (decide (st.state ≠ .Down)) := by
      simp [CircuitBreakerHealthModel.isTradeable, hst]
    obtain ⟨score, hscore⟩ : ∃ score, h.score v = some score := by
      simp [CircuitBreakerHealthModel.score, hst]
    have hweight : score.weight = h.weight v := by
      simp [CircuitBreakerHealthModel.weight, hscore]
    rw [htradeable, hscore, tradeable_eq hst]
    by_cases hdown : st.state = .Down
    · simp [hdown]
    · cases best with
      | none => simp [hdown, List.argAux, hweight]
      | some b =>
        simp only [ne_eq, hdown, not_false_eq_true, decide_true, hweight, reduceCtorEq, false_or,
          Option.elim_some, if_true, List.argAux]
        split_ifs <;> rfl

theorem foldl_consider (best : Option VenueId) (vs : List VenueId) :
    (vs.foldl (HealthAwareRouter.consider h) (best, best.elim 0 h.weight)).1 =
      (vs.filter h.tradeable).foldl (List.argAux fun b c => h.weight c < h.weight b) best := by
  induction vs generalizing best with
  | nil => rfl
  | cons v vs ih =>
    rw [List.foldl_cons, consider_eq, List.filter_cons]
    dsimp only
    split_ifs
    · rw [List.foldl_cons]
      exact ih _
    · exact ih _

/-- **The healthiest venue.** An order goes to the first venue of greatest weight among those that
are not Down. -/
theorem select_eq_argmax :
    r.select h inst side qty = (r.venues.filter h.tradeable).argmax h.weight :=
  foldl_consider none r.venues

theorem select_tradeable (hselect : r.select h inst side qty = some v) :
    v ∈ r.venues ∧ h.tradeable v = true := by
  rw [select_eq_argmax] at hselect
  exact List.mem_filter.1 (List.argmax_mem hselect)

theorem weight_le_select (hselect : r.select h inst side qty = some v) (hu : u ∈ r.venues)
    (htradeable : h.tradeable u = true) : h.weight u ≤ h.weight v := by
  rw [select_eq_argmax] at hselect
  exact List.le_of_mem_argmax (List.mem_filter.2 ⟨hu, htradeable⟩) hselect

end Weight

/-! ### Orders and acks -/

/-- The orders that a router sends by the health of its venues. -/
structure Routing where
  health : CircuitBreakerHealthModel
  /-- the venues of the orders that are not acked -/
  flight : List VenueId := []

inductive RouteOp
  | order (inst : InstrumentId) (side : Side) (qty : Quantity) (ts now : Timestamp)
  | ack (v : VenueId) (lat : LatencyNs) (now : Timestamp)
  | tick (now : Timestamp)
  deriving DecidableEq

section Routing

variable (rnd : ℚ → ℚ) (r : HealthAwareRouter)

def Routing.step (s : Routing) : RouteOp → Routing
  | .order inst side qty ts now =>
    match r.select s.health inst side qty with
    | none => s
    | some v => { health := s.health.onOrderSent rnd v ts now, flight := v :: s.flight }
  | .ack v lat now => { health := s.health.onAck rnd v lat now, flight := s.flight.erase v }
  | .tick now => { s with health := s.health.tick rnd now }

/-- An order is acked once, by the venue it was sent to, with a low latency. -/
def Routing.Prompt (s : Routing) : RouteOp → Prop
  | .ack v lat _ => v ∈ s.flight ∧ lat ≤ s.health.cfg.latencyLowNs
  | _ => True

def routeMachine : Machine Routing RouteOp where
  step := Routing.step rnd r

end Routing

end Oms
