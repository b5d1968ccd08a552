import Oms.Health.Probe

/-!
# How often a venue tripped, and how often it recovered

* `Evaluation.trip`, `Evaluation.recovery`: an evaluation that takes a venue from Healthy, or back;
* `Settled`, `step_counts`: what one event does to the two counters of a venue; `run_counts`: what
  a run does;
* `recoveries`: how the benchmark reads the number of recoveries off the counters;
  `recoveries_counted`: when that is the right number.
-/

namespace Oms

/-- The evaluation found the venue Healthy, and left it otherwise. -/
def Evaluation.trip (o : Evaluation) : Bool := o.before = .Healthy ∧ o.after ≠ .Healthy

/-- The evaluation brought the venue back to Healthy. -/
def Evaluation.recovery (o : Evaluation) : Bool := o.before ≠ .Healthy ∧ o.after = .Healthy

/-- The recoveries of a venue since it had tripped `tripsBefore` times, as the benchmark counts
them. -/
def recoveries (tripsBefore : ℕ) (st : VenueState) : ℕ :=
  let demotions := st.trips - tripsBefore
  if st.unresolved < demotions then demotions - st.unresolved else 0

/-- At most one trip is unresolved, and none if and only if the venue is Healthy. -/
def VenueState.Settled (st : VenueState) : Prop :=
  st.unresolved = if st.state = .Healthy then 0 else 1

section Step

variable (rnd : ℚ → ℚ) (cfg : HealthConfig) {st : VenueState}

theorem record_counters (st : VenueState) (e : HealthEvent) (now : Timestamp) :
    (st.record cfg now e).trips = st.trips ∧ (st.record cfg now e).unresolved = st.unresolved := by
  cases e <;> exact ⟨rfl, rfl⟩

/-- What an evaluation does to the counters. -/
theorem evaluate_counters (h : st.Settled) (now : Timestamp) :
    let st' := st.evaluate rnd cfg now
    st'.Settled ∧
      st'.trips = st.trips + if st.state = .Healthy ∧ st'.state ≠ .Healthy then 1 else 0 := by
  unfold VenueState.Settled at h
  unfold VenueState.Settled VenueState.evaluate
  cases hstate : st.state <;> simp only [hstate, if_true, if_false, reduceCtorEq] at h ⊢ <;>
    split_ifs <;> simp_all

/-- What an event does to the counters. -/
theorem step_counters (h : st.Settled) (e : HealthEvent) (now : Timestamp) :
    let o := st.evaluation rnd cfg e now
    let st' := st.step rnd cfg e now
    st'.Settled ∧ st'.trips = st.trips + (if o.trip then 1 else 0) ∧
      st'.unresolved + (if o.recovery then 1 else 0) = st.unresolved + if o.trip then 1 else 0 := by
  obtain ⟨htrips, hunresolved⟩ := record_counters cfg st e now
  have hrecorded : (st.record cfg now e).Settled := by
    unfold VenueState.Settled
    rw [hunresolved, record_state]
    exact h
  obtain ⟨hsettled, hcount⟩ := evaluate_counters rnd cfg hrecorded now
  rw [htrips, record_state] at hcount
  intro o st'
  have htrip : o.trip = true ↔ st.state = .Healthy ∧ st'.state ≠ .Healthy := decide_eq_true_iff
  have hrecovery : o.recovery = true ↔ st.state ≠ .Healthy ∧ st'.state = .Healthy :=
    decide_eq_true_iff
  refine ⟨hsettled, ?_, ?_⟩
  · simp only [htrip]
    exact hcount
  · have hafter : st'.unresolved = if st'.state = .Healthy then 0 else 1 := hsettled
    rw [hafter, h]
    simp only [htrip, hrecovery]
    by_cases hbefore : st.state = .Healthy <;> by_cases hhealthy : st'.state = .Healthy <;>
      simp [hbefore, hhealthy]

end Step

section Runs

variable (rnd : ℚ → ℚ) {h : CircuitBreakerHealthModel} {v : VenueId} {st : VenueState}

/-- What a run does to the counters. -/
theorem run_counters (hst : h.venues v = some st) (hsettled : st.Settled) (ops : List HealthOp) :
    let trace := h.evaluations rnd v ops
    ∃ st', ((healthMachine rnd).run h ops).venues v = some st' ∧ st'.Settled ∧
      st'.trips = st.trips + trace.countP (·.trip) ∧
      st'.unresolved + trace.countP (·.recovery) = st.unresolved + trace.countP (·.trip) := by
  induction ops generalizing h st with
  | nil => exact ⟨st, hst, hsettled, rfl, rfl⟩
  | cons op ops ih =>
    have hvenues : (h.step rnd op).venues v = _ := step_venues hst op
    cases harr : op.arrival v with
    | none =>
      rw [harr] at hvenues
      have hnone : h.evaluation rnd v op = [] := by
        unfold CircuitBreakerHealthModel.evaluation
        rw [hst, harr]
      have htrace : h.evaluations rnd v (op :: ops) = (h.step rnd op).evaluations rnd v ops := by
        rw [CircuitBreakerHealthModel.evaluations, hnone, List.nil_append]
      rw [htrace]
      exact ih hvenues hsettled
    | some arrival =>
      rw [harr, Option.elim_some] at hvenues
      have hone : h.evaluation rnd v op = [st.evaluation rnd h.cfg arrival.1 arrival.2] := by
        unfold CircuitBreakerHealthModel.evaluation
        rw [hst, harr]
      obtain ⟨hsettled', htrips, hunresolved⟩ :=
        step_counters rnd h.cfg hsettled arrival.1 arrival.2
      obtain ⟨st', hst', hsettled'', htrips', hunresolved'⟩ := ih hvenues hsettled'
      have htrace : h.evaluations rnd v (op :: ops) =
          st.evaluation rnd h.cfg arrival.1 arrival.2 :: (h.step rnd op).evaluations rnd v ops := by
        rw [CircuitBreakerHealthModel.evaluations, hone, List.singleton_append]
      refine ⟨st', hst', hsettled'', ?_, ?_⟩
      · rw [htrace, List.countP_cons]
        omega
      · rw [htrace, List.countP_cons, List.countP_cons]
        omega

/-- Every registered venue is settled. -/
theorem settled_of_run {cfg : HealthConfig} (ops : List HealthOp)
    (hst : ((healthMachine rnd).run (.init cfg) ops).venues v = some st) : st.Settled :=
  run_venues (fun _ => rfl) (fun _ e now h => (step_counters rnd cfg h e now).1) ops hst

/-- When the figure of the benchmark is right, by the counters alone. -/
theorem recoveries_eq_iff {st₀ : VenueState} {down up : ℕ} (hsettled₀ : st₀.Settled)
    (hsettled : st.Settled) (htrips : st.trips = st₀.trips + down)
    (hunresolved : st.unresolved + up = st₀.unresolved + down) :
    recoveries st₀.trips st = up ↔ st₀.state = .Healthy ∨ up = 0 := by
  have hdown : st.trips - st₀.trips = down := by omega
  have hone : st.unresolved ≤ 1 := by
    rw [hsettled]
    split_ifs <;> omega
  unfold recoveries
  rw [hdown]
  unfold VenueState.Settled at hsettled₀
  by_cases hhealthy : st₀.state = .Healthy
  · rw [if_pos hhealthy] at hsettled₀
    refine iff_of_true ?_ (Or.inl hhealthy)
    dsimp only
    split_ifs <;> omega
  · rw [if_neg hhealthy] at hsettled₀
    simp only [hhealthy, false_or]
    split_ifs <;> omega

/-- **The recoveries are counted right if the count began with a Healthy venue.** In every run of
the health model, count from some point on. The trips of a venue have gone up by the number of
evaluations that took it from Healthy. The figure of the benchmark is the number of those that
brought it back if and only if the venue was Healthy when the count began, or has not come back. -/
theorem recoveries_counted (cfg : HealthConfig) (pre ops : List HealthOp)
    (v : VenueId) {st₀ st : VenueState}
    (hst₀ : ((healthMachine rnd).run (.init cfg) pre).venues v = some st₀)
    (hst : ((healthMachine rnd).run (.init cfg) (pre ++ ops)).venues v = some st) :
    let trace := ((healthMachine rnd).run (.init cfg) pre).evaluations rnd v ops
    st.trips = st₀.trips + trace.countP (·.trip) ∧
      (recoveries st₀.trips st = trace.countP (·.recovery) ↔
        st₀.state = .Healthy ∨ trace.countP (·.recovery) = 0) := by
  have hsettled₀ : st₀.Settled := settled_of_run rnd pre hst₀
  obtain ⟨st', hst', hsettled, htrips, hunresolved⟩ := run_counters rnd hst₀ hsettled₀ ops
  rw [Machine.run_append, hst'] at hst
  cases hst
  exact ⟨htrips, recoveries_eq_iff hsettled₀ hsettled htrips hunresolved⟩

end Runs

/-- A venue that is disconnected and comes back within the dwell. -/
def flap : List HealthOp := [.disconnect 0 2, .reconnect 0 3]

/-- Counted from its registration on, the venue has come back once. -/
theorem recoveries_counted_flap :
    let cfg := HealthConfig.default id
    let h := (healthMachine id).run (.init cfg) [.registerVenue 0 1]
    ∃ st₀ st, h.venues 0 = some st₀ ∧ ((healthMachine id).run h flap).venues 0 = some st ∧
      recoveries st₀.trips st = 1 := by
  intro cfg h
  obtain ⟨st₀, hst₀⟩ : ∃ st₀, h.venues 0 = some st₀ := ⟨_, rfl⟩
  obtain ⟨st, hst⟩ : ∃ st, ((healthMachine id).run h flap).venues 0 = some st := ⟨_, rfl⟩
  refine ⟨st₀, st, hst₀, hst, ?_⟩
  have hcounted := recoveries_counted id cfg [.registerVenue 0 1] flap 0 hst₀ hst
  have hhealthy : st₀.state = .Healthy := by
    cases hst₀
    rfl
  rw [hcounted.2.2 (Or.inl hhealthy)]
  decide +kernel

end Oms
