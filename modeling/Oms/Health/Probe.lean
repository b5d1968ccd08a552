import Oms.Health.DeadEnd
import Oms.Router

/-!
# Probing behind a router

A venue that probes has a lower weight than a Healthy one, and a router sends an order to a venue of
greatest weight only. So the acks that the probing venue waits for do not come while another venue
is Healthy.

* `VenueState.Clear`: nothing but silence could trip the venue;
* `Restores`: orders and ticks bring a venue back, and leave another one Healthy;
* `Bypassed`, `bypassed_step`: the probing venue is passed over;
* `probing_restored_iff`: so it comes back only if it needs no acks.
-/

namespace Oms

/-! ### Clear venues -/

/-- The venue is connected, and neither its rejection rate nor its ack latency is high. -/
structure VenueState.Clear (rnd : ℚ → ℚ) (cfg : HealthConfig) (v : VenueState) : Prop where
  connected : v.connected = true
  rejHigh : v.rejHigh rnd cfg = false
  latHigh : v.latHigh rnd cfg = false

section Clear

variable {rnd : ℚ → ℚ} {cfg : HealthConfig} {v v' : VenueState} {now : Timestamp}

theorem clear_congr (hconnected : v'.connected = v.connected) (hwindows : v'.windows = v.windows) :
    v'.Clear rnd cfg ↔ v.Clear rnd cfg := by
  obtain ⟨hrejects, hlatencies⟩ := Prod.mk.inj hwindows
  have hrej : v'.rejHigh rnd cfg = v.rejHigh rnd cfg := by
    rw [VenueState.rejHigh, VenueState.rejHigh, hrejects]
  have hlat : v'.latHigh rnd cfg = v.latHigh rnd cfg := by
    rw [VenueState.latHigh, VenueState.latHigh, hlatencies]
  constructor
  · rintro ⟨h₁, h₂, h₃⟩
    exact ⟨hconnected ▸ h₁, hrej ▸ h₂, hlat ▸ h₃⟩
  · rintro ⟨h₁, h₂, h₃⟩
    exact ⟨hconnected ▸ h₁, hrej ▸ h₂, hlat ▸ h₃⟩

/-- No signal is high exactly if the venue is clear and was heard of lately. -/
theorem anyHigh_eq_false_iff : (v.assess rnd cfg now).anyHigh = false ↔
    v.Clear rnd cfg ∧ now - v.lastSeen ≤ cfg.heartbeatToleranceNs := by
  have hsplit : (v.assess rnd cfg now).anyHigh = false ↔
      (v.connected = true ∧ now - v.lastSeen ≤ cfg.heartbeatToleranceNs) ∧
        v.rejHigh rnd cfg = false ∧ v.latHigh rnd cfg = false := by
    simp [VenueState.assess, VenueState.connBad, and_assoc]
  rw [hsplit]
  constructor
  · rintro ⟨⟨h₁, h₂⟩, h₃, h₄⟩
    exact ⟨⟨h₁, h₃, h₄⟩, h₂⟩
  · rintro ⟨⟨h₁, h₃, h₄⟩, h₂⟩
    exact ⟨⟨h₁, h₂⟩, h₃, h₄⟩

@[simp] theorem evaluate_connected : (v.evaluate rnd cfg now).connected = v.connected := by
  unfold VenueState.evaluate
  dsimp only
  split <;> split_ifs <;> rfl

/-- A venue that an evaluation leaves Healthy shows no high signal. -/
theorem anyHigh_of_healthy (hbefore : v.state = .Healthy)
    (hafter : (v.evaluate rnd cfg now).state = .Healthy) :
    (v.assess rnd cfg now).anyHigh = false := by
  by_contra hhigh
  rw [Bool.not_eq_false] at hhigh
  simp [VenueState.evaluate, hbefore, hhigh] at hafter

/-- A Healthy venue without a high signal stays as it is. -/
theorem evaluate_of_healthy (hstate : v.state = .Healthy)
    (hlow : (v.assess rnd cfg now).anyHigh = false) : v.evaluate rnd cfg now = v := by
  simp [VenueState.evaluate, hstate, hlow]

/-- A probing venue without a high signal and with enough acks comes back. -/
theorem evaluate_of_probing (hstate : v.state = .Probing)
    (hlow : (v.assess rnd cfg now).anyHigh = false) (hacks : cfg.probeRequired ≤ v.probeSuccess) :
    (v.evaluate rnd cfg now).state = .Healthy := by
  simp [VenueState.evaluate, hstate, hlow, hacks]

end Clear

/-! ### Reachable venues -/

section Reachable

variable {rnd : ℚ → ℚ} {cfg : HealthConfig} {v : VenueId} {st : VenueState}

/-- What holds of a new venue and survives every event holds of every venue in every run. -/
theorem run_venues {P : VenueState → Prop} (hinit : ∀ now, P (.init cfg now))
    (hstep : ∀ st e now, P st → P (st.step rnd cfg e now)) (ops : List HealthOp)
    (hst : ((healthMachine rnd).run (.init cfg) ops).venues v = some st) : P st := by
  induction ops using List.reverseRecOn generalizing st with
  | nil => cases hst
  | append_singleton ops op ih =>
    rw [Machine.run_append] at hst
    have hcfg : ((healthMachine rnd).run (.init cfg) ops).cfg = cfg := run_cfg rnd _ ops
    generalize (healthMachine rnd).run (.init cfg) ops = h at hst hcfg ih
    change (h.step rnd op).venues v = some st at hst
    subst hcfg
    cases hbefore : h.venues v with
    | none =>
      rcases step_venues_none hbefore op with hnone | ⟨now, hnew⟩
      · rw [hnone] at hst
        cases hst
      · rw [hnew] at hst
        cases hst
        exact hinit now
    | some st₀ =>
      have hst₀ := ih hbefore
      rw [step_venues hbefore] at hst
      cases hst
      cases op.arrival v with
      | none => exact hst₀
      | some arrival => exact hstep st₀ arrival.1 arrival.2 hst₀

/-- The acks of a probing venue: it has all it needs only if it needs none. -/
structure VenueState.Counts (cfg : HealthConfig) (v : VenueState) : Prop where
  nonneg : 0 ≤ v.probeSuccess
  short : v.state = .Probing → v.probeSuccess = 0 ∨ v.probeSuccess < cfg.probeRequired

theorem evaluate_counts {now : Timestamp} (hnonneg : 0 ≤ st.probeSuccess) :
    (st.evaluate rnd cfg now).Counts cfg := by
  unfold VenueState.evaluate
  cases hstate : st.state with
  | Healthy =>
    dsimp only
    split_ifs
    · exact ⟨hnonneg, by simp⟩
    · exact ⟨hnonneg, by simp [hstate]⟩
  | Degraded =>
    dsimp only
    split_ifs
    · exact ⟨hnonneg, by simp⟩
    · exact ⟨hnonneg, by simp⟩
    · exact ⟨hnonneg, by simp [hstate]⟩
  | Down =>
    dsimp only
    split_ifs
    · exact ⟨hnonneg, by simp⟩
    · -- probing starts without an ack
      exact ⟨le_rfl, by simp⟩
    · exact ⟨hnonneg, by simp [hstate]⟩
    · exact ⟨hnonneg, by simp⟩
  | Probing =>
    dsimp only
    split_ifs with hhigh hacks
    · exact ⟨hnonneg, by simp⟩
    · exact ⟨hnonneg, by simp⟩
    · exact ⟨hnonneg, fun _ => Or.inr (not_le.1 hacks)⟩

theorem counts_step (e : HealthEvent) (now : Timestamp) (h : st.Counts cfg) :
    (st.step rnd cfg e now).Counts cfg := by
  refine evaluate_counts ?_
  have hnonneg := h.nonneg
  cases e with
  | ack lat =>
    simp only [VenueState.record]
    split_ifs <;> omega
  | _ => exact hnonneg

theorem counts_run (ops : List HealthOp)
    (hst : ((healthMachine rnd).run (.init cfg) ops).venues v = some st) : st.Counts cfg :=
  run_venues (fun _ => ⟨le_rfl, fun h => nomatch h⟩) (fun _ e now h => counts_step e now h) ops hst

end Reachable

/-! ### Passed over -/

/-- Orders, acked with a low latency, and ticks bring the venue `v` back to Healthy, and leave `u`
Healthy all along. -/
def Restores (rnd : ℚ → ℚ) (r : HealthAwareRouter) (v u : VenueId) (h : CircuitBreakerHealthModel) :
    Prop :=
  ∃ ops, (routeMachine rnd r).Admits (fun s op => s.Prompt op) { health := h } ops ∧
    (∀ pre, pre <+: ops →
      ((routeMachine rnd r).run { health := h } pre).health.state u = some .Healthy) ∧
    ((routeMachine rnd r).run { health := h } ops).health.state v = some .Healthy ∧
    ((routeMachine rnd r).run { health := h } ops).flight = []

/-- Such a venue heard nothing but ticks since `st`, and they left it Down or probing, with the acks
it had or with none. -/
structure VenueState.Waits (st st' : VenueState) : Prop where
  connected : st'.connected = st.connected
  windows : st'.windows = st.windows
  stuck : st'.state = .Down ∨
    st'.state = .Probing ∧ (st'.probeSuccess = st.probeSuccess ∨ st'.probeSuccess = 0)

section Bypassed

variable {rnd : ℚ → ℚ} {r : HealthAwareRouter} {s : Routing} {u v : VenueId}
  {st stu stv : VenueState}

theorem state_eq_some {h : CircuitBreakerHealthModel} {state : HealthState} :
    h.state v = some state ↔ ∃ st, h.venues v = some st ∧ st.state = state :=
  Option.map_eq_some_iff

/-- A tick leaves a venue waiting, unless it is clear and needs no more acks than it has. -/
theorem waits_tick {cfg : HealthConfig} (h : stv.Waits st) (now : Timestamp) :
    stv.Waits (st.step rnd cfg .tick now) ∨
      stv.Clear rnd cfg ∧ (cfg.probeRequired ≤ stv.probeSuccess ∨ cfg.probeRequired ≤ 0) := by
  have hconnected : (st.step rnd cfg .tick now).connected = stv.connected :=
    evaluate_connected.trans h.connected
  have hwindows : (st.step rnd cfg .tick now).windows = stv.windows :=
    (evaluate_windows _ _).trans h.windows
  rcases h.stuck with hdown | ⟨hprobing, hacks⟩
  · refine Or.inl ⟨hconnected, hwindows, ?_⟩
    rcases step_down rnd cfg .tick now hdown with ⟨hdown', -⟩ | ⟨hdown', -⟩ | ⟨hdown', -⟩ |
      ⟨hprobing, -, -, -, hzero⟩
    · exact Or.inl hdown'
    · exact Or.inl hdown'
    · exact Or.inl hdown'
    · exact Or.inr ⟨hprobing, Or.inr hzero⟩
  · have hcount : st.probeSuccess + (if HealthEvent.tick.goodAck cfg then 1 else 0) =
        st.probeSuccess := add_zero _
    rcases step_probing rnd cfg .tick now hprobing with ⟨hdown, -⟩ | ⟨-, hlow, henough⟩ |
      ⟨hprobing', -, hsame⟩
    · exact Or.inl ⟨hconnected, hwindows, Or.inl hdown⟩
    · have hclear : st.Clear rnd cfg := (anyHigh_eq_false_iff.1 hlow).1
      refine Or.inr ⟨(clear_congr h.connected h.windows).1 hclear, ?_⟩
      rw [hcount] at henough
      rcases hacks with heq | heq
      · exact Or.inl (heq ▸ henough)
      · exact Or.inr (heq ▸ henough)
    · rw [hcount] at hsame
      exact Or.inl ⟨hconnected, hwindows, Or.inr ⟨hprobing', hsame ▸ hacks⟩⟩

/-- While another venue is Healthy, no order goes to a venue that waits. -/
theorem select_ne_of_waits {h : CircuitBreakerHealthModel} (hweight : h.cfg.probeWeight < 1)
    (hu : u ∈ r.venues) (hhealthy : h.state u = some .Healthy) (hst : h.venues v = some st)
    (hwaits : stv.Waits st) {inst : InstrumentId} {side : Side} {qty : Quantity} :
    r.select h inst side qty ≠ some v := by
  intro hselect
  obtain ⟨stu, hstu, hstate⟩ := state_eq_some.1 hhealthy
  have hle := weight_le_select hselect hu (by simp [tradeable_eq hstu, hstate])
  have htradeable := (select_tradeable hselect).2
  rw [tradeable_eq hst] at htradeable
  rw [weight_eq hstu, hstate, weight_eq hst] at hle
  rcases hwaits.stuck with hdown | ⟨hprobing, -⟩
  · simp [hdown] at htradeable
  · rw [hprobing] at hle
    exact absurd hle (not_le.2 hweight)

/-- The venue `v` waits, and no order went to it; `u` is as it was, or clear. -/
structure Bypassed (rnd : ℚ → ℚ) (cfg : HealthConfig) (v u : VenueId) (stv stu : VenueState)
    (s : Routing) : Prop where
  cfg_eq : s.health.cfg = cfg
  waits : ∃ st, s.health.venues v = some st ∧ stv.Waits st
  noFlight : v ∉ s.flight
  other : s.health.venues u = some stu ∧ u ∉ s.flight ∨ stu.Clear rnd cfg

/-- A Healthy venue to which an event brings nothing new, and that stays Healthy, is clear. -/
theorem clear_of_healthy {cfg : HealthConfig} {e : HealthEvent} {now : Timestamp}
    (hconnected : (st.record cfg now e).connected = st.connected)
    (hwindows : (st.record cfg now e).windows = st.windows) (hbefore : st.state = .Healthy)
    (hafter : (st.step rnd cfg e now).state = .Healthy) : st.Clear rnd cfg := by
  have hlow := anyHigh_of_healthy ((record_state e).trans hbefore) hafter
  exact (clear_congr hconnected hwindows).1 (anyHigh_eq_false_iff.1 hlow).1

variable {cfg : HealthConfig}

theorem bypassed_order (hweight : cfg.probeWeight < 1) (hu : u ∈ r.venues)
    (h : Bypassed rnd cfg v u stv stu s) (hhealthy : s.health.state u = some .Healthy)
    {inst : InstrumentId} {side : Side} {qty : Quantity} {ts now : Timestamp}
    (hafter : (s.step rnd r (.order inst side qty ts now)).health.state u = some .Healthy) :
    Bypassed rnd cfg v u stv stu (s.step rnd r (.order inst side qty ts now)) := by
  obtain ⟨hcfg, ⟨st, hst, hwaits⟩, hflight, hother⟩ := h
  subst hcfg
  unfold Routing.step at hafter ⊢
  dsimp only at hafter ⊢
  cases hselect : r.select s.health inst side qty with
  | none => exact ⟨rfl, ⟨st, hst, hwaits⟩, hflight, hother⟩
  | some w =>
    rw [hselect] at hafter
    dsimp only at hafter ⊢
    have hwv : w ≠ v := fun heq =>
      select_ne_of_waits hweight hu hhealthy hst hwaits (heq ▸ hselect)
    refine ⟨rfl, ⟨st, ?_, hwaits⟩, ?_, ?_⟩
    · exact (event_venues _ _).trans ((if_neg hwv).trans hst)
    · simp [hwv.symm, hflight]
    · rcases hother with ⟨hstu, hnot⟩ | hclear
      · by_cases hwu : w = u
        · -- the order refreshes `u`, so it has no high signal
          subst hwu
          obtain ⟨st', hst', hbefore⟩ := state_eq_some.1 hhealthy
          rw [hstu] at hst'
          cases hst'
          obtain ⟨st', hst', hstate⟩ := state_eq_some.1 hafter
          have hevent : (s.health.event rnd w (.orderSent ts) now).venues w =
              some (stu.step rnd s.health.cfg (.orderSent ts) now) := by
            rw [event_venues, if_pos rfl, hstu]
            rfl
          cases hevent.symm.trans hst'
          exact Or.inr (clear_of_healthy rfl rfl hbefore hstate)
        · refine Or.inl ⟨(event_venues _ _).trans ((if_neg hwu).trans hstu), ?_⟩
          simp [Ne.symm hwu, hnot]
      · exact Or.inr hclear

theorem bypassed_ack (h : Bypassed rnd cfg v u stv stu s) {w : VenueId} {lat : LatencyNs}
    {now : Timestamp} (hw : w ∈ s.flight) :
    Bypassed rnd cfg v u stv stu (s.step rnd r (.ack w lat now)) := by
  obtain ⟨hcfg, ⟨st, hst, hwaits⟩, hflight, hother⟩ := h
  have hne : ∀ {x}, x ∉ s.flight → w ≠ x := fun hx heq => hx (heq ▸ hw)
  refine ⟨hcfg, ⟨st, ?_, hwaits⟩, fun hmem => hflight (List.mem_of_mem_erase hmem), ?_⟩
  · exact (event_venues _ _).trans ((if_neg (hne hflight)).trans hst)
  · rcases hother with ⟨hstu, hnot⟩ | hclear
    · refine Or.inl ⟨?_, fun hmem => hnot (List.mem_of_mem_erase hmem)⟩
      exact (event_venues _ _).trans ((if_neg (hne hnot)).trans hstu)
    · exact Or.inr hclear

theorem bypassed_tick (h : Bypassed rnd cfg v u stv stu s)
    (hhealthy : s.health.state u = some .Healthy) {now : Timestamp}
    (hafter : (s.step rnd r (.tick now)).health.state u = some .Healthy) :
    Bypassed rnd cfg v u stv stu (s.step rnd r (.tick now)) ∨
      (cfg.probeRequired ≤ stv.probeSuccess ∨ cfg.probeRequired ≤ 0) ∧ stv.Clear rnd cfg ∧
        stu.Clear rnd cfg := by
  obtain ⟨hcfg, ⟨st, hst, hwaits⟩, hflight, hother⟩ := h
  subst hcfg
  have hclear : stu.Clear rnd s.health.cfg := by
    rcases hother with ⟨hstu, -⟩ | hclear
    · obtain ⟨st', hst', hbefore⟩ := state_eq_some.1 hhealthy
      rw [hstu] at hst'
      cases hst'
      obtain ⟨st', hst', hstate⟩ := state_eq_some.1 hafter
      change (s.health.venues u).map _ = some st' at hst'
      rw [hstu] at hst'
      cases hst'
      exact clear_of_healthy rfl rfl hbefore hstate
    · exact hclear
  have htick : stv.Waits (st.step rnd s.health.cfg .tick now) ∨ stv.Clear rnd s.health.cfg ∧
      (s.health.cfg.probeRequired ≤ stv.probeSuccess ∨ s.health.cfg.probeRequired ≤ 0) :=
    waits_tick hwaits now
  rcases htick with hwaits' | ⟨hclear', hacks⟩
  · refine Or.inl ⟨rfl, ⟨_, ?_, hwaits'⟩, hflight, Or.inr hclear⟩
    show (s.health.venues v).map _ = _
    rw [hst]
    rfl
  · exact Or.inr ⟨hacks, hclear', hclear⟩

/-- **One step** while `u` is Healthy: the venue `v` stays passed over, unless it needs no more acks
than it has, and both venues are clear. -/
theorem bypassed_step (hweight : cfg.probeWeight < 1) (hu : u ∈ r.venues)
    (h : Bypassed rnd cfg v u stv stu s) (hhealthy : s.health.state u = some .Healthy)
    {op : RouteOp} (hop : s.Prompt op)
    (hafter : (s.step rnd r op).health.state u = some .Healthy) :
    Bypassed rnd cfg v u stv stu (s.step rnd r op) ∨
      (cfg.probeRequired ≤ stv.probeSuccess ∨ cfg.probeRequired ≤ 0) ∧ stv.Clear rnd cfg ∧
        stu.Clear rnd cfg := by
  cases op with
  | order inst side qty ts now => exact Or.inl (bypassed_order hweight hu h hhealthy hafter)
  | ack w lat now => exact Or.inl (bypassed_ack h hop.1)
  | tick now => exact bypassed_tick h hhealthy hafter

/-- **Every run** that leaves `u` Healthy all along. -/
theorem bypassed_run (hweight : cfg.probeWeight < 1) (hu : u ∈ r.venues)
    (h : Bypassed rnd cfg v u stv stu s) {ops : List RouteOp}
    (hops : (routeMachine rnd r).Admits (fun s op => s.Prompt op) s ops)
    (hhealthy : ∀ pre, pre <+: ops →
      ((routeMachine rnd r).run s pre).health.state u = some .Healthy) :
    Bypassed rnd cfg v u stv stu ((routeMachine rnd r).run s ops) ∨
      (cfg.probeRequired ≤ stv.probeSuccess ∨ cfg.probeRequired ≤ 0) ∧ stv.Clear rnd cfg ∧
        stu.Clear rnd cfg := by
  induction ops generalizing s with
  | nil => exact Or.inl h
  | cons op ops ih =>
    obtain ⟨hop, hops⟩ := hops
    have hafter := hhealthy [op] (by simp)
    rcases bypassed_step hweight hu h (hhealthy [] (by simp)) hop hafter with h' | hdone
    · refine ih h' hops fun pre hpre => ?_
      exact hhealthy (op :: pre) ((List.prefix_cons_inj op).2 hpre)
    · exact Or.inr hdone

end Bypassed

/-! ### Coming back -/

section Restores

variable {rnd : ℚ → ℚ} {r : HealthAwareRouter} {h : CircuitBreakerHealthModel} {u v : VenueId}
  {stu stv : VenueState}

/-- A venue that probes behind a Healthy one comes back only if it needs no more acks than it has,
and both are clear. -/
theorem clear_of_restores (hweight : h.cfg.probeWeight < 1) (hu : u ∈ r.venues)
    (hstu : h.venues u = some stu) (hstv : h.venues v = some stv) (hprobing : stv.state = .Probing)
    (hrestores : Restores rnd r v u h) :
    (h.cfg.probeRequired ≤ stv.probeSuccess ∨ h.cfg.probeRequired ≤ 0) ∧ stv.Clear rnd h.cfg ∧
      stu.Clear rnd h.cfg := by
  obtain ⟨ops, hops, hhealthy, hback, -⟩ := hrestores
  -- nothing has been sent yet
  have hstart : Bypassed rnd h.cfg v u stv stu { health := h } :=
    ⟨rfl, ⟨stv, hstv, rfl, rfl, Or.inr ⟨hprobing, Or.inl rfl⟩⟩, by simp, Or.inl ⟨hstu, by simp⟩⟩
  rcases bypassed_run hweight hu hstart hops hhealthy with hbypassed | hdone
  · obtain ⟨st, hst, hwaits⟩ := hbypassed.waits
    obtain ⟨st', hst', hstate⟩ := state_eq_some.1 hback
    cases hst.symm.trans hst'
    rcases hwaits.stuck with hdown | ⟨hprobing', -⟩
    · rw [hstate] at hdown
      cases hdown
    · rw [hstate] at hprobing'
      cases hprobing'
  · exact hdone

/-- When it has all the acks it needs, and both venues are clear, one tick is enough. -/
theorem restores_of_clear (hstu : h.venues u = some stu) (hstv : h.venues v = some stv)
    (hhealthy : stu.state = .Healthy) (hprobing : stv.state = .Probing)
    (hacks : h.cfg.probeRequired ≤ stv.probeSuccess) (hclearv : stv.Clear rnd h.cfg)
    (hclearu : stu.Clear rnd h.cfg) : Restores rnd r v u h := by
  -- a tick that comes too early for either heartbeat to be missed
  obtain ⟨now, hnowv, hnowu⟩ : ∃ now, now - stv.lastSeen ≤ h.cfg.heartbeatToleranceNs ∧
      now - stu.lastSeen ≤ h.cfg.heartbeatToleranceNs :=
    ⟨min stv.lastSeen stu.lastSeen + h.cfg.heartbeatToleranceNs,
      by linarith [min_le_left stv.lastSeen stu.lastSeen],
      by linarith [min_le_right stv.lastSeen stu.lastSeen]⟩
  have hlowv := anyHigh_eq_false_iff.2 ⟨hclearv, hnowv⟩
  have hlowu := anyHigh_eq_false_iff.2 ⟨hclearu, hnowu⟩
  have hticku : (h.tick rnd now).state u = some .Healthy := by
    have heq : stu.step rnd h.cfg .tick now = stu := evaluate_of_healthy hhealthy hlowu
    simp [CircuitBreakerHealthModel.state, CircuitBreakerHealthModel.tick, hstu, heq, hhealthy]
  have htickv : (h.tick rnd now).state v = some .Healthy := by
    have heq : (stv.step rnd h.cfg .tick now).state = .Healthy :=
      evaluate_of_probing hprobing hlowv hacks
    simp [CircuitBreakerHealthModel.state, CircuitBreakerHealthModel.tick, hstv, heq]
  refine ⟨[.tick now], ⟨trivial, trivial⟩, fun pre hpre => ?_, htickv, rfl⟩
  rcases List.prefix_cons_iff.1 hpre with rfl | ⟨pre', rfl, hpre'⟩
  · exact state_eq_some.2 ⟨stu, hstu, hhealthy⟩
  · cases List.prefix_nil.1 hpre'
    exact hticku

/-- For venues whose acks count. -/
theorem restores_iff (hweight : h.cfg.probeWeight < 1) (hu : u ∈ r.venues)
    (hstu : h.venues u = some stu) (hhealthy : stu.state = .Healthy) (hstv : h.venues v = some stv)
    (hprobing : stv.state = .Probing) (hcounts : stv.Counts h.cfg) :
    Restores rnd r v u h ↔ h.cfg.probeRequired ≤ 0 ∧ stv.Clear rnd h.cfg ∧ stu.Clear rnd h.cfg := by
  constructor
  · intro hrestores
    obtain ⟨hacks, hclear⟩ := clear_of_restores hweight hu hstu hstv hprobing hrestores
    refine ⟨?_, hclear⟩
    rcases hcounts.short hprobing with hzero | hshort
    · omega
    · omega
  · rintro ⟨hrequired, hclearv, hclearu⟩
    have hacks : h.cfg.probeRequired ≤ stv.probeSuccess := hrequired.trans hcounts.nonneg
    exact restores_of_clear hstu hstv hhealthy hprobing hacks hclearv hclearu

/-- **A probing venue comes back only if it need not.** In every reachable state under every
configuration with a probe weight below that of a Healthy venue, let `v` probe behind a router with
another venue `u` that is Healthy. Orders that go where `select` says and are acked by that venue
with a low latency, and ticks, bring `v` back while `u` stays Healthy if and only if no ack is
required, and both venues are clear. -/
theorem probing_restored_iff (rnd : ℚ → ℚ) (cfg : HealthConfig) (hweight : cfg.probeWeight < 1)
    (r : HealthAwareRouter) (ops : List HealthOp) {u v : VenueId} (hu : u ∈ r.venues)
    {stu stv : VenueState}
    (hstu : ((healthMachine rnd).run (.init cfg) ops).venues u = some stu)
    (hhealthy : stu.state = .Healthy)
    (hstv : ((healthMachine rnd).run (.init cfg) ops).venues v = some stv)
    (hprobing : stv.state = .Probing) :
    Restores rnd r v u ((healthMachine rnd).run (.init cfg) ops) ↔
      cfg.probeRequired ≤ 0 ∧ stv.Clear rnd cfg ∧ stu.Clear rnd cfg := by
  have hcounts := counts_run ops hstv
  have hcfg : ((healthMachine rnd).run (.init cfg) ops).cfg = cfg := run_cfg rnd _ ops
  generalize (healthMachine rnd).run (.init cfg) ops = h at hstu hstv hcfg
  subst hcfg
  exact restores_iff hweight hu hstu hhealthy hstv hprobing hcounts

end Restores

/-- Venue `1` is disconnected, goes Down, comes back and probes. Venue `0` stays Healthy. -/
def comeback : List HealthOp :=
  [.registerVenue 0 1, .registerVenue 1 1, .disconnect 1 1, .tick 1000000001,
    .reconnect 1 1000000002, .tick 3000000002]

/-- Without acks to wait for, a tick restores venue `1`. -/
theorem restored_comeback :
    Restores id ⟨[0, 1]⟩ 1 0 ((healthMachine id).run
      (.init { HealthConfig.default id with probeRequired := 0 }) comeback) :=
  (probing_restored_iff id _ (by decide +kernel) ⟨[0, 1]⟩ comeback (by decide) rfl
    (by decide +kernel) rfl (by decide +kernel)).2
    ⟨by decide, ⟨by decide +kernel, by decide +kernel, by decide +kernel⟩,
      by decide +kernel, by decide +kernel, by decide +kernel⟩

/-- With the default configuration nothing restores it. -/
theorem starved_comeback :
    let cfg := HealthConfig.default id
    let h := (healthMachine id).run (.init cfg) comeback
    0 < cfg.probeWeight ∧ cfg.probeWeight < 1 ∧ h.state 0 = some .Healthy ∧
      h.state 1 = some .Probing ∧ ¬ Restores id ⟨[0, 1]⟩ 1 0 h := by
  refine ⟨by decide +kernel, by decide +kernel, by decide +kernel, by decide +kernel, ?_⟩
  intro hrestores
  have hacks := (clear_of_restores (by decide +kernel) (by decide) rfl rfl (by decide +kernel)
    hrestores).1
  revert hacks
  decide +kernel

/-! ### Thresholds with a gap -/

/-- A venue recovers below the thresholds it trips above. -/
structure HealthConfig.Hysteresis (cfg : HealthConfig) : Prop where
  reject : cfg.rejectLow ≤ cfg.rejectHigh
  reject_nonneg : 0 ≤ cfg.rejectHigh
  latency : cfg.latencyLowNs ≤ cfg.latencyHighNs

section Hysteresis

variable {rnd : ℚ → ℚ} {cfg : HealthConfig} {st : VenueState}

/-- All signals low, none is high. -/
theorem clear_of_allLow (hgap : cfg.Hysteresis) {now : Timestamp}
    (hlow : (st.assess rnd cfg now).allLow = true) : st.Clear rnd cfg := by
  have hsplit : (!st.connBad cfg now && st.rejLow rnd cfg && st.latLow rnd cfg) = true := hlow
  obtain ⟨⟨hconn, hrej⟩, hlat⟩ := by simpa only [Bool.and_eq_true] using hsplit
  refine ⟨?_, ?_, ?_⟩
  · by_contra hnot
    simp [VenueState.connBad, hnot] at hconn
  · by_contra hhigh
    simp only [VenueState.rejHigh, Bool.not_eq_false, Bool.and_eq_true, decide_eq_true_eq] at hhigh
    simp only [VenueState.rejLow, Bool.or_eq_true, decide_eq_true_eq] at hrej
    rcases hrej with hfew | hrare
    · omega
    · exact absurd (hhigh.2.trans hrare) (not_lt.2 hgap.reject)
  · by_contra hhigh
    simp only [VenueState.latHigh, Bool.not_eq_false, Bool.and_eq_true, decide_eq_true_eq,
      Bool.not_eq_true'] at hhigh
    simp only [VenueState.latLow, hhigh.1, Bool.false_or, decide_eq_true_eq] at hlat
    exact absurd (hhigh.2.trans hlat) (not_lt.2 hgap.latency)

theorem evaluate_clear (hgap : cfg.Hysteresis) {now : Timestamp}
    (hup : (st.evaluate rnd cfg now).state = .Healthy ∨
      (st.evaluate rnd cfg now).state = .Probing) : st.Clear rnd cfg := by
  have hquiet : (st.assess rnd cfg now).anyHigh = false → st.Clear rnd cfg := fun hlow =>
    (anyHigh_eq_false_iff.1 hlow).1
  have hall : (st.assess rnd cfg now).allLow = true → st.Clear rnd cfg := clear_of_allLow hgap
  unfold VenueState.evaluate at hup
  cases hstate : st.state with
  | Healthy =>
    simp only [hstate] at hup
    split_ifs at hup with hhigh
    · simp at hup
    · exact hquiet (Bool.not_eq_true _ ▸ hhigh)
  | Degraded =>
    simp only [hstate] at hup
    split_ifs at hup with hlow
    · exact hall hlow
    · simp at hup
    · simp [hstate] at hup
  | Down =>
    simp only [hstate] at hup
    split_ifs at hup with hlow
    · exact hall hlow
    · exact hall hlow
    · exact hall hlow
    · simp at hup
  | Probing =>
    simp only [hstate] at hup
    split_ifs at hup with hhigh
    · simp at hup
    · exact hquiet (Bool.not_eq_true _ ▸ hhigh)
    · exact hquiet (Bool.not_eq_true _ ▸ hhigh)

/-- With such thresholds the venues that are Healthy or probe are clear. -/
theorem clear_run (hgap : cfg.Hysteresis) {v : VenueId} (ops : List HealthOp)
    (hst : ((healthMachine rnd).run (.init cfg) ops).venues v = some st) :
    st.state = .Healthy ∨ st.state = .Probing → st.Clear rnd cfg := by
  refine run_venues (P := fun st => st.state = .Healthy ∨ st.state = .Probing → st.Clear rnd cfg)
    (fun now _ => ?_) (fun st e now _ hup => ?_) ops hst
  · have hrej := not_lt.2 hgap.reject_nonneg
    constructor
    · rfl
    · simp [VenueState.rejHigh, VenueState.init, RingBuffer.fraction, RingBuffer.empty, hrej]
    · simp [VenueState.latHigh, VenueState.init, RingBuffer.empty]
  · exact (clear_congr evaluate_connected (evaluate_windows _ _)).2 (evaluate_clear hgap hup)

/-- With such thresholds a probing venue comes back behind a Healthy one exactly if no ack is
required. -/
theorem probing_restored_iff_of_hysteresis (hgap : cfg.Hysteresis) (hweight : cfg.probeWeight < 1)
    (r : HealthAwareRouter) (ops : List HealthOp) {u v : VenueId} (hu : u ∈ r.venues)
    (hhealthy : ((healthMachine rnd).run (.init cfg) ops).state u = some .Healthy)
    (hprobing : ((healthMachine rnd).run (.init cfg) ops).state v = some .Probing) :
    Restores rnd r v u ((healthMachine rnd).run (.init cfg) ops) ↔ cfg.probeRequired ≤ 0 := by
  obtain ⟨stu, hstu, hup⟩ := state_eq_some.1 hhealthy
  obtain ⟨stv, hstv, hback⟩ := state_eq_some.1 hprobing
  have hclearu := clear_run hgap ops hstu (Or.inl hup)
  have hclearv := clear_run hgap ops hstv (Or.inr hback)
  have hcounts := counts_run ops hstv
  have hcfg : ((healthMachine rnd).run (.init cfg) ops).cfg = cfg := run_cfg rnd _ ops
  generalize (healthMachine rnd).run (.init cfg) ops = h at hstu hstv hcfg
  subst hcfg
  rw [restores_iff hweight hu hstu hup hstv hback hcounts]
  simp [hclearu, hclearv]

end Hysteresis

end Oms
