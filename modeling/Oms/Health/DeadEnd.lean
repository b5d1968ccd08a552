import Mathlib.Tactic.Linarith
import Oms.Health.Reentry

/-!
# Venues that cannot come back from Down

A venue that is Down gets no orders, so its windows stay as they are, and only reconnects and ticks
evaluate it.

* `Quiet`: such a continuation;
* `quiet_down`: it leaves a venue Down whose windows are not low;
* `exists_quiet_probing`: there is one that brings a venue with low windows to Probing;
* `down_escapes_iff`: so the windows at the time it went Down decide.
-/

namespace Oms

/-- The time the clock shows at an operation. -/
def HealthOp.now : HealthOp → Timestamp
  | .registerVenue _ now | .orderSent _ _ now | .ack _ _ now | .reject _ _ now | .fill _ now
  | .timeout _ now | .disconnect _ now | .reconnect _ now | .tick now => now

/-- A call of `onReconnect` or `tick`. -/
def HealthOp.Idle (op : HealthOp) : Prop := (∃ u now, op = .reconnect u now) ∨ ∃ now, op = .tick now

/-- A continuation of reconnects and ticks only, at times that do not go back, from `t` on. -/
structure Quiet (t : Timestamp) (ops : List HealthOp) : Prop where
  idle : ∀ op ∈ ops, op.Idle
  times : (t :: ops.map HealthOp.now).Pairwise (· ≤ ·)

/-- The rejection rate and the ack latency of the windows of a venue are low. -/
structure VenueState.WindowsLow (rnd : ℚ → ℚ) (cfg : HealthConfig) (v : VenueState) : Prop where
  rejLow : v.rejLow rnd cfg = true
  latLow : v.latLow rnd cfg = true

section Windows

variable {rnd : ℚ → ℚ} {cfg : HealthConfig} {v v' : VenueState} {now : Timestamp}

/-- The windows of a venue. -/
def VenueState.windows (v : VenueState) : RingBuffer UInt8 × RingBuffer LatencyNs :=
  (v.rejects, v.latencies)

theorem windowsLow_congr (h : v'.windows = v.windows) :
    v'.WindowsLow rnd cfg ↔ v.WindowsLow rnd cfg := by
  obtain ⟨hrejects, hlatencies⟩ := Prod.mk.inj h
  have hrej : v'.rejLow rnd cfg = v.rejLow rnd cfg := by
    rw [VenueState.rejLow, VenueState.rejLow, hrejects]
  have hlat : v'.latLow rnd cfg = v.latLow rnd cfg := by
    rw [VenueState.latLow, VenueState.latLow, hlatencies]
  constructor
  · rintro ⟨h₁, h₂⟩
    exact ⟨hrej ▸ h₁, hlat ▸ h₂⟩
  · rintro ⟨h₁, h₂⟩
    exact ⟨hrej ▸ h₁, hlat ▸ h₂⟩

/-- Evaluating a venue leaves its windows alone. -/
theorem evaluate_windows (v : VenueState) (now : Timestamp) :
    (v.evaluate rnd cfg now).windows = v.windows := by
  unfold VenueState.evaluate
  dsimp only
  split <;> split_ifs <;> rfl

/-- All signals of a venue are low only if its windows are. -/
theorem windowsLow_of_allLow {e : HealthEvent} (hwindows : (v.record cfg now e).windows = v.windows)
    (h : (v.evaluation rnd cfg e now).allLow = true) : v.WindowsLow rnd cfg := by
  rw [← windowsLow_congr hwindows]
  have hlow : (!_ && _ && _) = true := h
  rw [Bool.and_eq_true, Bool.and_eq_true] at hlow
  exact ⟨hlow.1.2, hlow.2⟩

/-- A reconnect finds all signals low if the windows are. -/
theorem VenueState.WindowsLow.reconnect (h : v.WindowsLow rnd cfg)
    (htolerance : 0 ≤ cfg.heartbeatToleranceNs) (now : Timestamp) :
    (v.evaluation rnd cfg .reconnect now).allLow = true := by
  have hconn : (v.record cfg now .reconnect).connBad cfg now = false := by
    simp [VenueState.connBad, VenueState.record, htolerance]
  show (!(v.record cfg now .reconnect).connBad cfg now && _ && _) = true
  rw [hconn, Bool.and_eq_true]
  exact ⟨h.rejLow, h.latLow⟩

end Windows

section DeadEnd

variable {rnd : ℚ → ℚ} {h : CircuitBreakerHealthModel} {v : VenueId} {st : VenueState}

/-- An idle operation brings a venue nothing that goes into its windows. -/
theorem HealthOp.Idle.windows {op : HealthOp} (hidle : op.Idle) {e : HealthEvent} {now : Timestamp}
    (harr : op.arrival v = some (e, now)) (cfg : HealthConfig) (st : VenueState) :
    (st.record cfg now e).windows = st.windows := by
  rcases hidle with ⟨u, now', rfl⟩ | ⟨now', rfl⟩
  · change (if u = v then some (HealthEvent.reconnect, now') else none) = some (e, now) at harr
    split_ifs at harr
    cases harr
    rfl
  · cases harr
    rfl

/-- The venue is Down, and its windows are those of `st`, which are not low. -/
structure Stuck (rnd : ℚ → ℚ) (v : VenueId) (h : CircuitBreakerHealthModel) : Prop where
  down : ∃ st, h.venues v = some st ∧ st.state = .Down ∧ ¬ st.WindowsLow rnd h.cfg

theorem stuck_step (hstuck : Stuck rnd v h) {op : HealthOp} (hidle : op.Idle) :
    Stuck rnd v (h.step rnd op) := by
  obtain ⟨st, hst, hdown, hlow⟩ := hstuck.down
  refine ⟨⟨_, step_venues hst op, ?_⟩⟩
  rw [step_cfg]
  cases harr : op.arrival v with
  | none => exact ⟨hdown, hlow⟩
  | some arrival =>
    obtain ⟨e, now⟩ := arrival
    have hwindows := hidle.windows harr h.cfg st
    have hnot : ¬ (st.evaluation rnd h.cfg e now).allLow = true := fun hall =>
      hlow (windowsLow_of_allLow hwindows hall)
    refine ⟨?_, ?_⟩
    · rcases step_down rnd h.cfg e now hdown with ⟨hdown', -⟩ | ⟨hdown', -⟩ | ⟨hdown', -⟩ |
        ⟨-, hall, -⟩
      · exact hdown'
      · exact hdown'
      · exact hdown'
      · exact absurd hall hnot
    · exact fun hlow' => hlow ((windowsLow_congr ((evaluate_windows _ now).trans hwindows)).1 hlow')

/-- Without order traffic a venue whose windows are not low stays Down. -/
theorem quiet_down (hst : h.venues v = some st) (hdown : st.state = .Down)
    (hlow : ¬ st.WindowsLow rnd h.cfg) {ops : List HealthOp} (hidle : ∀ op ∈ ops, op.Idle)
    {st' : VenueState} (hst' : ((healthMachine rnd).run h ops).venues v = some st') :
    st'.state = .Down := by
  have hadm : (healthMachine rnd).Admits (fun _ op => op.Idle) h ops :=
    Machine.admits_of_forall hidle
  have hstuck : Stuck rnd v ((healthMachine rnd).run h ops) :=
    Machine.run_invariant (I := Stuck rnd v) (fun _ _ hs hop => stuck_step hs hop)
      ⟨⟨st, hst, hdown, hlow⟩⟩ hadm
  obtain ⟨st₁, hst₁, hdown₁, -⟩ := hstuck.down
  rw [hst'] at hst₁
  cases hst₁
  exact hdown₁

/-- With low windows, a reconnect at a later positive time starts a dwell or goes on with it, unless
it ends in probing. -/
theorem reconnect_cases {cfg : HealthConfig} (hdown : st.state = .Down)
    (hlow : st.WindowsLow rnd cfg) (htolerance : 0 ≤ cfg.heartbeatToleranceNs) {now : Timestamp}
    (hpos : 0 < now) (hsince : st.goodSince ≤ now) :
    let st' := st.step rnd cfg .reconnect now
    st'.state = .Probing ∨
      st'.state = .Down ∧ st'.WindowsLow rnd cfg ∧ st'.goodSince ≠ 0 ∧ st'.goodSince ≤ now := by
  have hwindows : (st.step rnd cfg .reconnect now).windows = st.windows := evaluate_windows _ now
  have hall := hlow.reconnect htolerance now
  rcases step_down rnd cfg .reconnect now hdown with ⟨-, hnot, -⟩ | ⟨hdown', -, -, hnow⟩ |
    ⟨hdown', -, hzero, -, hkept⟩ | ⟨hprobing, -⟩
  · rw [hall] at hnot
    cases hnot
  · exact Or.inr ⟨hdown', (windowsLow_congr hwindows).2 hlow, hnow.trans_ne hpos.ne', hnow.le⟩
  · exact Or.inr ⟨hdown', (windowsLow_congr hwindows).2 hlow, hkept.trans_ne hzero,
      hkept.trans_le hsince⟩
  · exact Or.inl hprobing

/-- A reconnect after the dwell ends in probing. -/
theorem reconnect_probing {cfg : HealthConfig} (hdown : st.state = .Down)
    (hlow : st.WindowsLow rnd cfg) (htolerance : 0 ≤ cfg.heartbeatToleranceNs) {now : Timestamp}
    (hzero : st.goodSince ≠ 0) (hlong : cfg.downDwellNs ≤ now - st.goodSince) :
    (st.step rnd cfg .reconnect now).state = .Probing := by
  have hall := hlow.reconnect htolerance now
  rcases step_down rnd cfg .reconnect now hdown with ⟨-, hnot, -⟩ | ⟨-, -, hzero', -⟩ |
    ⟨-, -, -, hshort, -⟩ | ⟨hprobing, -⟩
  · rw [hall] at hnot
    cases hnot
  · exact absurd hzero' hzero
  · exact absurd hlong (not_le.2 hshort)
  · exact hprobing

theorem reconnect_venues (rnd : ℚ → ℚ) (hst : h.venues v = some st) (now : Timestamp) :
    (h.step rnd (.reconnect v now)).venues v = some (st.step rnd h.cfg .reconnect now) := by
  have harr : HealthOp.arrival v (.reconnect v now) = some (.reconnect, now) := if_pos rfl
  rw [step_venues hst, harr]
  rfl

/-- A venue with low windows is brought to Probing by two reconnects at most. -/
theorem exists_quiet_probing (hst : h.venues v = some st) (hdown : st.state = .Down)
    (hlow : st.WindowsLow rnd h.cfg) (htolerance : 0 ≤ h.cfg.heartbeatToleranceNs)
    (hdwell : 0 ≤ h.cfg.downDwellNs) (t : Timestamp) :
    ∃ ops, Quiet t ops ∧ ∃ st', ((healthMachine rnd).run h ops).venues v = some st' ∧
      st'.state = .Probing := by
  obtain ⟨now, hnow, hpos, hsince⟩ : ∃ now, t ≤ now ∧ 0 < now ∧ st.goodSince ≤ now :=
    ⟨max t (max 1 st.goodSince), le_max_left _ _,
      lt_of_lt_of_le Int.one_pos ((le_max_left _ _).trans (le_max_right _ _)),
      (le_max_right _ _).trans (le_max_right _ _)⟩
  have hvenue := reconnect_venues rnd hst now
  rcases reconnect_cases hdown hlow htolerance hpos hsince with
    hprobing | ⟨hdown', hlow', hzero, hle⟩
  · refine ⟨[.reconnect v now], ⟨?_, by simpa [HealthOp.now] using hnow⟩, _, hvenue, hprobing⟩
    simp [HealthOp.Idle]
  · have hcfg : (h.step rnd (.reconnect v now)).cfg = h.cfg := step_cfg _ _
    have hvenue' := reconnect_venues rnd hvenue (now + h.cfg.downDwellNs)
    rw [hcfg] at hvenue'
    refine ⟨[.reconnect v now, .reconnect v (now + h.cfg.downDwellNs)], ⟨?_, ?_⟩, _, hvenue', ?_⟩
    · simp [HealthOp.Idle]
    · have hlater : now ≤ now + h.cfg.downDwellNs := le_add_of_nonneg_right hdwell
      simp [HealthOp.now, hnow, hlater, hnow.trans hlater]
    · refine reconnect_probing hdown' hlow' htolerance hzero ?_
      linarith

/-- **Down is a dead end exactly for venues with bad windows.** In every reachable state with the
default configuration, a venue that is Down can be brought to Probing by reconnects and ticks alone
if and only if the windows it went Down with have a low rejection rate and a low ack latency. -/
theorem down_escapes_iff (rnd : ℚ → ℚ) (ops : List HealthOp) (v : VenueId) {st : VenueState}
    (hst : ((healthMachine rnd).run (.init (.default rnd)) ops).venues v = some st)
    (hdown : st.state = .Down) (t : Timestamp) :
    (∃ more, Quiet t more ∧ ∃ st',
        ((healthMachine rnd).run (.init (.default rnd)) (ops ++ more)).venues v = some st' ∧
          st'.state = .Probing) ↔
      st.WindowsLow rnd (.default rnd) := by
  have hcfg : ((healthMachine rnd).run (.init (.default rnd)) ops).cfg = .default rnd :=
    run_cfg rnd _ ops
  constructor
  · rintro ⟨more, hquiet, st', hst', hprobing⟩
    by_contra hlow
    rw [Machine.run_append] at hst'
    rw [← hcfg] at hlow
    have hdown' := quiet_down hst hdown hlow hquiet.idle hst'
    rw [hprobing] at hdown'
    cases hdown'
  · intro hlow
    rw [← hcfg] at hlow
    have htolerance : (0 : ℤ) ≤ 5000000000 := by decide
    have hdwell : (0 : ℤ) ≤ 2000000000 := by decide
    obtain ⟨more, hquiet, hprobing⟩ := exists_quiet_probing hst hdown hlow
      (by rw [hcfg]; exact htolerance) (by rw [hcfg]; exact hdwell) t
    refine ⟨more, hquiet, ?_⟩
    rw [Machine.run_append]
    exact hprobing

end DeadEnd

/-- A venue is disconnected until it is Down. -/
def disconnected : List HealthOp := [.registerVenue 0 1, .disconnect 0 1, .tick 1000000001]

theorem disconnected_escapes :
    ∃ more, Quiet 1000000001 more ∧ ∃ st',
      ((healthMachine id).run (.init (.default id)) (disconnected ++ more)).venues 0 = some st' ∧
        st'.state = .Probing :=
  (down_escapes_iff id disconnected 0 rfl (by decide +kernel) 1000000001).2
    ⟨by decide +kernel, by decide +kernel⟩

/-- A venue rejects twenty orders and is Down a second later. -/
def rejectStorm : List HealthOp :=
  .registerVenue 0 1 :: List.replicate 20 (.reject 0 false 1) ++ [.tick 1000000001]

/-- It stays Down, whatever reconnects and ticks follow. -/
theorem rejectStorm_dead_end :
    ∃ st, ((healthMachine id).run (.init (.default id)) rejectStorm).venues 0 = some st ∧
      st.state = .Down ∧ ¬ ∃ t more, Quiet t more ∧ ∃ st',
        ((healthMachine id).run (.init (.default id)) (rejectStorm ++ more)).venues 0 = some st' ∧
          st'.state = .Probing := by
  refine ⟨_, rfl, by decide +kernel, ?_⟩
  rintro ⟨t, more, hquiet, st', hst', hprobing⟩
  rw [Machine.run_append] at hst'
  have hdown := quiet_down rfl (by decide +kernel)
    (fun hlow => absurd hlow.rejLow (by decide +kernel)) hquiet.idle hst'
  rw [hprobing] at hdown
  cases hdown

end Oms
