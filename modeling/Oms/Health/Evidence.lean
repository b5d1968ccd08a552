import Oms.Health.Reentry
import Oms.RingBuffer.Percentile

/-!
# What a venue is demoted for

The health model keeps windows of what it was told about a venue. Here its decisions are read off
what it was told.

* `Evidence`: what the model was told about a venue since it was registered, with `outcomes`,
  `ackLatencies`, `connectedAfter`, `lastSeenAfter`;
* `Silent`, `Failing`, `Lagging`: the three signals; `Cause`: the reason there is for a demotion;
* `VenueState.Shows`: the state of a venue agrees with what was told; `shows_step`, `shows_run`;
* `assess_cause`: the signals that the model finds are those there are;
* `demotions_have_causes`: a venue is demoted for the reason it shows, and at once.
-/

namespace Oms

/-- What the model was told about a venue, with the times. -/
abbrev Evidence := List (HealthEvent × Timestamp)

/-! ### What was told -/

/-- What an event says about the order path: `1` for a failure, `0` for a success. Rejects of
cancels that came too late say nothing. -/
def HealthEvent.outcome : HealthEvent → List UInt8
  | .ack _ => [0]
  | .reject false => [1]
  | .timeout => [1]
  | _ => []

def HealthEvent.latency : HealthEvent → List LatencyNs
  | .ack lat => [lat]
  | _ => []

def HealthEvent.connectedAfter (connected : Bool) : HealthEvent → Bool
  | .disconnect => false
  | .reconnect => true
  | _ => connected

/-- When the venue was last seen. A timeout, a disconnect and a tick are no signs of it. -/
def HealthEvent.lastSeenAfter (lastSeen now : Timestamp) : HealthEvent → Timestamp
  | .orderSent ts => ts
  | .ack _ | .reject _ | .fill | .reconnect => now
  | .timeout | .disconnect | .tick => lastSeen

/-- The last outcomes, as many as the window holds. -/
def outcomes (cfg : HealthConfig) (told : Evidence) : List UInt8 :=
  (told.flatMap (·.1.outcome)).rtake cfg.rejectWindow

/-- The last ack latencies, as many as the window holds. -/
def ackLatencies (cfg : HealthConfig) (told : Evidence) : List LatencyNs :=
  (told.flatMap (·.1.latency)).rtake cfg.latencyWindow

def connectedAfter (told : Evidence) : Bool :=
  told.foldl (fun connected e => e.1.connectedAfter connected) true

def lastSeenAfter (registered : Timestamp) (told : Evidence) : Timestamp :=
  told.foldl (fun lastSeen e => e.1.lastSeenAfter lastSeen e.2) registered

/-! ### The signals -/

section Signals

variable (rnd : ℚ → ℚ) (cfg : HealthConfig) (registered now : Timestamp) (told : Evidence)

/-- The venue is disconnected, or nothing was seen of it for too long. -/
def Silent : Prop :=
  connectedAfter told = false ∨
    cfg.heartbeatToleranceNs < now - lastSeenAfter registered told

/-- The window holds enough outcomes, and too many of them are failures. -/
def Failing : Prop :=
  let window := outcomes cfg told
  cfg.rejectMinSamples ≤ window.length ∧
    cfg.rejectHigh < rnd (rnd (window.countP (· == 1)) / rnd window.length)

/-- The 99th percentile of the ack latencies in the window is too high. -/
def Lagging : Prop :=
  let window := ackLatencies cfg told
  window ≠ [] ∧ cfg.latencyHighNs <
    RingBuffer.percentile rnd { capacity := window.length, buf := window } (rnd (99 / 100))

/-- The reason that there is for a demotion. Silence goes before failures, and failures before
latencies. -/
def Cause : TripReason → Prop
  | .Connectivity => Silent cfg registered now told
  | .RejectionRate => ¬ Silent cfg registered now told ∧ Failing rnd cfg told
  | .AckLatency => ¬ Silent cfg registered now told ∧ ¬ Failing rnd cfg told ∧
      Lagging rnd cfg told ∧ ∃ lat ∈ ackLatencies cfg told, cfg.latencyHighNs < lat
  | .None => ¬ Silent cfg registered now told ∧ ¬ Failing rnd cfg told ∧ ¬ Lagging rnd cfg told

end Signals

/-! ### What a venue shows -/

/-- The state of a venue agrees with what was told about it since it was registered. -/
structure VenueState.Shows (cfg : HealthConfig) (registered : Timestamp) (told : Evidence)
    (st : VenueState) : Prop where
  connected : st.connected = connectedAfter told
  lastSeen : st.lastSeen = lastSeenAfter registered told
  rejectsSize : st.rejects.capacity = cfg.rejectWindow
  rejects : st.rejects.Holds (told.flatMap (·.1.outcome))
  latenciesSize : st.latencies.capacity = cfg.latencyWindow
  latencies : st.latencies.Holds (told.flatMap (·.1.latency))

/-- The windows of a configuration can hold something, and the percentiles are exact on them. -/
structure HealthConfig.Windowed (cfg : HealthConfig) : Prop where
  rejects : 0 < cfg.rejectWindow
  latencies : 0 < cfg.latencyWindow
  exact : cfg.latencyWindow ≤ 2 ^ 53

section Shows

variable {rnd : ℚ → ℚ} {cfg : HealthConfig} {registered now : Timestamp} {told : Evidence}
  {st : VenueState} {e : HealthEvent}

theorem shows_init (cfg : HealthConfig) (now : Timestamp) :
    (VenueState.init cfg now).Shows cfg now [] where
  connected := rfl
  lastSeen := rfl
  rejectsSize := rfl
  rejects := RingBuffer.holds_new _
  latenciesSize := rfl
  latencies := RingBuffer.holds_new _

theorem flatMap_snoc {α : Type} (f : HealthEvent → List α) :
    (told ++ [(e, now)]).flatMap (fun x => f x.1) = told.flatMap (fun x => f x.1) ++ f e := by
  rw [List.flatMap_append, List.flatMap_singleton]

/-- An event is recorded as it was told. -/
theorem VenueState.Shows.record (hcfg : cfg.Windowed) (h : st.Shows cfg registered told)
    (e : HealthEvent) (now : Timestamp) :
    (st.record cfg now e).Shows cfg registered (told ++ [(e, now)]) := by
  have hrejects : 0 < st.rejects.capacity := h.rejectsSize ▸ hcfg.rejects
  have hlatencies : 0 < st.latencies.capacity := h.latenciesSize ▸ hcfg.latencies
  have hfailed := h.rejects.push hrejects 1
  have hpassed := h.rejects.push hrejects 0
  have hconn := h.connected
  have hseen := h.lastSeen
  have hsnoc : connectedAfter (told ++ [(e, now)]) = e.connectedAfter st.connected := by
    rw [connectedAfter, List.foldl_append, hconn]
    rfl
  have hsnoc' : lastSeenAfter registered (told ++ [(e, now)]) =
      e.lastSeenAfter st.lastSeen now := by
    rw [lastSeenAfter, List.foldl_append, hseen]
    rfl
  refine ⟨?_, ?_, ?_, ?_, ?_, ?_⟩
  · rw [hsnoc]
    cases e <;> rfl
  · rw [hsnoc']
    cases e <;> rfl
  · rw [← h.rejectsSize]
    cases e with
    | reject benign => cases benign <;> rfl
    | _ => rfl
  · rw [flatMap_snoc]
    cases e with
    | ack lat => exact hpassed
    | reject benign =>
      cases benign with
      | false => exact hfailed
      | true => exact (List.append_nil _).symm ▸ h.rejects
    | timeout => exact hfailed
    | _ => exact (List.append_nil _).symm ▸ h.rejects
  · rw [← h.latenciesSize]
    cases e <;> rfl
  · rw [flatMap_snoc]
    cases e with
    | ack lat => exact h.latencies.push hlatencies lat
    | _ => exact (List.append_nil _).symm ▸ h.latencies

/-- An evaluation changes nothing that was told. -/
theorem VenueState.Shows.evaluate (h : st.Shows cfg registered told) (now : Timestamp) :
    (st.evaluate rnd cfg now).Shows cfg registered told := by
  have hsame : ∀ st' : VenueState, st'.connected = st.connected → st'.lastSeen = st.lastSeen →
      st'.rejects = st.rejects → st'.latencies = st.latencies →
      st'.Shows cfg registered told := by
    intro st' hconn hseen hrejects hlatencies
    exact ⟨hconn.trans h.connected, hseen.trans h.lastSeen, hrejects ▸ h.rejectsSize,
      hrejects ▸ h.rejects, hlatencies ▸ h.latenciesSize, hlatencies ▸ h.latencies⟩
  unfold VenueState.evaluate
  dsimp only
  cases st.state with
  | _ => dsimp only; split_ifs <;> exact hsame _ rfl rfl rfl rfl

theorem VenueState.Shows.step (hcfg : cfg.Windowed) (h : st.Shows cfg registered told)
    (e : HealthEvent) (now : Timestamp) :
    (st.step rnd cfg e now).Shows cfg registered (told ++ [(e, now)]) :=
  (h.record hcfg e now).evaluate now

/-- Through a whole run. -/
theorem shows_run {h : CircuitBreakerHealthModel} {v : VenueId} (hcfg : h.cfg.Windowed)
    (hst : h.venues v = some st) (hshows : st.Shows h.cfg registered told)
    (ops : List HealthOp) :
    ∃ st', ((healthMachine rnd).run h ops).venues v = some st' ∧
      st'.Shows h.cfg registered (told ++ ops.filterMap (HealthOp.arrival v)) := by
  induction ops generalizing h st told with
  | nil =>
    refine ⟨st, hst, ?_⟩
    rw [List.filterMap_nil, List.append_nil]
    exact hshows
  | cons op ops ih =>
    have hvenues : (h.step rnd op).venues v = _ := step_venues hst op
    have hcfg' : (h.step rnd op).cfg.Windowed := by
      rw [step_cfg]
      exact hcfg
    cases harr : op.arrival v with
    | none =>
      rw [harr] at hvenues
      rw [List.filterMap_cons_none harr]
      have hnext := ih hcfg' hvenues (by rwa [step_cfg])
      rwa [step_cfg] at hnext
    | some arrival =>
      rw [harr] at hvenues
      rw [List.filterMap_cons_some harr, List.append_cons]
      have hnext := ih hcfg' hvenues (by
        rw [step_cfg]
        exact hshows.step hcfg arrival.1 arrival.2)
      rwa [step_cfg] at hnext

end Shows

/-! ### What the model finds -/

section Assess

variable {rnd : ℚ → ℚ} {cfg : HealthConfig} {registered now : Timestamp} {told : Evidence}
  {st : VenueState}

theorem connBad_iff (h : st.Shows cfg registered told) :
    st.connBad cfg now = true ↔ Silent cfg registered now told := by
  unfold VenueState.connBad Silent
  rw [Bool.or_eq_true, Bool.not_eq_true', decide_eq_true_iff, h.connected, h.lastSeen]

theorem rejHigh_iff (hrnd : Rounding 53 rnd) (h : st.Shows cfg registered told) :
    st.rejHigh rnd cfg = true ↔ Failing rnd cfg told := by
  have hsize : st.rejects.size = (outcomes cfg told).length := by
    rw [h.rejects.size_eq, h.rejectsSize]
    rfl
  have hfraction : st.rejects.fraction rnd (· == 1) =
      rnd (rnd ((outcomes cfg told).countP (· == 1)) / rnd (outcomes cfg told).length) := by
    have hcount : st.rejects.buf.countP (· == 1) = (outcomes cfg told).countP (· == 1) := by
      rw [h.rejects.perm.countP_eq, h.rejectsSize]
      rfl
    unfold RingBuffer.fraction
    rw [hcount, hsize]
    split_ifs with hempty
    · -- of nothing, the share is zero
      have hzero : rnd 0 = 0 := by simpa using hrnd.exact 0 (by simp)
      have hnil : (outcomes cfg told).length = 0 := by
        rw [h.rejects.empty_iff, h.rejectsSize] at hempty
        rw [List.length_eq_zero_iff]
        exact hempty
      rw [hnil, Nat.cast_zero, hzero, div_zero, hzero]
    · rfl
  unfold VenueState.rejHigh Failing
  rw [Bool.and_eq_true, decide_eq_true_iff, decide_eq_true_iff, hsize, hfraction]

theorem latHigh_iff (h : st.Shows cfg registered told) :
    st.latHigh rnd cfg = true ↔ Lagging rnd cfg told := by
  have hempty : st.latencies.empty = true ↔ ackLatencies cfg told = [] := by
    rw [h.latencies.empty_iff, h.latenciesSize]
    rfl
  have hperm : st.latencies.buf.Perm (ackLatencies cfg told) := by
    have hperm := h.latencies.perm
    rwa [h.latenciesSize] at hperm
  have hpercentile : st.latencies.percentile rnd (rnd (99 / 100)) = RingBuffer.percentile rnd
      { capacity := (ackLatencies cfg told).length, buf := ackLatencies cfg told }
        (rnd (99 / 100)) := RingBuffer.percentile_congr hperm
  unfold VenueState.latHigh Lagging
  rw [Bool.and_eq_true, Bool.not_eq_true', ← Bool.not_eq_true, hempty, decide_eq_true_iff,
    hpercentile]

/-- **A high percentile has an ack behind it.** -/
theorem Lagging.exists_ack (hcfg : cfg.Windowed) (hrnd : Rounding 53 rnd)
    (hsmall : ∀ lat ∈ ackLatencies cfg told, |lat| ≤ 2 ^ 52) (h : Lagging rnd cfg told) :
    ∃ lat ∈ ackLatencies cfg told, cfg.latencyHighNs < lat := by
  obtain ⟨hne, hlt⟩ := h
  have hsize : (ackLatencies cfg told).length ≤ 2 ^ 53 := by
    refine le_trans ?_ hcfg.exact
    rw [ackLatencies, List.rtake, List.length_drop]
    omega
  have hring : RingBuffer.Small
      { capacity := (ackLatencies cfg told).length, buf := ackLatencies cfg told } :=
    ⟨hsize, hsmall⟩
  exact hring.exists_lt_of_lt_percentile hrnd hne hlt

/-- The signals that the model finds are those there are. -/
theorem assess_cause (hcfg : cfg.Windowed) (hrnd : Rounding 53 rnd)
    (hsmall : ∀ lat ∈ ackLatencies cfg told, |lat| ≤ 2 ^ 52) (h : st.Shows cfg registered told) :
    Cause rnd cfg registered now told (st.assess rnd cfg now).reason ∧
      ((st.assess rnd cfg now).anyHigh = true ↔ (st.assess rnd cfg now).reason ≠ .None) := by
  have hsilent : st.connBad cfg now = true ↔ Silent cfg registered now told := connBad_iff h
  have hfailing : st.rejHigh rnd cfg = true ↔ Failing rnd cfg told := rejHigh_iff hrnd h
  have hlagging : st.latHigh rnd cfg = true ↔ Lagging rnd cfg told := latHigh_iff h
  unfold VenueState.assess
  dsimp only
  cases hconn : st.connBad cfg now with
  | true => exact ⟨hsilent.1 hconn, by simp⟩
  | false =>
    rw [hconn, Bool.false_eq_true, false_iff] at hsilent
    cases hrej : st.rejHigh rnd cfg with
    | true => exact ⟨⟨hsilent, hfailing.1 hrej⟩, by simp⟩
    | false =>
      rw [hrej, Bool.false_eq_true, false_iff] at hfailing
      cases hlat : st.latHigh rnd cfg with
      | true =>
        have hlag := hlagging.1 hlat
        exact ⟨⟨hsilent, hfailing, hlag, hlag.exists_ack hcfg hrnd hsmall⟩, by simp⟩
      | false =>
        rw [hlat, Bool.false_eq_true, false_iff] at hlagging
        exact ⟨⟨hsilent, hfailing, hlagging⟩, by simp⟩

end Assess

/-! ### Demotions -/

/-- A change of state for the worse. A venue that goes from Down to Probing gets better. -/
def HealthState.Demotes : HealthState → HealthState → Prop
  | .Healthy, after => after ≠ .Healthy
  | .Degraded, after => after = .Down
  | .Probing, after => after = .Down
  | .Down, _ => False

section Demotions

variable (rnd : ℚ → ℚ) {cfg : HealthConfig}

/-- A demotion takes a signal, and shows its reason. A venue that is Healthy or probing is demoted
by any signal. -/
theorem evaluate_demotes (st : VenueState) (now : Timestamp) :
    let c := st.assess rnd cfg now
    let st' := st.evaluate rnd cfg now
    (st.state.Demotes st'.state → c.anyHigh = true ∧ st'.reason = c.reason) ∧
      (st.state = .Healthy ∨ st.state = .Probing → c.anyHigh = true →
        st.state.Demotes st'.state) := by
  unfold VenueState.evaluate
  dsimp only
  cases hstate : st.state with
  | Healthy =>
    dsimp only
    split_ifs with hhigh
    · exact ⟨fun _ => ⟨hhigh, rfl⟩, fun _ _ => HealthState.noConfusion⟩
    · exact ⟨fun h => absurd hstate h, fun _ h => absurd h hhigh⟩
  | Degraded =>
    dsimp only
    refine ⟨fun h => ?_, fun h => h.elim HealthState.noConfusion HealthState.noConfusion⟩
    split_ifs at h ⊢ with hlow hlong
    · cases h
    · exact ⟨(Bool.and_eq_true _ _ ▸ hlong).1, rfl⟩
    · cases hstate.symm.trans h
  | Down => exact ⟨False.elim, fun h => h.elim HealthState.noConfusion HealthState.noConfusion⟩
  | Probing =>
    dsimp only
    split_ifs with hhigh hacks
    · exact ⟨fun _ => ⟨hhigh, rfl⟩, fun _ _ => rfl⟩
    · exact ⟨fun h => HealthState.noConfusion h, fun _ h => absurd h hhigh⟩
    · exact ⟨fun h => HealthState.noConfusion (hstate.symm.trans h), fun _ h => absurd h hhigh⟩

/-- An ack in the window was reported. -/
theorem reported_of_mem {v : VenueId} {lat : LatencyNs} {ops : List HealthOp}
    (hlat : lat ∈ ackLatencies cfg (ops.filterMap (HealthOp.arrival v))) :
    ∃ t, HealthOp.ack v lat t ∈ ops := by
  obtain ⟨⟨e, t⟩, he, hmem⟩ := List.mem_flatMap.1 (List.mem_of_mem_drop hlat)
  obtain ⟨op, hop, harr⟩ := List.mem_filterMap.1 he
  have hack : e = .ack lat := by
    cases e with
    | ack lat' =>
      cases List.mem_singleton.1 hmem
      rfl
    | _ => cases hmem
  subst hack
  refine ⟨t, ?_⟩
  cases op with
  | ack u lat' now =>
    dsimp only [HealthOp.arrival] at harr
    split_ifs at harr with huv
    cases harr
    exact huv ▸ hop
  | registerVenue u now => cases harr
  | tick now => cases harr
  | _ =>
    dsimp only [HealthOp.arrival] at harr
    split_ifs at harr
    cases harr

/-- **Demotions have causes.** In every run of the health model, at every event of a venue: if the
venue is demoted, then there is a cause for it in what was told about the venue, and its reason
names the cause. A venue that is Healthy or probing is demoted at once if there is a cause. What
there is a cause for is read off the last connect or disconnect, the time the venue was last seen,
the last outcomes and the last ack latencies; behind `AckLatency` there is an ack that took too
long. -/
theorem demotions_have_causes (hrnd : Rounding 53 rnd) (hcfg : cfg.Windowed) (v : VenueId)
    (pre ops : List HealthOp) (registered : Timestamp) (op : HealthOp) {e : HealthEvent}
    {now : Timestamp} (hnew : ((healthMachine rnd).run (.init cfg) pre).venues v = none)
    (harr : op.arrival v = some (e, now))
    (hsmall : ∀ op' ∈ ops ++ [op], ∀ lat t, op' = .ack v lat t → |lat| ≤ 2 ^ 52) :
    let h := (healthMachine rnd).run (.init cfg) (pre ++ .registerVenue v registered :: ops)
    let told := (ops ++ [op]).filterMap (HealthOp.arrival v)
    ∃ st st', h.venues v = some st ∧ (h.step rnd op).venues v = some st' ∧
      (st.state.Demotes st'.state →
        st'.reason ≠ .None ∧ Cause rnd cfg registered now told st'.reason) ∧
      (st.state = .Healthy ∨ st.state = .Probing → ¬ st.state.Demotes st'.state →
        Cause rnd cfg registered now told .None) := by
  intro h told
  let h₀ := (healthMachine rnd).run (.init cfg) (pre ++ [.registerVenue v registered])
  have hcfg₀ : h₀.cfg = cfg := run_cfg rnd _ _
  have hregistered : h₀.venues v = some (.init cfg registered) := by
    have hstep : h₀ = ((healthMachine rnd).run (.init cfg) pre).registerVenue v registered :=
      Machine.run_append _ _ _ _
    rw [hstep, registerVenue_venues, if_pos ⟨rfl, hnew⟩, run_cfg]
    rfl
  have hrun : h = (healthMachine rnd).run h₀ ops := by
    show (healthMachine rnd).run _ (pre ++ .registerVenue v registered :: ops) = _
    rw [List.append_cons, Machine.run_append]
  have hinit : (VenueState.init cfg registered).Shows h₀.cfg registered [] := by
    rw [hcfg₀]
    exact shows_init cfg registered
  have hwindowed : h₀.cfg.Windowed := by rwa [hcfg₀]
  obtain ⟨st, hst, hshows⟩ := shows_run hwindowed hregistered hinit ops
  rw [hcfg₀, List.nil_append] at hshows
  rw [← hrun] at hst
  have hcfg' : h.cfg = cfg := run_cfg rnd _ _
  have hst' : (h.step rnd op).venues v = some (st.step rnd cfg e now) := by
    have hvenues : (h.step rnd op).venues v = _ := step_venues hst op
    rw [hvenues, harr, hcfg']
    rfl
  have htold : told = ops.filterMap (HealthOp.arrival v) ++ [(e, now)] := by
    show (ops ++ [op]).filterMap (HealthOp.arrival v) = _
    rw [List.filterMap_append, List.filterMap_cons_some harr, List.filterMap_nil]
  have hrecorded : (st.record cfg now e).Shows cfg registered told :=
    htold ▸ hshows.record hcfg e now
  have hacks : ∀ lat ∈ ackLatencies cfg told, |lat| ≤ 2 ^ 52 := by
    intro lat hlat
    obtain ⟨t, hop⟩ := reported_of_mem hlat
    exact hsmall _ hop lat t rfl
  obtain ⟨hcause, hhigh⟩ : Cause rnd cfg registered now told _ ∧ _ :=
    assess_cause hcfg hrnd hacks hrecorded
  obtain ⟨hdemoted, hsignal⟩ :
      (_ → _ ∧ (st.step rnd cfg e now).reason = _) ∧ _ :=
    evaluate_demotes rnd (st.record cfg now e) now
  rw [record_state] at hdemoted hsignal
  refine ⟨st, st.step rnd cfg e now, hst, hst', fun hdem => ?_, fun hup hdem => ?_⟩
  · obtain ⟨hany, hreason⟩ := hdemoted hdem
    rw [show (st.step rnd cfg e now).reason = _ from hreason]
    exact ⟨hhigh.1 hany, hcause⟩
  · have hnone : ((st.record cfg now e).assess rnd cfg now).reason = .None := by
      by_contra hne
      exact hdem (hsignal hup (hhigh.2 hne))
    rw [← hnone]
    exact hcause

end Demotions

/-- A slow first ack is the cause of a demotion. -/
theorem demotions_have_causes_slow :
    let cfg := HealthConfig.default id
    let h := (healthMachine id).run (.init cfg) [.registerVenue 0 1]
    ∃ st', (h.step id (.ack 0 6000000 2)).venues 0 = some st' ∧ st'.reason = .AckLatency ∧
      Cause id cfg 1 2 [(.ack 6000000, 2)] .AckLatency := by
  intro cfg h
  have hcfg : cfg.Windowed := ⟨by decide, by decide, by decide⟩
  have hsmall : ∀ op' ∈ [] ++ [HealthOp.ack 0 6000000 2], ∀ lat t, op' = .ack 0 lat t →
      |lat| ≤ 2 ^ 52 := by
    intro op' hop lat t heq
    cases List.mem_singleton.1 hop
    cases heq
    decide
  obtain ⟨st, st', hst, hst', hdemoted, -⟩ := demotions_have_causes id ⟨monotone_id, fun _ _ => rfl⟩
    hcfg 0 [] [] 1 (.ack 0 6000000 2) rfl rfl hsmall
  have hbefore : h.state 0 = some .Healthy := by decide +kernel
  have hafter : (h.step id (.ack 0 6000000 2)).state 0 = some .Degraded := by decide +kernel
  have hreason : ((h.step id (.ack 0 6000000 2)).venues 0).map (·.reason) = some .AckLatency := by
    decide +kernel
  have hstate : st.state = .Healthy := by
    have hmap : (h.venues 0).map (·.state) = some .Healthy := hbefore
    rw [show h.venues 0 = some st from hst] at hmap
    exact Option.some_injective _ hmap
  have hstate' : st'.state = .Degraded := by
    have hmap : ((h.step id (.ack 0 6000000 2)).venues 0).map (·.state) = some .Degraded := hafter
    rw [show (h.step id (.ack 0 6000000 2)).venues 0 = some st' from hst'] at hmap
    exact Option.some_injective _ hmap
  rw [show (h.step id (.ack 0 6000000 2)).venues 0 = some st' from hst'] at hreason
  have hlatency : st'.reason = .AckLatency := Option.some_injective _ hreason
  refine ⟨st', hst', hlatency, ?_⟩
  rw [hstate, hstate'] at hdemoted
  rw [← hlatency]
  exact (hdemoted HealthState.noConfusion).2

end Oms
