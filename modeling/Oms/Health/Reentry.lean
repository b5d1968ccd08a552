import Mathlib.Algebra.Order.Ring.Int
import Oms.Health

/-!
# How a venue comes back from Down

* `Evaluation`, `CircuitBreakerHealthModel.evaluations`: what the evaluations of a venue have found
  in a run, one after the other;
* `DwellsSince`, `Probes`, `Recovered`: the way back, as patterns of such a trace;
* `Accounts`, `accounts_step`: the state of a venue tells how far it has come;
* `recovered_of_healthy`: a venue that was Down and is Healthy has gone the whole way.
-/

namespace Oms

/-! ### Traces -/

/-- One evaluation of a venue. -/
structure Evaluation where
  now : Timestamp
  allLow : Bool
  anyHigh : Bool
  /-- an ack within the trip latency came with it -/
  goodAck : Bool
  before : HealthState
  after : HealthState
  deriving DecidableEq

def HealthEvent.goodAck (cfg : HealthConfig) : HealthEvent → Bool
  | .ack lat => lat ≤ cfg.latencyHighNs
  | _ => false

/-- What an event at a venue arrives with, at a given venue. -/
def HealthOp.arrival (v : VenueId) : HealthOp → Option (HealthEvent × Timestamp)
  | .registerVenue _ _ => none
  | .orderSent u ts now => if u = v then some (.orderSent ts, now) else none
  | .ack u lat now => if u = v then some (.ack lat, now) else none
  | .reject u benign now => if u = v then some (.reject benign, now) else none
  | .fill u now => if u = v then some (.fill, now) else none
  | .timeout u now => if u = v then some (.timeout, now) else none
  | .disconnect u now => if u = v then some (.disconnect, now) else none
  | .reconnect u now => if u = v then some (.reconnect, now) else none
  | .tick now => some (.tick, now)

section Traces

variable (rnd : ℚ → ℚ)

/-- The evaluation that an event causes. -/
def VenueState.evaluation (cfg : HealthConfig) (e : HealthEvent) (now : Timestamp)
    (v : VenueState) : Evaluation :=
  let c := (v.record cfg now e).assess rnd cfg now
  { now := now
    allLow := c.allLow
    anyHigh := c.anyHigh
    goodAck := e.goodAck cfg
    before := v.state
    after := (v.step rnd cfg e now).state }

/-- The evaluation of a venue by one operation, if there is one. -/
def CircuitBreakerHealthModel.evaluation (h : CircuitBreakerHealthModel) (v : VenueId)
    (op : HealthOp) : List Evaluation :=
  match h.venues v, op.arrival v with
  | some st, some (e, now) => [st.evaluation rnd h.cfg e now]
  | _, _ => []

/-- The evaluations of a venue in a run. -/
def CircuitBreakerHealthModel.evaluations (v : VenueId) :
    CircuitBreakerHealthModel → List HealthOp → List Evaluation
  | _, [] => []
  | h, op :: ops => h.evaluation rnd v op ++ (h.step rnd op).evaluations v ops

end Traces

/-! ### The way back -/

/-- The last evaluation left the venue Down. -/
def EndsDown (trace : List Evaluation) : Prop := ∃ o ∈ trace.getLast?, o.after = .Down

/-- The venue was Down, and the evaluations from one at time `t` on have left it Down and found all
signals low. -/
def DwellsSince (t : Timestamp) (trace : List Evaluation) : Prop :=
  ∃ past first rest, trace = past ++ first :: rest ∧ EndsDown past ∧ first.now = t ∧
    ∀ o ∈ first :: rest, o.before = .Down ∧ o.after = .Down ∧ o.allLow = true

/-- After a dwell of at least `downDwellNs` an evaluation that found all signals low has moved the
venue from Down to Probing. Those since then have left it there, and found no signal high. With
them came `n` acks within the trip latency. -/
def Probes (cfg : HealthConfig) (n : ℤ) (trace : List Evaluation) : Prop :=
  ∃ dwell entry probing t, trace = dwell ++ entry :: probing ∧ DwellsSince t dwell ∧
    (entry.before = .Down ∧ entry.after = .Probing ∧ entry.allLow = true) ∧
    t ≤ entry.now - cfg.downDwellNs ∧
    (∀ o ∈ probing, o.before = .Probing ∧ o.after = .Probing ∧ o.anyHigh = false) ∧
    n = probing.countP (·.goodAck)

/-- After probing, with at least `probeRequired` acks within the trip latency, an evaluation that
found no signal high has moved the venue from Probing to Healthy. Since then it was neither Down
nor Probing. -/
def Recovered (cfg : HealthConfig) (trace : List Evaluation) : Prop :=
  ∃ probe exit past n, trace = probe ++ exit :: past ∧ Probes cfg n probe ∧
    (exit.before = .Probing ∧ exit.after = .Healthy ∧ exit.anyHigh = false) ∧
    cfg.probeRequired ≤ n + (if exit.goodAck then 1 else 0) ∧
    ∀ o ∈ past, o.after = .Healthy ∨ o.after = .Degraded

section Patterns

variable {cfg : HealthConfig} {trace : List Evaluation} {o : Evaluation} {t : Timestamp} {n : ℤ}

theorem endsDown_snoc (ho : o.after = .Down) : EndsDown (trace ++ [o]) :=
  ⟨o, by simp, ho⟩

theorem EndsDown.start (h : EndsDown trace)
    (ho : o.before = .Down ∧ o.after = .Down ∧ o.allLow = true) :
    DwellsSince o.now (trace ++ [o]) :=
  ⟨trace, o, [], rfl, h, rfl, by simpa using ho⟩

theorem DwellsSince.snoc (h : DwellsSince t trace)
    (ho : o.before = .Down ∧ o.after = .Down ∧ o.allLow = true) :
    DwellsSince t (trace ++ [o]) := by
  obtain ⟨past, first, rest, rfl, hpast, hfirst, hrest⟩ := h
  refine ⟨past, first, rest ++ [o], by simp, hpast, hfirst, ?_⟩
  intro o' ho'
  rw [← List.cons_append, List.mem_append, List.mem_singleton] at ho'
  rcases ho' with ho' | rfl
  · exact hrest o' ho'
  · exact ho

theorem DwellsSince.probe (h : DwellsSince t trace)
    (ho : o.before = .Down ∧ o.after = .Probing ∧ o.allLow = true)
    (hlong : t ≤ o.now - cfg.downDwellNs) : Probes cfg 0 (trace ++ [o]) :=
  ⟨trace, o, [], t, rfl, h, ho, hlong, by simp, by simp⟩

theorem Probes.snoc (h : Probes cfg n trace)
    (ho : o.before = .Probing ∧ o.after = .Probing ∧ o.anyHigh = false) :
    Probes cfg (n + if o.goodAck then 1 else 0) (trace ++ [o]) := by
  obtain ⟨dwell, entry, probing, t, rfl, hdwell, hentry, hlong, hprobing, rfl⟩ := h
  refine ⟨dwell, entry, probing ++ [o], t, by simp, hdwell, hentry, hlong, ?_, ?_⟩
  · intro o' ho'
    rcases List.mem_append.1 ho' with ho' | ho'
    · exact hprobing o' ho'
    · cases List.mem_singleton.1 ho'
      exact ho
  · rw [List.countP_append, List.countP_singleton]
    push_cast
    rfl

theorem Probes.recover (h : Probes cfg n trace)
    (ho : o.before = .Probing ∧ o.after = .Healthy ∧ o.anyHigh = false)
    (hacks : cfg.probeRequired ≤ n + if o.goodAck then 1 else 0) : Recovered cfg (trace ++ [o]) :=
  ⟨trace, o, [], n, rfl, h, ho, hacks, by simp⟩

theorem Recovered.snoc (h : Recovered cfg trace) (ho : o.after = .Healthy ∨ o.after = .Degraded) :
    Recovered cfg (trace ++ [o]) := by
  obtain ⟨probe, exit, past, n, rfl, hprobe, hexit, hacks, hpast⟩ := h
  refine ⟨probe, exit, past ++ [o], n, by simp, hprobe, hexit, hacks, ?_⟩
  intro o' ho'
  rcases List.mem_append.1 ho' with ho' | ho'
  · exact hpast o' ho'
  · cases List.mem_singleton.1 ho'
    exact ho

end Patterns

/-! ### One event -/

section Record

variable {cfg : HealthConfig} {v : VenueState} {now : Timestamp}

@[simp] theorem record_state (e : HealthEvent) : (v.record cfg now e).state = v.state := by
  cases e <;> rfl

@[simp] theorem record_goodSince (e : HealthEvent) :
    (v.record cfg now e).goodSince = v.goodSince := by
  cases e <;> rfl

/-- A venue that probes counts the acks within the trip latency. -/
theorem record_probeSuccess (e : HealthEvent) (h : v.state = .Probing) :
    (v.record cfg now e).probeSuccess = v.probeSuccess + if e.goodAck cfg then 1 else 0 := by
  cases e with
  | ack lat =>
    simp only [VenueState.record, HealthEvent.goodAck, h, true_and, decide_eq_true_eq]
    split_ifs
    · rfl
    · exact (add_zero _).symm
  | _ => exact (add_zero _).symm

end Record

section Step

variable (rnd : ℚ → ℚ) (cfg : HealthConfig) (e : HealthEvent) (now : Timestamp) {v : VenueState}

theorem step_healthy (h : v.state = .Healthy) :
    (v.step rnd cfg e now).state = .Healthy ∨ (v.step rnd cfg e now).state = .Degraded := by
  have hstate : (v.record cfg now e).state = .Healthy := (record_state e).trans h
  unfold VenueState.step VenueState.evaluate
  rw [hstate]
  dsimp only
  split_ifs
  · exact Or.inr rfl
  · exact Or.inl hstate

theorem step_degraded (h : v.state = .Degraded) :
    let v' := v.step rnd cfg e now
    (v'.state = .Healthy ∨ v'.state = .Degraded) ∨ v'.state = .Down ∧ v'.goodSince = 0 := by
  have hstate : (v.record cfg now e).state = .Degraded := (record_state e).trans h
  unfold VenueState.step VenueState.evaluate
  rw [hstate]
  dsimp only
  split_ifs
  · exact Or.inl (Or.inl rfl)
  · exact Or.inr ⟨rfl, rfl⟩
  · exact Or.inl (Or.inr hstate)

/-- What an event does to a venue that is Down: its dwell is broken off, starts, goes on or ends in
probing. -/
theorem step_down (h : v.state = .Down) :
    let v' := v.step rnd cfg e now
    let low := (v.evaluation rnd cfg e now).allLow
    (v'.state = .Down ∧ low = false ∧ v'.goodSince = 0) ∨
      (v'.state = .Down ∧ low = true ∧ v.goodSince = 0 ∧ v'.goodSince = now) ∨
      (v'.state = .Down ∧ low = true ∧ v.goodSince ≠ 0 ∧ now - v.goodSince < cfg.downDwellNs ∧
        v'.goodSince = v.goodSince) ∨
      (v'.state = .Probing ∧ low = true ∧ v.goodSince ≠ 0 ∧ cfg.downDwellNs ≤ now - v.goodSince ∧
        v'.probeSuccess = 0) := by
  have hstate : (v.record cfg now e).state = .Down := (record_state e).trans h
  have hsince : (v.record cfg now e).goodSince = v.goodSince := record_goodSince e
  unfold VenueState.step VenueState.evaluate VenueState.evaluation
  rw [hstate, ← hsince]
  dsimp only
  split_ifs with hlow hzero hlong
  · exact Or.inr (Or.inl ⟨rfl, hlow, hzero, rfl⟩)
  · exact Or.inr (Or.inr (Or.inr ⟨rfl, hlow, hzero, hlong, rfl⟩))
  · exact Or.inr (Or.inr (Or.inl ⟨hstate, hlow, hzero, not_le.1 hlong, rfl⟩))
  · exact Or.inl ⟨rfl, Bool.not_eq_true _ ▸ hlow, rfl⟩

/-- What an event does to a venue that probes: it relapses, recovers or goes on. -/
theorem step_probing (h : v.state = .Probing) :
    let v' := v.step rnd cfg e now
    let high := (v.evaluation rnd cfg e now).anyHigh
    let acks := v.probeSuccess + if e.goodAck cfg then 1 else 0
    (v'.state = .Down ∧ v'.goodSince = 0) ∨
      (v'.state = .Healthy ∧ high = false ∧ cfg.probeRequired ≤ acks) ∨
      (v'.state = .Probing ∧ high = false ∧ v'.probeSuccess = acks) := by
  have hstate : (v.record cfg now e).state = .Probing := (record_state e).trans h
  unfold VenueState.step VenueState.evaluate VenueState.evaluation
  rw [hstate, ← record_probeSuccess e h]
  dsimp only
  split_ifs with hhigh hacks
  · exact Or.inl ⟨rfl, rfl⟩
  · exact Or.inr (Or.inl ⟨rfl, Bool.not_eq_true _ ▸ hhigh, hacks⟩)
  · exact Or.inr (Or.inr ⟨hstate, Bool.not_eq_true _ ▸ hhigh, rfl⟩)

end Step

/-! ### Runs -/

/-- How far a venue has come, by its state. -/
def Accounts (cfg : HealthConfig) (trace : List Evaluation) (v : VenueState) : Prop :=
  match v.state with
  | .Healthy | .Degraded => (∀ o ∈ trace, o.after ≠ .Down) ∨ Recovered cfg trace
  | .Down => EndsDown trace ∧ (v.goodSince ≠ 0 → DwellsSince v.goodSince trace)
  | .Probing => Probes cfg v.probeSuccess trace

section Accounts

variable {rnd : ℚ → ℚ} {cfg : HealthConfig} {trace : List Evaluation} {v : VenueState}

theorem accounts_up (h : v.state = .Healthy ∨ v.state = .Degraded) :
    Accounts cfg trace v ↔ (∀ o ∈ trace, o.after ≠ .Down) ∨ Recovered cfg trace := by
  unfold Accounts
  rcases h with h | h <;> rw [h]

theorem accounts_down (h : v.state = .Down) :
    Accounts cfg trace v ↔ EndsDown trace ∧ (v.goodSince ≠ 0 → DwellsSince v.goodSince trace) := by
  unfold Accounts
  rw [h]

theorem accounts_probing (h : v.state = .Probing) :
    Accounts cfg trace v ↔ Probes cfg v.probeSuccess trace := by
  unfold Accounts
  rw [h]

/-- An evaluation that leaves the venue up. -/
theorem up_snoc {o : Evaluation} (h : (∀ o ∈ trace, o.after ≠ .Down) ∨ Recovered cfg trace)
    (ho : o.after = .Healthy ∨ o.after = .Degraded) :
    (∀ o' ∈ trace ++ [o], o'.after ≠ .Down) ∨ Recovered cfg (trace ++ [o]) := by
  rcases h with h | h
  · refine Or.inl fun o' ho' => ?_
    rcases List.mem_append.1 ho' with ho' | ho'
    · exact h o' ho'
    · cases List.mem_singleton.1 ho'
      rcases ho with ho | ho <;> simp [ho]
  · exact Or.inr (h.snoc ho)

/-- An evaluation that brings the venue Down, or ends its dwell. -/
theorem relapse_accounts {e : HealthEvent} {now : Timestamp}
    (h : (v.step rnd cfg e now).state = .Down ∧ (v.step rnd cfg e now).goodSince = 0) :
    Accounts cfg (trace ++ [v.evaluation rnd cfg e now]) (v.step rnd cfg e now) :=
  (accounts_down h.1).2 ⟨endsDown_snoc h.1, fun hsince => absurd h.2 hsince⟩

/-- Every event keeps the account of the venue. -/
theorem accounts_step (h : Accounts cfg trace v) (e : HealthEvent) (now : Timestamp) :
    Accounts cfg (trace ++ [v.evaluation rnd cfg e now]) (v.step rnd cfg e now) := by
  cases hstate : v.state with
  | Healthy =>
    have hafter := step_healthy rnd cfg e now hstate
    exact (accounts_up hafter).2 (up_snoc ((accounts_up (Or.inl hstate)).1 h) hafter)
  | Degraded =>
    rcases step_degraded rnd cfg e now hstate with hup | hdown
    · exact (accounts_up hup).2 (up_snoc ((accounts_up (Or.inr hstate)).1 h) hup)
    · exact relapse_accounts hdown
  | Down =>
    obtain ⟨hends, hdwell⟩ := (accounts_down hstate).1 h
    rcases step_down rnd cfg e now hstate with
      ⟨hdown, -, hsince⟩ | ⟨hdown, hlow, -, hsince⟩ | ⟨hdown, hlow, hzero, -, hsince⟩ |
        ⟨hprobing, hlow, hzero, hlong, hcount⟩
    · exact relapse_accounts ⟨hdown, hsince⟩
    · -- the dwell starts here
      refine (accounts_down hdown).2 ⟨endsDown_snoc hdown, fun _ => ?_⟩
      rw [hsince]
      exact hends.start ⟨hstate, hdown, hlow⟩
    · refine (accounts_down hdown).2 ⟨endsDown_snoc hdown, fun _ => ?_⟩
      rw [hsince]
      exact (hdwell hzero).snoc ⟨hstate, hdown, hlow⟩
    · rw [accounts_probing hprobing, hcount]
      exact (hdwell hzero).probe ⟨hstate, hprobing, hlow⟩ (le_sub_comm.1 hlong)
  | Probing =>
    have hprobe := (accounts_probing hstate).1 h
    rcases step_probing rnd cfg e now hstate with
      hdown | ⟨hhealthy, hhigh, hacks⟩ | ⟨hprobing, hhigh, hcount⟩
    · exact relapse_accounts hdown
    · refine (accounts_up (Or.inl hhealthy)).2 (Or.inr ?_)
      exact hprobe.recover ⟨hstate, hhealthy, hhigh⟩ hacks
    · rw [accounts_probing hprobing, hcount]
      exact hprobe.snoc ⟨hstate, hprobing, hhigh⟩

end Accounts

section Runs

variable {rnd : ℚ → ℚ} {h : CircuitBreakerHealthModel} {u v : VenueId} {st : VenueState}

theorem event_venues (e : HealthEvent) (now : Timestamp) :
    (h.event rnd u e now).venues v =
      if u = v then (h.venues v).map (·.step rnd h.cfg e now) else h.venues v := by
  show Function.update h.venues u _ v = _
  split_ifs with huv
  · subst huv
    exact Function.update_self _ _ _
  · exact Function.update_of_ne (Ne.symm huv) _ _

@[simp] theorem step_cfg (h : CircuitBreakerHealthModel) (op : HealthOp) :
    (h.step rnd op).cfg = h.cfg := by
  cases op with
  | registerVenue u now =>
    show (h.registerVenue u now).cfg = h.cfg
    unfold CircuitBreakerHealthModel.registerVenue
    split <;> rfl
  | _ => rfl

theorem run_cfg (rnd : ℚ → ℚ) (h : CircuitBreakerHealthModel) (ops : List HealthOp) :
    ((healthMachine rnd).run h ops).cfg = h.cfg := by
  induction ops generalizing h with
  | nil => rfl
  | cons op ops ih => exact (ih _).trans (step_cfg h op)

theorem registerVenue_venues (now : Timestamp) :
    (h.registerVenue u now).venues v =
      if u = v ∧ h.venues v = none then some (.init h.cfg now) else h.venues v := by
  unfold CircuitBreakerHealthModel.registerVenue
  cases hu : h.venues u with
  | some st =>
    rw [if_neg]
    rintro ⟨rfl, hnone⟩
    rw [hu] at hnone
    cases hnone
  | none =>
    by_cases huv : u = v
    · subst huv
      rw [if_pos ⟨rfl, hu⟩]
      exact Function.update_self _ _ _
    · rw [if_neg fun h => huv h.1]
      exact Function.update_of_ne (Ne.symm huv) _ _

/-- An operation takes a registered venue through the event it brings. -/
theorem step_venues (hst : h.venues v = some st) (op : HealthOp) :
    (h.step rnd op).venues v =
      some ((op.arrival v).elim st fun arrival => st.step rnd h.cfg arrival.1 arrival.2) := by
  have hevent : ∀ u e now, (h.event rnd u e now).venues v =
      some ((if u = v then some (e, now) else none).elim st
        fun arrival => st.step rnd h.cfg arrival.1 arrival.2) := by
    intro u e now
    rw [event_venues, hst]
    split_ifs <;> rfl
  cases op with
  | registerVenue u now =>
    show (h.registerVenue u now).venues v = some st
    rw [registerVenue_venues, hst, if_neg fun h => nomatch h.2]
  | tick now =>
    show (h.venues v).map _ = _
    rw [hst]
    rfl
  | _ => exact hevent _ _ _

/-- A venue that is not registered stays so, or is registered. -/
theorem step_venues_none (hnone : h.venues v = none) (op : HealthOp) :
    (h.step rnd op).venues v = none ∨ ∃ now, (h.step rnd op).venues v = some (.init h.cfg now) := by
  have hevent : ∀ u e now, (h.event rnd u e now).venues v = none := by
    intro u e now
    rw [event_venues, hnone]
    exact ite_self _
  cases op with
  | registerVenue u now =>
    have hvenues : (h.step rnd (.registerVenue u now)).venues v = _ := registerVenue_venues now
    rw [hvenues, hnone]
    split_ifs
    · exact Or.inr ⟨now, rfl⟩
    · exact Or.inl rfl
  | tick now =>
    refine Or.inl ?_
    show (h.venues v).map _ = none
    rw [hnone]
    rfl
  | _ => exact Or.inl (hevent _ _ _)

/-- What is known of a venue after a run in which its evaluations were `trace`. -/
def Traced (cfg : HealthConfig) (trace : List Evaluation) : Option VenueState → Prop
  | none => trace = []
  | some st => Accounts cfg trace st

theorem traced_step {trace : List Evaluation} (hacc : Traced h.cfg trace (h.venues v))
    (op : HealthOp) :
    Traced (h.step rnd op).cfg (trace ++ h.evaluation rnd v op) ((h.step rnd op).venues v) := by
  rw [step_cfg]
  cases hst : h.venues v with
  | none =>
    rw [hst] at hacc
    have hnone : h.evaluation rnd v op = [] := by
      unfold CircuitBreakerHealthModel.evaluation
      rw [hst]
    cases hacc
    rw [hnone]
    rcases step_venues_none hst op with heq | ⟨now, heq⟩
    · rw [heq]
      rfl
    · rw [heq]
      exact Or.inl (by simp)
  | some st =>
    rw [hst] at hacc
    rw [step_venues hst]
    cases harr : op.arrival v with
    | none =>
      have hnone : h.evaluation rnd v op = [] := by
        unfold CircuitBreakerHealthModel.evaluation
        rw [hst, harr]
      rw [hnone, List.append_nil]
      exact hacc
    | some arrival =>
      have hone : h.evaluation rnd v op = [st.evaluation rnd h.cfg arrival.1 arrival.2] := by
        unfold CircuitBreakerHealthModel.evaluation
        rw [hst, harr]
      rw [hone]
      exact accounts_step hacc arrival.1 arrival.2

theorem traced_run (rnd : ℚ → ℚ) {trace : List Evaluation}
    (hacc : Traced h.cfg trace (h.venues v)) (ops : List HealthOp) :
    Traced h.cfg (trace ++ h.evaluations rnd v ops) (((healthMachine rnd).run h ops).venues v) := by
  induction ops generalizing h trace with
  | nil =>
    rw [CircuitBreakerHealthModel.evaluations, List.append_nil]
    exact hacc
  | cons op ops ih =>
    have hfirst : Traced (h.step rnd op).cfg (trace ++ h.evaluation rnd v op)
        ((h.step rnd op).venues v) := traced_step hacc op
    have hrest := ih hfirst
    rw [step_cfg, List.append_assoc] at hrest
    exact hrest

/-- **The way back from Down.** In every run of the health model under any configuration, of a venue
that is Healthy after an evaluation has left it Down, the evaluations show the way back: since it
last went Down there was one at a time `t₀`, from which on every one found all signals low until,
`downDwellNs` after `t₀` or later, one moved it to Probing; none found a signal high until, with
`probeRequired` acks within the trip latency or more since then, one moved it to Healthy; and it
was neither Down nor Probing again. -/
theorem recovered_of_healthy (rnd : ℚ → ℚ) (cfg : HealthConfig) (ops : List HealthOp) (v : VenueId)
    {st : VenueState}
    (hst : ((healthMachine rnd).run (.init cfg) ops).venues v = some st)
    (hhealthy : st.state = .Healthy)
    (hdown : ∃ o ∈ (CircuitBreakerHealthModel.init cfg).evaluations rnd v ops, o.after = .Down) :
    Recovered cfg ((CircuitBreakerHealthModel.init cfg).evaluations rnd v ops) := by
  have hstart : Traced (CircuitBreakerHealthModel.init cfg).cfg []
      ((CircuitBreakerHealthModel.init cfg).venues v) := rfl
  have hacc := traced_run rnd hstart ops
  rw [hst, List.nil_append] at hacc
  rcases (accounts_up (Or.inl hhealthy)).1 hacc with hnever | hrecovered
  · obtain ⟨o, ho, hafter⟩ := hdown
    exact absurd hafter (hnever o ho)
  · exact hrecovered

end Runs

/-- Small limits. -/
def fastConfig : HealthConfig where
  heartbeatToleranceNs := 1000000
  rejectWindow := 20
  rejectMinSamples := 5
  rejectHigh := 1 / 2
  rejectLow := 1 / 5
  latencyWindow := 20
  latencyHighNs := 1000
  latencyLowNs := 500
  degradeDwellNs := 5
  downDwellNs := 5
  probeRequired := 2
  probeWeight := 1 / 4
  degradedWeight := 1 / 2

/-- A venue is disconnected, comes back and answers two orders. -/
def outage : List HealthOp :=
  [.registerVenue 0 1000, .disconnect 0 1000, .tick 1050, .reconnect 0 1051, .tick 1100,
    .ack 0 100 1101, .ack 0 100 1102]

theorem recovered_outage :
    Recovered fastConfig ((CircuitBreakerHealthModel.init fastConfig).evaluations id 0 outage) :=
  recovered_of_healthy id fastConfig outage 0 rfl (by decide +kernel) (by decide +kernel)

end Oms
