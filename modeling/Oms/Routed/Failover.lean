import Oms.ExecutionAlgo
import Oms.Health.Probe
import Oms.Routed

/-!
# A venue that is cut off

* `VenueState.CutOff`, `run_cutOff`: a venue that was disconnected is Degraded or Down until it
  reconnects, and Down from the first evaluation after the dwell on;
* `failover`: so it gets no order while another venue is Healthy, and none after the dwell.
-/

namespace Oms

open OrderManager

/-! ### The circuit breaker of a venue that is cut off -/

/-- The venue is not connected, and it is Down, or Degraded since `t`. -/
structure VenueState.CutOff (t : Timestamp) (st : VenueState) : Prop where
  connected : st.connected = false
  state : st.state = .Down ∨ st.state = .Degraded ∧ st.degradedSince = t

section CutOff

variable (rnd : ℚ → ℚ) (cfg : HealthConfig) {st : VenueState} {t : Timestamp} (now : Timestamp)

/-- Without a connection a signal is high, and not all are low. -/
theorem assess_disconnected (h : st.connected = false) :
    (st.assess rnd cfg now).anyHigh = true ∧ (st.assess rnd cfg now).allLow = false := by
  unfold VenueState.assess VenueState.connBad
  simp [h]

/-- What an evaluation makes of a venue without a connection. -/
theorem evaluate_disconnected (h : st.connected = false) :
    let st' := st.evaluate rnd cfg now
    st'.state = .Down ∨
      (st'.state = .Degraded ∧ st.state = .Healthy ∧ st'.degradedSince = now) ∨
      (st'.state = .Degraded ∧ st.state = .Degraded ∧ st'.degradedSince = st.degradedSince ∧
        now - st.degradedSince < cfg.degradeDwellNs) := by
  obtain ⟨hhigh, hlow⟩ := assess_disconnected rnd cfg now h
  intro st'
  have hst' : st' = st.evaluate rnd cfg now := rfl
  unfold VenueState.evaluate at hst'
  cases hstate : st.state with
  | Healthy =>
    simp only [hstate, hhigh, if_true] at hst'
    exact Or.inr (Or.inl ⟨by rw [hst'], rfl, by rw [hst']⟩)
  | Degraded =>
    simp only [hstate, hhigh, hlow, Bool.false_eq_true, if_false, Bool.true_and,
      decide_eq_true_eq] at hst'
    split_ifs at hst' with hdwell
    · exact Or.inl (by rw [hst'])
    · rw [hst']
      exact Or.inr (Or.inr ⟨hstate, rfl, rfl, not_le.1 hdwell⟩)
  | Down =>
    simp only [hstate, hlow, Bool.false_eq_true, if_false] at hst'
    exact Or.inl (by rw [hst'])
  | Probing =>
    simp only [hstate, hhigh, if_true] at hst'
    exact Or.inl (by rw [hst'])

/-- Only a reconnect connects. -/
theorem record_connected {e : HealthEvent} (he : e ≠ .reconnect) (h : st.connected = false) :
    (st.record cfg now e).connected = false := by
  cases e with
  | reconnect => exact absurd rfl he
  | disconnect => rfl
  | _ => exact h

@[simp] theorem record_degradedSince (e : HealthEvent) :
    (st.record cfg now e).degradedSince = st.degradedSince := by
  cases e <;> rfl

/-- An event that leaves a venue Degraded made it so just now, or found it so. -/
theorem step_degradedSince (e : HealthEvent) (h : (st.step rnd cfg e now).state = .Degraded) :
    (st.step rnd cfg e now).degradedSince = now ∨
      st.state = .Degraded ∧ (st.step rnd cfg e now).degradedSince = st.degradedSince := by
  have hstate : (st.record cfg now e).state = st.state := record_state e
  have hsince : (st.record cfg now e).degradedSince = st.degradedSince :=
    record_degradedSince cfg now e
  rw [← hstate, ← hsince]
  unfold VenueState.step at h ⊢
  generalize st.record cfg now e = v at h ⊢
  unfold VenueState.evaluate at h ⊢
  cases hv : v.state <;> simp only [hv] at h ⊢ <;> split_ifs at h ⊢ <;>
    first | exact Or.inl rfl | exact Or.inr ⟨trivial, rfl⟩ | simp [hv] at h

theorem step_disconnected {e : HealthEvent} (h : (st.record cfg now e).connected = false) :
    let st' := st.step rnd cfg e now
    st'.state = .Down ∨
      (st'.state = .Degraded ∧ st.state = .Healthy ∧ st'.degradedSince = now) ∨
      (st'.state = .Degraded ∧ st.state = .Degraded ∧ st'.degradedSince = st.degradedSince ∧
        now - st.degradedSince < cfg.degradeDwellNs) := by
  have hcases := evaluate_disconnected rnd cfg now h
  rwa [record_state, record_degradedSince] at hcases

/-- A venue that is cut off stays so, and is Degraded only before the dwell has passed. -/
theorem VenueState.CutOff.step (h : st.CutOff t) {e : HealthEvent} (he : e ≠ .reconnect) :
    (st.step rnd cfg e now).CutOff t ∧ ((st.step rnd cfg e now).state = .Degraded →
      st.state = .Degraded ∧ now < t + cfg.degradeDwellNs) := by
  have hconnected : (st.record cfg now e).connected = false :=
    record_connected cfg now he h.connected
  have hconnected' : (st.step rnd cfg e now).connected = false :=
    evaluate_connected.trans hconnected
  rcases step_disconnected rnd cfg now hconnected with
    hdown | ⟨-, hhealthy, -⟩ | ⟨hdeg, hbefore, hsince, hlt⟩
  · exact ⟨⟨hconnected', Or.inl hdown⟩, fun hdeg => by rw [hdown] at hdeg; cases hdeg⟩
  · rcases h.state with hstate | ⟨hstate, -⟩ <;> rw [hhealthy] at hstate <;> cases hstate
  · have hst : st.degradedSince = t := by
      rcases h.state with hstate | ⟨-, hst⟩
      · rw [hbefore] at hstate
        cases hstate
      · exact hst
    rw [hst] at hlt
    exact ⟨⟨hconnected', Or.inr ⟨hdeg, hsince.trans hst⟩⟩,
      fun _ => ⟨hbefore, sub_lt_iff_lt_add'.1 hlt⟩⟩

/-- A disconnect cuts the venue off, since it happened or since the venue was Degraded. -/
theorem cutOff_disconnect (st : VenueState) :
    ∃ t, (st.step rnd cfg .disconnect now).CutOff t ∧
      ((st.state = .Degraded → st.degradedSince ≤ now) → t ≤ now) := by
  have hconnected : (st.record cfg now .disconnect).connected = false := rfl
  have hconnected' : (st.step rnd cfg .disconnect now).connected = false :=
    evaluate_connected.trans hconnected
  rcases step_disconnected rnd cfg now hconnected with
    hdown | ⟨hdeg, -, hsince⟩ | ⟨hdeg, hbefore, hsince, -⟩
  · exact ⟨now, ⟨hconnected', Or.inl hdown⟩, fun _ => le_rfl⟩
  · exact ⟨now, ⟨hconnected', Or.inr ⟨hdeg, hsince⟩⟩, fun _ => le_rfl⟩
  · exact ⟨st.degradedSince, ⟨hconnected', Or.inr ⟨hdeg, hsince⟩⟩, fun hle => hle hbefore⟩

end CutOff

/-! ### Runs of the health model -/

section Runs

variable {rnd : ℚ → ℚ} {h : CircuitBreakerHealthModel} {v : VenueId} {st : VenueState}
  {t : Timestamp} {ops : List HealthOp}

/-- What arrives at a venue arrives at the time of the operation. -/
theorem arrival_now {op : HealthOp} {e : HealthEvent} {now : Timestamp}
    (harr : op.arrival v = some (e, now)) : op.now = now := by
  cases op with
  | registerVenue => cases harr
  | tick => cases harr; rfl
  | _ =>
    dsimp only [HealthOp.arrival] at harr
    split_ifs at harr
    cases harr
    rfl

theorem arrival_reconnect {op : HealthOp} {now : Timestamp}
    (harr : op.arrival v = some (.reconnect, now)) : op = .reconnect v now := by
  cases op with
  | registerVenue => cases harr
  | tick => cases harr
  | _ =>
    dsimp only [HealthOp.arrival] at harr
    split_ifs at harr with hv
    cases harr
    try rw [hv]

/-- A venue that is cut off stays so in a run in which it does not reconnect. If it is still
Degraded, it was never evaluated after the dwell. -/
theorem run_cutOff (rnd : ℚ → ℚ) (hst : h.venues v = some st) (hcut : st.CutOff t)
    (hops : ∀ op ∈ ops, ∀ now, op ≠ .reconnect v now) :
    ∃ st', ((healthMachine rnd).run h ops).venues v = some st' ∧ st'.CutOff t ∧
      (st'.state = .Degraded → ∀ op ∈ ops, ∀ e now, op.arrival v = some (e, now) →
        now < t + h.cfg.degradeDwellNs) := by
  induction ops using List.reverseRecOn with
  | nil => exact ⟨st, hst, hcut, by simp⟩
  | append_singleton ops op ih =>
    obtain ⟨st', hst', hcut', hdwell⟩ := ih fun op' hop' => hops op' (List.mem_append_left _ hop')
    have hcfg : ((healthMachine rnd).run h ops).cfg = h.cfg := run_cfg rnd h ops
    rw [Machine.run_append]
    generalize (healthMachine rnd).run h ops = h' at hst' hcfg
    have hvenues : (h'.step rnd op).venues v = _ := step_venues hst' op
    refine ⟨_, hvenues, ?_⟩
    cases harr : op.arrival v with
    | none =>
      refine ⟨hcut', fun hdeg op' hop' e now harr' => ?_⟩
      rcases List.mem_append.1 hop' with hop' | hop'
      · exact hdwell hdeg op' hop' e now harr'
      · cases List.mem_singleton.1 hop'
        rw [harr] at harr'
        cases harr'
    | some arrival =>
      obtain ⟨e, now⟩ := arrival
      have he : e ≠ .reconnect := by
        rintro rfl
        exact hops op (by simp) now (arrival_reconnect harr)
      obtain ⟨hcut'', hlate⟩ := hcut'.step rnd h'.cfg now he
      refine ⟨hcut'', fun hdeg op' hop' e' now' harr' => ?_⟩
      obtain ⟨hbefore, hlt⟩ := hlate hdeg
      rcases List.mem_append.1 hop' with hop' | hop'
      · exact hdwell hbefore op' hop' e' now' harr'
      · cases List.mem_singleton.1 hop'
        rw [harr] at harr'
        cases harr'
        rwa [hcfg] at hlt

/-- A Degraded venue has been so since an operation of the run. -/
theorem degradedSince_le {cfg : HealthConfig} (hops : ∀ op ∈ ops, op.now ≤ t)
    (hst : ((healthMachine rnd).run (.init cfg) ops).venues v = some st)
    (hdeg : st.state = .Degraded) : st.degradedSince ≤ t := by
  induction ops using List.reverseRecOn generalizing st with
  | nil => cases hst
  | append_singleton ops op ih =>
    have hrest := fun st₀ => @ih st₀ fun op' hop' => hops op' (List.mem_append_left _ hop')
    rw [Machine.run_append] at hst
    generalize (healthMachine rnd).run (.init cfg) ops = h at hst hrest
    change (h.step rnd op).venues v = some st at hst
    cases hbefore : h.venues v with
    | none =>
      rcases step_venues_none hbefore op with hnone | ⟨now, hnew⟩
      · rw [hnone] at hst
        cases hst
      · rw [hnew] at hst
        cases hst
        cases hdeg
    | some st₀ =>
      rw [step_venues hbefore] at hst
      cases harr : op.arrival v with
      | none =>
        rw [harr] at hst
        cases hst
        exact hrest _ hbefore hdeg
      | some arrival =>
        obtain ⟨e, now⟩ := arrival
        rw [harr, Option.elim_some, Option.some.injEq] at hst
        subst hst
        rcases step_degradedSince rnd h.cfg now e hdeg with hnow | ⟨hdeg₀, hsame⟩
        · rw [hnow, ← arrival_now harr]
          exact hops op (by simp)
        · rw [hsame]
          exact hrest st₀ hbefore hdeg₀

end Runs

/-! ### The system -/

section System

variable {W : Type}

/-- The venue of choice is not Down. If it is Degraded, none of the routed venues is Healthy. -/
theorem HealthAwareRouter.Chooses.degraded {r : HealthAwareRouter} {h : CircuitBreakerHealthModel}
    {u v : VenueId} (hchosen : r.Chooses h v) (hweight : h.cfg.degradedWeight < 1)
    (hv : h.state v = some .Degraded) (hu : u ∈ r.venues) : h.state u ≠ some .Healthy := by
  intro hhealthy
  obtain ⟨stu, hstu, hstateu⟩ := state_eq_some.1 hhealthy
  obtain ⟨stv, hstv, hstatev⟩ := state_eq_some.1 hv
  have htradeable : h.tradeable u = true := by
    rw [tradeable_eq hstu, hstateu]
    rfl
  have hle : h.weight u ≤ h.weight v :=
    List.le_of_mem_argmax (List.mem_filter.2 ⟨hu, htradeable⟩) hchosen
  rw [weight_eq hstu, weight_eq hstv, hstateu, hstatev] at hle
  exact absurd hle (not_le.2 hweight)

/-- **Failover.** In every run of the manager with its router and its health model, let a
registered venue be disconnected, and not reconnect from then on. Every order that it still gets
finds it Degraded, and none of the routed venues Healthy. If the clock had not been ahead of the
disconnect, health had not heard of the venue again after the dwell. -/
theorem failover (rnd : ℚ → ℚ) (r : HealthAwareRouter) (E : Env W) (cfg : HealthConfig)
    (hweight : cfg.degradedWeight < 1) (capacity : PoolCapacity) (w : W)
    (pre post : List (RoutedOp W)) (v : VenueId)
    (hreg : ((routedMachine rnd r E).run (routedStart cfg capacity w) pre).world.health.venues v ≠
      none)
    (hpost : ∀ op ∈ post, op.Tells fun told => ∀ now, told ≠ .reconnect v now) :
    let s := (routedMachine rnd r E).run (routedStart cfg capacity w) pre
    let t := E.clock s.world.base
    let s' := (routedMachine rnd r E).run s (.oms (.venueDisconnect v) :: post)
    ∃ new, s'.world.sent = s.world.sent ++ new ∧ ∀ journal, (v, journal) ∈ new →
      let h := (healthMachine rnd).run (.init cfg) journal
      h.state v = some .Degraded ∧ (∀ u ∈ r.venues, h.state u ≠ some .Healthy) ∧
        ∃ since, journal = s.world.journal ++ .disconnect v t :: since ∧
          ((∀ op ∈ s.world.journal, op.now ≤ t) → ∀ op ∈ since, ∀ e now,
            op.arrival v = some (e, now) → now < t + cfg.degradeDwellNs) := by
  intro s t s'
  have hhealth : s.world.health = (healthMachine rnd).run (.init cfg) s.world.journal :=
    health_run rnd r E cfg capacity w pre
  obtain ⟨st, hst⟩ : ∃ st, s.world.health.venues v = some st := Option.ne_none_iff_exists'.1 hreg
  -- the disconnect cuts the venue off
  let s₁ := (routedMachine rnd r E).step s (.oms (.venueDisconnect v))
  have hhealth₁ : s₁.world.health = s.world.health.step rnd (.disconnect v t) := rfl
  have hjournal₁ : s₁.world.journal = s.world.journal ++ [.disconnect v t] := rfl
  have hst₁ : s₁.world.health.venues v = some (st.step rnd s.world.health.cfg .disconnect t) := by
    rw [hhealth₁, step_venues hst]
    simp only [HealthOp.arrival, if_true, Option.elim_some]
  have hcfg : s.world.health.cfg = cfg := by
    rw [hhealth]
    exact run_cfg rnd _ _
  have hcfg₁ : s₁.world.health.cfg = cfg := (step_cfg _ _).trans hcfg
  obtain ⟨t₀, hcut, hbefore⟩ := cutOff_disconnect rnd s.world.health.cfg t st
  -- and nothing that follows reconnects it
  have hmoves : MovesOn rnd r (fun told => ∀ now, told ≠ .reconnect v now) s₁.world s'.world :=
    run_movesOn (fun op hop now => hop v now) hpost
  obtain ⟨told, new, honward⟩ := hmoves
  refine ⟨new, honward.sent, fun journal hmem => ?_⟩
  obtain ⟨since, hsince, hjournal, hchosen⟩ := honward.chosen (v, journal) hmem
  have hjournal' : journal = s.world.journal ++ .disconnect v t :: since := by
    refine hjournal.trans ?_
    rw [hjournal₁, List.append_assoc]
    rfl
  have hrun : (healthMachine rnd).run (.init cfg) journal =
      (healthMachine rnd).run s₁.world.health since := by
    rw [hjournal', Machine.run_append, ← hhealth]
    rfl
  obtain ⟨st', hst', hcut', hdwell⟩ := run_cutOff rnd hst₁ hcut fun op hop =>
    honward.allowed op (hsince.subset hop)
  rw [← hrun] at hst' hchosen
  have hup : st'.state ≠ .Down := by
    have htradeable := (List.mem_filter.1 (List.argmax_mem hchosen)).2
    rw [tradeable_eq hst', decide_eq_true_iff] at htradeable
    exact htradeable
  have hdeg : st'.state = .Degraded := by
    rcases hcut'.state with hdown | ⟨hdeg, -⟩
    · exact absurd hdown hup
    · exact hdeg
  have hstate : ((healthMachine rnd).run (.init cfg) journal).state v = some .Degraded :=
    state_eq_some.2 ⟨st', hst', hdeg⟩
  refine ⟨hstate, fun u hu => ?_, since, hjournal', fun htimes op hop e now harr => ?_⟩
  · refine hchosen.degraded ?_ hstate hu
    rw [run_cfg]
    exact hweight
  · have hle : t₀ ≤ t := hbefore fun hdegraded =>
      degradedSince_le htimes (hhealth ▸ hst) hdegraded
    have hlt := hdwell hdeg op hop e now harr
    rw [hcfg₁] at hlt
    exact hlt.trans_le (by gcongr)

end System

/-! ### Two venues that go dark -/

/-- Two venues that accept everything, in a world that shows the time. -/
def twoVenues : Env (Unit × Timestamp) :=
  { acceptingEnv.beside with
    registry := ⟨[some acceptingClient.beside, some acceptingClient.beside]⟩
    clock := Prod.snd }

/-- Both venues are registered, and venue `1` is disconnected. -/
def dimmedVenues : List (RoutedOp (Unit × Timestamp)) :=
  [.health (.registerVenue 0 1), .health (.registerVenue 1 1), .oms (.venueDisconnect 1)]

/-- An order before the dwell has passed, and one after the next tick. -/
def darkOrders : List (RoutedOp (Unit × Timestamp)) :=
  [.oms (.submit { instrument := 7, size := 10, price := 5 }), .world ((), 1000000001),
    .health (.tick 1000000001), .oms (.submit { instrument := 7, size := 10, price := 5 })]

/-- Of two orders only the first goes out, to a venue that is Degraded like the other. -/
theorem failover_dark :
    let cfg := HealthConfig.default id
    let M := routedMachine id ⟨[0, 1]⟩ twoVenues
    let s := M.run (routedStart cfg twoSlots ((), 1)) dimmedVenues
    let s' := M.run s (.oms (.venueDisconnect 0) :: darkOrders)
    ∃ journal, s'.world.sent = [(0, journal)] ∧
      ((healthMachine id).run (.init cfg) journal).state 0 = some .Degraded := by
  intro cfg M s s'
  have hpost : ∀ op ∈ darkOrders, op.Tells fun told => ∀ now, told ≠ .reconnect 0 now := by
    intro op hop
    simp only [darkOrders, List.mem_cons, List.not_mem_nil, or_false] at hop
    rcases hop with rfl | rfl | rfl | rfl <;> simp [RoutedOp.Tells]
  obtain ⟨new, hsent, hnew⟩ := failover id ⟨[0, 1]⟩ twoVenues cfg (by decide +kernel) twoSlots
    ((), 1) dimmedVenues darkOrders 0 (by decide +kernel) hpost
  have hone : s'.world.sent.map Prod.fst = [0] := by decide +kernel
  have hnone : s.world.sent = [] := by decide +kernel
  obtain ⟨x, hx, hvenue⟩ := List.map_eq_singleton_iff.1 hone
  obtain ⟨v, journal⟩ := x
  cases hvenue
  refine ⟨journal, hx, (hnew journal ?_).1⟩
  have hall : s'.world.sent = s.world.sent ++ new := hsent
  rw [hnone, hx, List.nil_append] at hall
  rw [← hall]
  exact List.mem_singleton_self _

end Oms
