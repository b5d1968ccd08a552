import Oms.Signal.Gate
import Oms.Signal.Poison
import Oms.SignalProducer

/-!
# From the producer through the codec to the gate

The producer counts its cycles for each strategy; the gate expects the next count modulo
`seqModulo`. `InStep` says that the two agree, whatever the number of cycles.

* `check_produced`: a message the gate is in step with is accepted;
* `deliver_produceEach`: so is a cycle, and producer and gate are in step for the next one;
* `pipeline_accepts`: the gate accepts all messages of all cycles.
-/

namespace Oms

namespace Wire

/-- Hand messages through the codec to the gate. `none` stands for a failed round trip. -/
def deliver (g : SignalGate) (now : Int64) :
    List SignalMessage → List (Option SignalVerdict) × SignalGate
  | [] => ([], g)
  | m :: ms =>
    match deserializeSignal (serializeSignal m) with
    | none =>
      let (verdicts, g) := deliver g now ms
      (none :: verdicts, g)
    | some out =>
      let (verdict, g) := check g out now
      let (verdicts, g) := deliver g now ms
      (some verdict :: verdicts, g)

/-- The verdicts on all messages of a sequence of cycles, each at its own time. -/
def pipeline (p : SignalProducer) (g : SignalGate) : List Int64 → List (Option SignalVerdict)
  | [] => []
  | now :: nows =>
    let (ms, p) := p.produceCycle now
    let (verdicts, g) := deliver g now ms
    verdicts ++ pipeline p g nows

/-- The last number before `k`, if any. -/
def lastBefore : ℕ → Option ℕ
  | 0 => none
  | k + 1 => some k

/-- The producer numbers the next message of a strategy `k`, and the gate accepted the one
before. -/
structure InStep (p : SignalProducer) (g : SignalGate) (k : ℕ) (s : StrategyId) : Prop where
  next : (p.seq.get s).toNat = k
  remembers : Remembers g s (lastBefore k)

/-- Producer and gate agree: what the producer may target is within the bound of the gate, which is
small enough for its guards to be exact, and neither a fresh message nor the next number is turned
away. -/
structure Matched (pcfg : SignalProducerConfig) (gcfg : SignalGateConfig) : Prop where
  nonneg : 0 ≤ pcfg.maxAbsTarget.toInt
  within : pcfg.maxAbsTarget.toInt ≤ gcfg.maxAbsTarget
  bounded : gcfg.maxAbsTarget < (2 ^ 62 : ℤ)
  age : 0 ≤ gcfg.maxSignalAge
  threshold : gcfg.missThreshold < gcfg.seqModulo

section Message

variable {g : SignalGate} {msg : SignalMessage} {now : Int64}

/-- The number the gate expects is accepted. -/
theorem checkSequence_expected {msg : Oms.SignalMessage} {now : Timestamp}
    (hm : 0 < g.cfg.seqModulo.toNat) (hfit : g.cfg.Fits (msg, now))
    (h : Remembers g msg.strategyId (lastBefore msg.sequence.toNat)) :
    g.checkSequence msg now = (.Accept, g.accept msg now) := by
  cases hseq : msg.sequence.toNat with
  | zero =>
    rw [hseq] at h
    exact checkSequence_unseen h
  | succ last =>
    rw [hseq] at h
    have hdelta := delta_toNat hm hfit h.2
    rw [hseq, Serial.gap_of_lt hm (Nat.lt_succ_self last) (by omega), Nat.sub_self] at hdelta
    have hzero := UInt64.toNat_inj.1 (hdelta.trans UInt64.toNat_zero.symm)
    unfold SignalGate.checkSequence
    dsimp only
    rw [if_pos h.1, if_pos hzero]

/-- A message of this moment whose targets are small enough is judged by its number only. -/
theorem check_eq_checkSequence_of_small (hon : g.tradingEnabled = true)
    (hage : 0 ≤ g.cfg.maxSignalAge) (hnow : msg.generatedAt = now)
    (hsmall : ∀ t ∈ msg.targets, |t.signedTarget.toInt| ≤ g.cfg.maxAbsTarget)
    (hlimit : g.cfg.maxAbsTarget < (2 ^ 62 : ℤ)) :
    check g msg now = g.checkSequence msg.exact now.toInt := by
  have hzero : age msg now = 0 := by
    rw [age, hnow, sub_self]
  have hrep : Representable msg now := by
    refine ⟨fun t ht hmin => ?_, ?_⟩
    · have hlarge := (hsmall t ht).trans_lt hlimit
      rw [hmin] at hlarge
      exact absurd hlarge (by decide)
    · rw [hzero]
      norm_num
  rw [check_eq_exact hrep (by rw [hzero]; norm_num)]
  refine check_eq_checkSequence hon ⟨fun t ht => ?_, ?_⟩
  · obtain ⟨t', ht', rfl⟩ := List.mem_map.1 ht
    rw [magnitude_eq_abs]
    exact hsmall t' ht'
  · show age msg now ≤ g.cfg.maxSignalAge
    rw [hzero]
    exact hage

end Message

section Produced

variable {p : SignalProducer} {g : SignalGate} {per : UInt32} {now : Int64} {s : StrategyId}
variable {k : ℕ}

/-- What a book of the producer is. -/
theorem produce_targets (per : UInt32) (now : Int64) (s : StrategyId)
    (h₀ : 0 ≤ p.cfg.maxAbsTarget.toInt)
    (h : p.cfg.maxAbsTarget.toInt < 2 ^ 62) :
    (p.produce per now s).1.targets.length < 2 ^ 32 ∧
      ∀ t ∈ (p.produce per now s).1.targets, |t.signedTarget.toInt| ≤ p.cfg.maxAbsTarget.toInt := by
  obtain ⟨hlen, hdrawn⟩ := drawTargets_spec p.cfg
    ((nextRand p.rng).1.toNat % p.cfg.instruments.length) 0 per.toNat (nextRand p.rng).2
  refine ⟨hlen.trans_lt per.toNat_lt, fun t ht => ?_⟩
  obtain ⟨r, hr⟩ := hdrawn t ht
  rw [hr]
  exact toInt_drawnTarget h₀ h r

/-- **The gate accepts the message it is in step with.** -/
theorem check_produced (per : UInt32) (now : Int64) (hon : g.tradingEnabled = true)
    (hmatched : Matched p.cfg g.cfg) (hk : k + g.cfg.seqModulo.toNat < 2 ^ 64)
    (h : InStep p g k s) :
    check g (p.produce per now s).1 now =
      (.Accept, g.accept (p.produce per now s).1.exact now.toInt) := by
  have hbound : p.cfg.maxAbsTarget.toInt < 2 ^ 62 := hmatched.within.trans_lt hmatched.bounded
  obtain ⟨-, hsmall⟩ := produce_targets per now s hmatched.nonneg hbound
  have hseq : (p.produce per now s).1.exact.sequence.toNat = k := h.next
  have hnow : (p.produce per now s).1.generatedAt = now := rfl
  rw [check_eq_checkSequence_of_small hon hmatched.age hnow
    (fun t ht => (hsmall t ht).trans hmatched.within) hmatched.bounded]
  refine checkSequence_expected ?_ (Or.inl ?_) ?_
  · exact Nat.zero_lt_of_lt (UInt64.lt_iff_toNat_lt.1 hmatched.threshold)
  · show (p.produce per now s).1.exact.sequence.toNat + g.cfg.seqModulo.toNat < 2 ^ 64
    rw [hseq]
    exact hk
  · rw [hseq]
    exact h.remembers

/-- The strategy that was served is in step for the next cycle. -/
theorem inStep_self (hm : 0 < g.cfg.seqModulo.toNat) (hk : k + g.cfg.seqModulo.toNat < 2 ^ 64)
    (h : InStep p g k s) : InStep (p.produce per now s).2
      (g.accept (p.produce per now s).1.exact now.toInt) (k + 1) s := by
  have hseq : (p.produce per now s).1.exact.sequence.toNat = k := h.next
  constructor
  · show ((p.seq.insert s (p.seq.get s + 1)).get s).toNat = k + 1
    rw [Finmap.get_insert_self, UInt64.toNat_add, h.next]
    exact Nat.mod_eq_of_lt (by show k + 1 < 2 ^ 64; omega)
  · have hfit : g.cfg.Fits ((p.produce per now s).1.exact, now.toInt) := by
      refine Or.inl ?_
      show (p.produce per now s).1.exact.sequence.toNat + g.cfg.seqModulo.toNat < 2 ^ 64
      rw [hseq]
      exact hk
    have hremembers : Remembers (g.accept (p.produce per now s).1.exact now.toInt) s
        (some (p.produce per now s).1.exact.sequence.toNat) := remembers_accept hm hfit rfl rfl
    rwa [hseq] at hremembers

/-- The others stay in step. -/
theorem inStep_other {s' : StrategyId} (hne : s' ≠ s) (h : InStep p g k s') :
    InStep (p.produce per now s).2 (g.accept (p.produce per now s).1.exact now.toInt) k s' := by
  constructor
  · show ((p.seq.insert s (p.seq.get s + 1)).get s').toNat = k
    rw [Finmap.get_insert_of_ne _ _ hne]
    exact h.next
  · exact h.remembers.congr rfl (Finmap.get_insert_of_ne _ _ hne)

end Produced

/-! ### Cycles -/

section Cycle

variable {p : SignalProducer} {g : SignalGate} {per : UInt32} {now : Int64} {k : ℕ}

theorem deliver_cons {m : SignalMessage} {ms : List SignalMessage}
    (hlen : m.targets.length < 2 ^ 32) :
    deliver g now (m :: ms) = (some (check g m now).1 :: (deliver (check g m now).2 now ms).1,
      (deliver (check g m now).2 now ms).2) := by
  rw [deliver, deserializeSignal_eq_some_iff.2 ⟨hlen, rfl⟩]

/-- What a cycle leaves behind. -/
structure Advanced (p p' : SignalProducer) (g g' : SignalGate) (k : ℕ)
    (strategies : List StrategyId) : Prop where
  producer : p'.cfg = p.cfg
  gate : g'.cfg = g.cfg
  enabled : g'.tradingEnabled = true
  served : ∀ s ∈ strategies, InStep p' g' (k + 1) s
  others : ∀ s ∉ strategies, ∀ k', InStep p g k' s → InStep p' g' k' s

/-- **A cycle is accepted, and leads to the next one.** -/
theorem deliver_produceEach (per : UInt32) (now : Int64) {strategies : List StrategyId}
    (hnodup : strategies.Nodup) (hon : g.tradingEnabled = true) (hmatched : Matched p.cfg g.cfg)
    (hk : k + g.cfg.seqModulo.toNat < 2 ^ 64) (h : ∀ s ∈ strategies, InStep p g k s) :
    (deliver g now (p.produceEach per now strategies).1).1 =
        List.replicate strategies.length (some .Accept) ∧
      Advanced p (p.produceEach per now strategies).2 g
        (deliver g now (p.produceEach per now strategies).1).2 k strategies := by
  induction strategies generalizing p g with
  | nil =>
    exact ⟨rfl, rfl, rfl, hon, fun s hs => absurd hs List.not_mem_nil, fun _ _ _ h => h⟩
  | cons s strategies ih =>
    have hm : 0 < g.cfg.seqModulo.toNat :=
      Nat.zero_lt_of_lt (UInt64.lt_iff_toNat_lt.1 hmatched.threshold)
    have hs := h s List.mem_cons_self
    obtain ⟨hnot, hnodup'⟩ := List.nodup_cons.1 hnodup
    have hlen := (produce_targets per now s hmatched.nonneg
      (hmatched.within.trans_lt hmatched.bounded)).1
    have hcheck := check_produced per now hon hmatched hk hs
    -- the other strategies of the cycle do not see what `s` did to the producer and the gate
    obtain ⟨hverdicts, hadvanced⟩ := ih (p := (p.produce per now s).2)
      (g := g.accept (p.produce per now s).1.exact now.toInt) hnodup' hon hmatched hk
      fun s' hs' => inStep_other (fun heq => hnot (heq ▸ hs')) (h s' (List.mem_cons_of_mem _ hs'))
    have hproduced : p.produceEach per now (s :: strategies) =
        ((p.produce per now s).1 :: ((p.produce per now s).2.produceEach per now strategies).1,
          ((p.produce per now s).2.produceEach per now strategies).2) := rfl
    rw [hproduced, deliver_cons hlen, hcheck]
    refine ⟨by rw [hverdicts]; rfl, hadvanced.producer, hadvanced.gate, hadvanced.enabled, ?_, ?_⟩
    · intro s' hs'
      rcases List.mem_cons.1 hs' with rfl | hs'
      · exact hadvanced.others _ hnot _ (inStep_self hm hk hs)
      · exact hadvanced.served s' hs'
    · intro s' hs' k' hstep
      obtain ⟨hne, hs'⟩ := not_or.1 fun hor => hs' (List.mem_cons.2 hor)
      exact hadvanced.others s' hs' k' (inStep_other hne hstep)

end Cycle

theorem nodup_strategies {cfg : SignalProducerConfig} (h : cfg.numStrategies < 65535) :
    (SignalProducer.strategies cfg).Nodup := by
  have hnum : cfg.numStrategies.toNat < 65535 := UInt16.lt_iff_toNat_lt.1 h
  refine List.Nodup.map_on (fun i hi j hj heq => ?_) List.nodup_range
  rw [List.mem_range] at hi hj
  have htoNat := congrArg UInt16.toNat heq
  rw [UInt16.toNat_ofNat_of_lt' (by show i + 1 < 65536; omega),
    UInt16.toNat_ofNat_of_lt' (by show j + 1 < 65536; omega)] at htoNat
  omega

theorem length_strategies {cfg : SignalProducerConfig} :
    (SignalProducer.strategies cfg).length = cfg.numStrategies.toNat := by
  rw [SignalProducer.strategies, List.length_map, List.length_range]

/-- A cycle is one book for each strategy. -/
theorem produceCycle_eq {p : SignalProducer} (now : Int64) (h : p.cfg.instruments ≠ []) :
    ∃ per, p.produceCycle now = p.produceEach per now (SignalProducer.strategies p.cfg) := by
  unfold SignalProducer.produceCycle
  by_cases hnone : (p.cfg.instruments.isEmpty || decide (p.cfg.numStrategies = 0)) = true
  · rw [if_pos hnone]
    have hzero : p.cfg.numStrategies = 0 := by
      simpa [h] using hnone
    refine ⟨0, ?_⟩
    rw [SignalProducer.strategies, hzero]
    rfl
  · rw [if_neg hnone]
    exact ⟨_, rfl⟩

/-- Every cycle from the `k`-th on is accepted. -/
theorem pipeline_eq_replicate {p : SignalProducer} {g : SignalGate} {nows : List Int64} {k : ℕ}
    (hinst : p.cfg.instruments ≠ []) (hnum : p.cfg.numStrategies < 65535)
    (hon : g.tradingEnabled = true) (hmatched : Matched p.cfg g.cfg)
    (hk : k + nows.length < 2 ^ 64 - g.cfg.seqModulo.toNat)
    (h : ∀ s ∈ SignalProducer.strategies p.cfg, InStep p g k s) :
    pipeline p g nows =
      List.replicate (nows.length * p.cfg.numStrategies.toNat) (some .Accept) := by
  induction nows generalizing p g k with
  | nil => rw [List.length_nil, Nat.zero_mul]; rfl
  | cons now nows ih =>
    rw [List.length_cons] at hk
    obtain ⟨per, hcycle⟩ := produceCycle_eq now hinst
    obtain ⟨hverdicts, hadvanced⟩ := deliver_produceEach per now
      (nodup_strategies hnum) hon hmatched (by omega) h
    have hcfg := hadvanced.producer
    -- after the cycle every strategy stands at `k + 1`
    have hrest := ih (k := k + 1) (by rwa [hcfg]) (by rwa [hcfg]) hadvanced.enabled
      (by rwa [hcfg, hadvanced.gate]) (by rw [hadvanced.gate]; omega)
      (by rw [hcfg]; exact hadvanced.served)
    rw [pipeline, hcycle]
    dsimp only
    rw [hverdicts, hrest, hcfg, length_strategies, List.replicate_append_replicate,
      List.length_cons, Nat.succ_mul, Nat.add_comm]

/-- **The pipeline accepts its own producer forever.** Across any number of wraps of the sequence
number, every message of every cycle passes the codec and the gate in order. -/
theorem pipeline_accepts {pcfg : SignalProducerConfig} {gcfg : SignalGateConfig}
    {nows : List Int64} (hinst : pcfg.instruments ≠ []) (hnum : pcfg.numStrategies < 65535)
    (hmatched : Matched pcfg gcfg) (hcycles : nows.length < 2 ^ 64 - gcfg.seqModulo.toNat) :
    pipeline (SignalProducer.new pcfg) { cfg := gcfg, tradingEnabled := true } nows =
      List.replicate (nows.length * pcfg.numStrategies.toNat) (some .Accept) := by
  refine pipeline_eq_replicate (p := SignalProducer.new pcfg) hinst hnum rfl hmatched (k := 0) ?_ ?_
  · rw [Nat.zero_add]
    exact hcycles
  · intro s _
    constructor
    · show ((∅ : Finmap fun _ : StrategyId => UInt64).get s).toNat = 0
      rw [Finmap.get_empty]
      rfl
    · show ((∅ : Finmap fun _ : StrategyId => Producer).get s).seen = false
      rw [Finmap.get_empty]
      rfl

/-- Two strategies over two instruments, and three cycles. -/
theorem pipeline_accepts_two : pipeline
    (SignalProducer.new { numStrategies := 2, instruments := [1, 2], targetsPerStrategy := 1 })
      { cfg := {}, tradingEnabled := true } [10, 20, 30] =
    List.replicate (3 * 2) (some .Accept) :=
  pipeline_accepts (by simp) (by decide)
    ⟨by decide, by decide, by decide, by decide, by decide⟩ (by decide)

end Wire

end Oms
