import Oms.Signal.Wire

/-!
# The seeded signal producer

`SignalProducer.h`, `SignalProducer.cpp`: target books for the strategies `1, …, numStrategies`,
drawn from a splitmix64 generator, with a sequence number counted for each strategy.

* `toInt_drawnTarget`: a drawn target lies within the configured magnitude;
* `drawTargets_spec`: so do all targets of a book, of which there are as many as asked for.
-/

namespace Oms

namespace Wire

/-- One step of splitmix64: the number drawn and the next state. -/
def nextRand (s : UInt64) : UInt64 × UInt64 :=
  let s := s + 0x9E3779B97F4A7C15
  let z := s
  let z := (z ^^^ (z >>> 30)) * 0xBF58476D1CE4E5B9
  let z := (z ^^^ (z >>> 27)) * 0x94D049BB133111EB
  (z ^^^ (z >>> 31), s)

structure SignalProducerConfig where
  /-- strategies indexed 1..N -/
  numStrategies : StrategyId := 50
  /-- the shared universe -/
  instruments : List InstrumentId := []
  targetsPerStrategy : UInt32 := 8
  maxAbsTarget : Int64 := 500
  seed : UInt64 := 0x5eed123456789abc

structure SignalProducer where
  cfg : SignalProducerConfig
  rng : UInt64
  seq : Finmap fun _ : StrategyId => UInt64 := ∅

/-- A number drawn, reduced into the range of targets. -/
def drawnTarget (cfg : SignalProducerConfig) (r : UInt64) : Int64 :=
  let span : Int64 := 2 * cfg.maxAbsTarget + 1
  (r % span.toUInt64).toInt64 - cfg.maxAbsTarget

/-- The targets from the `i`-th on, `count` of them, and the state of the generator afterwards. -/
def drawTargets (cfg : SignalProducerConfig) (start : ℕ) :
    ℕ → ℕ → UInt64 → List TargetPosition × UInt64
  | _, 0, rng => ([], rng)
  | i, count + 1, rng =>
    -- the index is in range: the universe is not empty here
    let inst := cfg.instruments.getD ((start + i) % cfg.instruments.length) 0
    let (r, rng) := nextRand rng
    let (targets, rng) := drawTargets cfg start (i + 1) count rng
    ({ instrument := inst, signedTarget := drawnTarget cfg r } :: targets, rng)

namespace SignalProducer

/-- The producer at its start. -/
def new (cfg : SignalProducerConfig) : SignalProducer := { cfg, rng := cfg.seed }

/-- The book of one strategy. -/
def produce (p : SignalProducer) (per : UInt32) (now : Int64) (s : StrategyId) :
    SignalMessage × SignalProducer :=
  let sequence := p.seq.get s
  let (r, rng) := nextRand p.rng
  let start := r.toNat % p.cfg.instruments.length
  let (targets, rng) := drawTargets p.cfg start 0 per.toNat rng
  ({ sequence, generatedAt := now, strategyId := s, targets },
    { p with rng, seq := p.seq.insert s (sequence + 1) })

/-- The books of a list of strategies, in order. -/
def produceEach (p : SignalProducer) (per : UInt32) (now : Int64) :
    List StrategyId → List SignalMessage × SignalProducer
  | [] => ([], p)
  | s :: strategies =>
    let (m, p) := p.produce per now s
    let (ms, p) := produceEach p per now strategies
    (m :: ms, p)

/-- The strategies `1, …, numStrategies`. The loop of the source ends for `numStrategies < 65535`
only, since its index has 16 bits. -/
def strategies (cfg : SignalProducerConfig) : List StrategyId :=
  (List.range cfg.numStrategies.toNat).map fun i => UInt16.ofNat (i + 1)

/-- One message per strategy for this cycle. -/
def produceCycle (p : SignalProducer) (now : Int64) : List SignalMessage × SignalProducer :=
  if p.cfg.instruments.isEmpty || p.cfg.numStrategies = 0 then ([], p)
  else
    let per := if p.cfg.instruments.length < p.cfg.targetsPerStrategy.toNat then
        UInt32.ofNat p.cfg.instruments.length
      else p.cfg.targetsPerStrategy
    p.produceEach per now (strategies p.cfg)

end SignalProducer

section Drawn

variable {cfg : SignalProducerConfig}

/-- **A drawn target lies within the configured magnitude**, as long as the span fits. -/
theorem toInt_drawnTarget (h₀ : 0 ≤ cfg.maxAbsTarget.toInt) (h : cfg.maxAbsTarget.toInt < 2 ^ 62)
    (r : UInt64) : |(drawnTarget cfg r).toInt| ≤ cfg.maxAbsTarget.toInt := by
  have hspan : (2 * cfg.maxAbsTarget + 1 : Int64).toInt = 2 * cfg.maxAbsTarget.toInt + 1 := by
    have hmul : (2 * cfg.maxAbsTarget : Int64).toInt = 2 * cfg.maxAbsTarget.toInt := by
      rw [Int64.toInt_mul, show (2 : Int64).toInt = 2 from rfl]
      exact Int.bmod_eq_of_le (by omega) (by omega)
    rw [Int64.toInt_add, hmul, show (1 : Int64).toInt = 1 from rfl]
    exact Int.bmod_eq_of_le (by omega) (by omega)
  have hmod : (2 * cfg.maxAbsTarget + 1 : Int64).toUInt64.toNat =
      (2 * cfg.maxAbsTarget.toInt + 1).toNat := by
    rw [Int64.toNat_toUInt64_of_le, ← Int64.toNat_toInt, hspan]
    rw [Int64.le_iff_toInt_le, hspan, Int64.toInt_zero]
    omega
  have hlt : (r % (2 * cfg.maxAbsTarget + 1 : Int64).toUInt64).toNat <
      (2 * cfg.maxAbsTarget.toInt + 1).toNat := by
    rw [UInt64.toNat_mod, hmod]
    exact Nat.mod_lt _ (by omega)
  have hdrawn : (r % (2 * cfg.maxAbsTarget + 1 : Int64).toUInt64).toInt64.toInt =
      (r % (2 * cfg.maxAbsTarget + 1 : Int64).toUInt64).toNat := by
    refine BitVec.toInt_eq_toNat_of_lt ?_
    show 2 * (r % (2 * cfg.maxAbsTarget + 1 : Int64).toUInt64).toNat < 2 ^ 64
    omega
  unfold drawnTarget
  rw [Int64.toInt_sub, hdrawn, Int.bmod_eq_of_le (by omega) (by omega), abs_le]
  omega

theorem drawTargets_spec (cfg : SignalProducerConfig) (start i count : ℕ) (rng : UInt64) :
    (drawTargets cfg start i count rng).1.length = count ∧
      ∀ t ∈ (drawTargets cfg start i count rng).1, ∃ r, t.signedTarget = drawnTarget cfg r := by
  induction count generalizing i rng with
  | zero => exact ⟨rfl, fun t ht => absurd ht List.not_mem_nil⟩
  | succ count ih =>
    obtain ⟨hlen, hdrawn⟩ := ih (i + 1) (nextRand rng).2
    refine ⟨congrArg (· + 1) hlen, fun t ht => ?_⟩
    rcases List.mem_cons.1 ht with rfl | ht
    · exact ⟨_, rfl⟩
    · exact hdrawn t ht

end Drawn

end Wire

end Oms
