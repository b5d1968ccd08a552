import Oms.Signal.Pipeline

/-!
# The loop over the strategies

`SignalProducer.cpp`, `SignalProducer::produce_cycle`: the index of the loop is a `StrategyId`, and
so is its inclusive bound. The loop is given a number of turns here, so that a loop that does not
end can be told.

* `produceFrom_eq_none`: with 65535 strategies no number of turns is enough;
* `produceFrom_eq_some`: with fewer the loop makes the books of the strategies in order;
* `books_produceEach`: what these books are.
-/

namespace Oms

namespace Wire

/-- The targets of a book: as many as asked for, and no more than there are instruments. -/
def SignalProducerConfig.per (cfg : SignalProducerConfig) : UInt32 :=
  if cfg.instruments.length < cfg.targetsPerStrategy.toNat then
    UInt32.ofNat cfg.instruments.length
  else cfg.targetsPerStrategy

namespace SignalProducer

/-- The loop of `produce_cycle` from strategy `s` on. `none` when `fuel` turns do not end it. -/
def produceFrom (per : UInt32) (now : Int64) :
    ℕ → StrategyId → SignalProducer → Option (List SignalMessage × SignalProducer)
  | 0, _, _ => none
  | fuel + 1, s, p =>
    if s ≤ p.cfg.numStrategies then
      let (m, p) := p.produce per now s
      -- the index wraps: the strategy after 65535 is 0
      (produceFrom per now fuel (s + 1) p).map fun (ms, p) => (m :: ms, p)
    else some ([], p)

/-- `produce_cycle`, its loop given `fuel` turns. -/
def produceCycleIn (fuel : ℕ) (p : SignalProducer) (now : Int64) :
    Option (List SignalMessage × SignalProducer) :=
  if p.cfg.instruments.isEmpty || p.cfg.numStrategies = 0 then some ([], p)
  else produceFrom p.cfg.per now fuel 1 p

/-- The messages of a sequence of cycles, each at its own time. -/
def cyclesIn (fuel : ℕ) (p : SignalProducer) : List Int64 → Option (List (List SignalMessage))
  | [] => some []
  | now :: nows =>
    (produceCycleIn fuel p now).bind fun (ms, p) => (cyclesIn fuel p nows).map (ms :: ·)

/-- The same messages, each cycle over the whole list of strategies. -/
def cycles (p : SignalProducer) : List Int64 → List (List SignalMessage)
  | [] => []
  | now :: nows => (p.produceCycle now).1 :: cycles (p.produceCycle now).2 nows

end SignalProducer

open SignalProducer

/-- What is asked of the messages of the `k`-th cycle, counted from zero. -/
structure Books (cfg : SignalProducerConfig) (k : ℕ) (ms : List SignalMessage) : Prop where
  strategies : ms.map (·.strategyId.toNat) = List.range' 1 cfg.numStrategies.toNat
  targets : ∀ m ∈ ms,
    m.targets.length = min cfg.targetsPerStrategy.toNat cfg.instruments.length
  within : ∀ m ∈ ms, ∀ t ∈ m.targets, |t.signedTarget.toInt| ≤ cfg.maxAbsTarget.toInt
  sequence : ∀ m ∈ ms, m.sequence = UInt64.ofNat k

section Loop

variable {p : SignalProducer} {per : UInt32} {now : Int64}

/-- **With 65535 strategies the loop does not end**: every index is within the bound. -/
theorem produceFrom_eq_none (h : p.cfg.numStrategies = 65535) (fuel : ℕ) (s : StrategyId) :
    produceFrom per now fuel s p = none := by
  induction fuel generalizing s p with
  | zero => rfl
  | succ fuel ih =>
    have hle : s ≤ p.cfg.numStrategies := by
      rw [h, UInt16.le_iff_toNat_le]
      exact Nat.le_of_lt_succ s.toNat_lt
    rw [produceFrom, if_pos hle]
    dsimp only
    rw [ih (p := (p.produce per now s).2) h]
    rfl

/-- **With fewer the loop makes the books of the strategies up to the bound.** -/
theorem produceFrom_eq_some {fuel count : ℕ} {s : StrategyId} (h : p.cfg.numStrategies < 65535)
    (hs : s.toNat + count = p.cfg.numStrategies.toNat + 1) (hfuel : count < fuel) :
    produceFrom per now fuel s p =
      some (p.produceEach per now ((List.range' s.toNat count).map UInt16.ofNat)) := by
  induction count generalizing fuel s p with
  | zero =>
    obtain ⟨fuel, rfl⟩ := Nat.exists_eq_add_one_of_ne_zero hfuel.ne'
    have hgt : ¬s ≤ p.cfg.numStrategies := by
      rw [UInt16.le_iff_toNat_le]
      omega
    rw [produceFrom, if_neg hgt]
    rfl
  | succ count ih =>
    obtain ⟨fuel, rfl⟩ := Nat.exists_eq_add_one_of_ne_zero (Nat.ne_zero_of_lt hfuel)
    have hle : s ≤ p.cfg.numStrategies := by
      rw [UInt16.le_iff_toNat_le]
      omega
    -- below the top of the range the index does not wrap
    have hnum : p.cfg.numStrategies.toNat < 65535 := UInt16.lt_iff_toNat_lt.1 h
    have hnext : (s + 1).toNat = s.toNat + 1 := by
      rw [UInt16.toNat_add]
      exact Nat.mod_eq_of_lt (by show s.toNat + 1 < 65536; omega)
    have hrest : (s + 1).toNat + count = (p.produce per now s).2.cfg.numStrategies.toNat + 1 := by
      rw [hnext, Nat.add_right_comm]
      exact hs
    rw [produceFrom, if_pos hle, List.range'_succ, List.map_cons, UInt16.ofNat_toNat]
    dsimp only
    rw [ih (p := (p.produce per now s).2) h hrest (Nat.lt_of_succ_lt_succ hfuel), hnext]
    rfl

end Loop

/-! ### One cycle -/

section Cycle

variable {p : SignalProducer} {per : UInt32} {now : Int64} {k : ℕ}

theorem toNat_per (cfg : SignalProducerConfig) :
    cfg.per.toNat = min cfg.targetsPerStrategy.toNat cfg.instruments.length := by
  unfold SignalProducerConfig.per
  split_ifs with h
  · have hlt := h.trans cfg.targetsPerStrategy.toNat_lt
    rw [UInt32.toNat_ofNat_of_lt' hlt, Nat.min_eq_right h.le]
  · exact (Nat.min_eq_left (not_lt.1 h)).symm

/-- The loop starts at strategy 1. -/
theorem strategies_eq (cfg : SignalProducerConfig) :
    strategies cfg = (List.range' 1 cfg.numStrategies.toNat).map UInt16.ofNat := by
  rw [strategies, List.range'_eq_map_range, List.map_map]
  exact List.map_congr_left fun i _ => congrArg UInt16.ofNat (Nat.add_comm i 1)

theorem map_toNat_strategies {cfg : SignalProducerConfig} (h : cfg.numStrategies < 65535) :
    (strategies cfg).map UInt16.toNat = List.range' 1 cfg.numStrategies.toNat := by
  have hnum : cfg.numStrategies.toNat < 65535 := UInt16.lt_iff_toNat_lt.1 h
  rw [strategies_eq, List.map_map]
  refine (List.map_congr_left fun i hi => ?_).trans (List.map_id _)
  have hi' := (List.mem_range'_1.1 hi).2
  exact UInt16.toNat_ofNat_of_lt' (by show i < 65536; omega)

theorem produceCycleIn_eq_none {fuel : ℕ} (hinst : p.cfg.instruments ≠ [])
    (h : p.cfg.numStrategies = 65535) : produceCycleIn fuel p now = none := by
  have hsome : ¬(p.cfg.instruments.isEmpty || decide (p.cfg.numStrategies = 0)) = true := by
    rw [h]
    simpa using hinst
  rw [produceCycleIn, if_neg hsome, produceFrom_eq_none h]

/-- **A cycle with fewer than 65535 strategies ends**, with the books of `produceCycle`. -/
theorem produceCycleIn_eq_some {fuel : ℕ} (h : p.cfg.numStrategies < 65535)
    (hfuel : p.cfg.numStrategies.toNat < fuel) :
    produceCycleIn fuel p now = some (p.produceCycle now) := by
  unfold produceCycleIn produceCycle
  by_cases hnone : (p.cfg.instruments.isEmpty || decide (p.cfg.numStrategies = 0)) = true
  · rw [if_pos hnone, if_pos hnone]
  · rw [if_neg hnone, if_neg hnone, produceFrom_eq_some h (Nat.add_comm 1 _) hfuel, strategies_eq]
    rfl

/-- A cycle is one book for each strategy, of as many targets as there can be. -/
theorem produceCycle_eq_per (now : Int64) (hinst : p.cfg.instruments ≠ []) :
    p.produceCycle now = p.produceEach p.cfg.per now (strategies p.cfg) := by
  unfold produceCycle
  by_cases hnone : (p.cfg.instruments.isEmpty || decide (p.cfg.numStrategies = 0)) = true
  · have hzero : p.cfg.numStrategies = 0 := by
      simpa [hinst] using hnone
    rw [if_pos hnone, strategies, hzero]
    rfl
  · rw [if_neg hnone]
    rfl

theorem map_strategyId_produceEach (p : SignalProducer) (per : UInt32) (now : Int64)
    (ss : List StrategyId) : (p.produceEach per now ss).1.map (·.strategyId) = ss := by
  induction ss generalizing p with
  | nil => rfl
  | cons s ss ih => exact congrArg (s :: ·) (ih (p.produce per now s).2)

theorem cfg_produceEach (ss : List StrategyId) : (p.produceEach per now ss).2.cfg = p.cfg := by
  induction ss generalizing p with
  | nil => rfl
  | cons s ss ih => exact ih (p := (p.produce per now s).2)

/-- Each message is a book of a producer of this configuration. -/
theorem exists_produce_of_mem {m : SignalMessage} {ss : List StrategyId}
    (hm : m ∈ (p.produceEach per now ss).1) :
    ∃ p' : SignalProducer, ∃ s, p'.cfg = p.cfg ∧ m = (p'.produce per now s).1 := by
  induction ss generalizing p with
  | nil => exact absurd hm List.not_mem_nil
  | cons s ss ih =>
    rcases List.mem_cons.1 hm with rfl | hm
    · exact ⟨p, s, rfl, rfl⟩
    · exact ih (p := (p.produce per now s).2) hm

/-- A strategy outside the list keeps its sequence number. -/
theorem seq_produceEach_of_notMem {s : StrategyId} {ss : List StrategyId} (hs : s ∉ ss) :
    (p.produceEach per now ss).2.seq.get s = p.seq.get s := by
  induction ss generalizing p with
  | nil => rfl
  | cons s' ss ih =>
    obtain ⟨hne, hs⟩ := not_or.1 fun hor => hs (List.mem_cons.2 hor)
    exact (ih (p := (p.produce per now s').2) hs).trans (Finmap.get_insert_of_ne _ _ hne)

/-- A strategy of the list is numbered once, and its number counted up by one. -/
theorem seq_produceEach_of_mem {s : StrategyId} {ss : List StrategyId} (hnodup : ss.Nodup)
    (hs : s ∈ ss) : (p.produceEach per now ss).2.seq.get s = p.seq.get s + 1 := by
  induction ss generalizing p with
  | nil => exact absurd hs List.not_mem_nil
  | cons s' ss ih =>
    obtain ⟨hnot, hnodup⟩ := List.nodup_cons.1 hnodup
    by_cases heq : s = s'
    · rw [heq]
      exact (seq_produceEach_of_notMem (p := (p.produce per now s').2) hnot).trans
        (Finmap.get_insert_self _ _ _)
    · have hrest := ih (p := (p.produce per now s').2) hnodup (List.mem_of_ne_of_mem heq hs)
      exact hrest.trans (congrArg (· + 1) (Finmap.get_insert_of_ne _ _ heq))

/-- The messages carry the numbers the producer had for their strategies. -/
theorem sequence_produceEach {m : SignalMessage} {ss : List StrategyId} (hnodup : ss.Nodup)
    (hm : m ∈ (p.produceEach per now ss).1) : m.sequence = p.seq.get m.strategyId := by
  induction ss generalizing p with
  | nil => exact absurd hm List.not_mem_nil
  | cons s ss ih =>
    obtain ⟨hnot, hnodup⟩ := List.nodup_cons.1 hnodup
    rcases List.mem_cons.1 hm with rfl | hm
    · rfl
    · have hmem : m.strategyId ∈ ss := by
        rw [← map_strategyId_produceEach (p.produce per now s).2 per now ss]
        exact List.mem_map_of_mem hm
      exact (ih (p := (p.produce per now s).2) hnodup hm).trans
        (Finmap.get_insert_of_ne _ _ fun heq => hnot (heq ▸ hmem))

/-- **The messages of the `k`-th cycle** of a producer that numbers all strategies alike. -/
theorem books_produceCycle (now : Int64) (hinst : p.cfg.instruments ≠ [])
    (h₀ : 0 ≤ p.cfg.maxAbsTarget.toInt) (h : p.cfg.maxAbsTarget.toInt < 2 ^ 62)
    (hnum : p.cfg.numStrategies < 65535)
    (hseq : ∀ s ∈ strategies p.cfg, p.seq.get s = UInt64.ofNat k) :
    Books p.cfg k (p.produceCycle now).1 := by
  rw [produceCycle_eq_per now hinst]
  constructor
  · have hmap := congrArg (List.map UInt16.toNat)
      (map_strategyId_produceEach p p.cfg.per now (strategies p.cfg))
    rw [List.map_map, map_toNat_strategies hnum] at hmap
    exact hmap
  · intro m hm
    obtain ⟨p', s, hcfg, rfl⟩ := exists_produce_of_mem hm
    exact (drawTargets_spec _ _ _ _ _).1.trans (toNat_per p.cfg)
  · intro m hm t ht
    obtain ⟨p', s, hcfg, rfl⟩ := exists_produce_of_mem hm
    rw [← hcfg] at h₀ h ⊢
    exact (produce_targets _ now s h₀ h).2 t ht
  · intro m hm
    rw [sequence_produceEach (nodup_strategies hnum) hm]
    refine hseq _ ?_
    rw [← map_strategyId_produceEach p p.cfg.per now (strategies p.cfg)]
    exact List.mem_map_of_mem hm

/-- The next cycle numbers all strategies alike, too. -/
theorem seq_produceCycle (now : Int64) (hinst : p.cfg.instruments ≠ [])
    (hnum : p.cfg.numStrategies < 65535)
    (hseq : ∀ s ∈ strategies p.cfg, p.seq.get s = UInt64.ofNat k) :
    ∀ s ∈ strategies p.cfg, (p.produceCycle now).2.seq.get s = UInt64.ofNat (k + 1) := by
  intro s hs
  rw [produceCycle_eq_per now hinst, seq_produceEach_of_mem (nodup_strategies hnum) hs, hseq s hs,
    UInt64.ofNat_add]
  rfl

end Cycle

/-! ### Any number of cycles -/

section Cycles

variable {cfg : SignalProducerConfig}

theorem cfg_produceCycle {p : SignalProducer} (now : Int64) (hinst : p.cfg.instruments ≠ []) :
    (p.produceCycle now).2.cfg = p.cfg := by
  rw [produceCycle_eq_per now hinst, cfg_produceEach]

/-- Enough turns for one cycle are enough for all of them. -/
theorem cyclesIn_eq_some {p : SignalProducer} {fuel : ℕ} (nows : List Int64)
    (hinst : p.cfg.instruments ≠ []) (hnum : p.cfg.numStrategies < 65535)
    (hfuel : p.cfg.numStrategies.toNat < fuel) :
    cyclesIn fuel p nows = some (p.cycles nows) := by
  induction nows generalizing p with
  | nil => rfl
  | cons now nows ih =>
    have hcfg := cfg_produceCycle now hinst
    rw [cyclesIn, produceCycleIn_eq_some hnum hfuel]
    dsimp only [Option.bind_some]
    rw [ih (by rwa [hcfg]) (by rwa [hcfg]) (by rwa [hcfg])]
    rfl

theorem length_cycles (p : SignalProducer) (nows : List Int64) :
    (p.cycles nows).length = nows.length := by
  induction nows generalizing p with
  | nil => rfl
  | cons now nows ih => exact congrArg (· + 1) (ih _)

/-- **The messages of the cycles from the `k`-th on.** -/
theorem books_cycles {p : SignalProducer} {k i : ℕ} {nows : List Int64} {ms : List SignalMessage}
    (hinst : p.cfg.instruments ≠ []) (h₀ : 0 ≤ p.cfg.maxAbsTarget.toInt)
    (h : p.cfg.maxAbsTarget.toInt < 2 ^ 62) (hnum : p.cfg.numStrategies < 65535)
    (hseq : ∀ s ∈ strategies p.cfg, p.seq.get s = UInt64.ofNat k)
    (hms : (p.cycles nows)[i]? = some ms) : Books p.cfg (k + i) ms := by
  induction nows generalizing p k i with
  | nil => exact absurd hms (by simp [SignalProducer.cycles])
  | cons now nows ih =>
    have hcfg := cfg_produceCycle now hinst
    cases i with
    | zero =>
      obtain rfl := Option.some.inj hms
      exact books_produceCycle now hinst h₀ h hnum hseq
    | succ i =>
      have hnext := seq_produceCycle now hinst hnum hseq
      rw [← hcfg] at hinst h₀ h hnum hnext ⊢
      rw [← Nat.add_assoc, Nat.add_right_comm]
      exact ih hinst h₀ h hnum hnext hms

/-- **Cycles end, with the messages asked for, exactly for fewer than 65535 strategies.** At 65535
the 16-bit index of the loop never exceeds its bound. -/
theorem cycles_end_iff (hinst : cfg.instruments ≠ []) (h₀ : 0 ≤ cfg.maxAbsTarget.toInt)
    (h : cfg.maxAbsTarget.toInt < 2 ^ 62) :
    (∀ nows, ∃ books, (∃ enough, ∀ fuel ≥ enough, cyclesIn fuel (new cfg) nows = some books) ∧
      books.length = nows.length ∧ ∀ k ms, books[k]? = some ms → Books cfg k ms) ↔
    cfg.numStrategies ≠ 65535 := by
  constructor
  · intro hends hnum
    obtain ⟨books, ⟨enough, hbooks⟩, -⟩ := hends [0]
    have hnone := hbooks enough le_rfl
    rw [cyclesIn, produceCycleIn_eq_none (p := new cfg) hinst hnum] at hnone
    exact absurd hnone (by simp)
  · intro hne nows
    have hnum : cfg.numStrategies < 65535 := by
      rw [UInt16.lt_iff_toNat_lt]
      have hlt := cfg.numStrategies.toNat_lt
      have hne' : cfg.numStrategies.toNat ≠ 65535 := fun heq => hne (UInt16.toNat_inj.1 heq)
      show cfg.numStrategies.toNat < 65535
      omega
    refine ⟨(new cfg).cycles nows, ⟨cfg.numStrategies.toNat + 1, fun fuel hfuel => ?_⟩,
      length_cycles _ nows, fun k ms hms => ?_⟩
    · exact cyclesIn_eq_some (p := new cfg) nows hinst hnum hfuel
    · rw [← Nat.zero_add k]
      exact books_cycles (p := new cfg) hinst h₀ h hnum (fun s _ => Finmap.get_empty s) hms

/-- Three cycles of two strategies over three instruments, each asked for eight targets. -/
theorem cycles_end_two : ∃ books,
    (∃ enough, ∀ fuel ≥ enough,
      cyclesIn fuel (new { numStrategies := 2, instruments := [7, 8, 9] }) [0, 5, 5] =
        some books) ∧
    books.length = 3 ∧
    ∀ k ms, books[k]? = some ms → Books { numStrategies := 2, instruments := [7, 8, 9] } k ms :=
  (cycles_end_iff (by simp) (by decide) (by decide)).2 (by decide) [0, 5, 5]

/-- Every strategy an id has room for, over one instrument. -/
def fullRange : SignalProducerConfig := { numStrategies := 65535, instruments := [1] }

/-- **The producer of every strategy never returns from a cycle**, whatever the time and however
many turns its loop is given. -/
theorem fullRange_never_returns :
    fullRange.instruments ≠ [] ∧ 0 ≤ fullRange.maxAbsTarget.toInt ∧
      fullRange.maxAbsTarget.toInt < 2 ^ 62 ∧
      ∀ fuel now, produceCycleIn fuel (new fullRange) now = none :=
  ⟨by decide, by decide, by decide, fun _ _ => produceCycleIn_eq_none (by decide) rfl⟩

end Cycles

end Wire

end Oms
