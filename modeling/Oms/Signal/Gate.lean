import Oms.Foundation.Serial
import Oms.Signal

/-!
# What the sequence check accepts

For each producer the gate is a receiver of serial numbers modulo `seqModulo`, whose threshold is
`missThreshold`.

* `acceptedSeqs_eq_accepted`: the gate accepts what that receiver accepts;
* `acceptedSeqs_increasing_iff`: the accepted numbers of a producer increase exactly if none of its
  messages comes `missThreshold` or more behind an earlier one.
-/

namespace Oms

/-- The distance up to which the gate recognises a message as behind. A threshold above the modulus
wraps around and recognises none. -/
def SignalGateConfig.recognised (cfg : SignalGateConfig) : ℕ :=
  if cfg.missThreshold ≤ cfg.seqModulo then cfg.missThreshold.toNat else 0

/-- The message passes the checks before the sequence check. -/
structure SignalGateConfig.Passes (cfg : SignalGateConfig) (d : SignalMessage × Timestamp) :
    Prop where
  sane : ∀ t ∈ d.1.targets, magnitude t.signedTarget ≤ cfg.maxAbsTarget
  fresh : d.2 - d.1.generatedAt ≤ cfg.maxSignalAge

/-- The sequence check does not leave 64 bits, or a wrap at 64 bits is a wrap at the modulus. -/
def SignalGateConfig.Fits (cfg : SignalGateConfig) (d : SignalMessage × Timestamp) : Prop :=
  d.1.sequence.toNat + cfg.seqModulo.toNat < 2 ^ 64 ∨ cfg.seqModulo.toNat ∣ 2 ^ 64

/-- The sequence numbers a producer delivers. -/
def deliveredSeqs (producer : StrategyId) (ds : List (SignalMessage × Timestamp)) : List ℕ :=
  (ds.filter fun d => d.1.strategyId = producer).map fun d => d.1.sequence.toNat

/-- The sequence numbers of a producer that are accepted. -/
def acceptedSeqs (g : SignalGate) (producer : StrategyId)
    (ds : List (SignalMessage × Timestamp)) : List ℕ :=
  ((g.checkAll ds).filter fun r => r.1.strategyId = producer ∧
    (r.2 = .Accept ∨ r.2 = .GapAcceptedLogged)).map fun r => r.1.sequence.toNat

/-! ### One message -/

section Check

variable {g : SignalGate} {msg : SignalMessage} {now : Timestamp}

theorem check_eq_checkSequence (hon : g.tradingEnabled = true) (h : g.cfg.Passes (msg, now)) :
    g.check msg now = g.checkSequence msg now := by
  unfold SignalGate.check
  have hfind : msg.targets.find? (fun t => g.cfg.maxAbsTarget < magnitude t.signedTarget) =
      none := by
    refine List.find?_eq_none.2 fun t ht => ?_
    rw [decide_eq_true_iff]
    exact not_lt.2 (h.sane t ht)
  rw [hon, hfind]
  exact if_neg (not_lt.2 h.fresh)

/-- What the gate remembers of a producer whose last accepted number is `last`. -/
def Remembers (g : SignalGate) (producer : StrategyId) : Option ℕ → Prop
  | none => (g.producers.get producer).seen = false
  | some last => (g.producers.get producer).seen = true ∧
      (g.producers.get producer).expectedSeq.toNat = (last + 1) % g.cfg.seqModulo.toNat

/-- The difference computed in 64 bits is the gap. -/
theorem delta_toNat (hm : 0 < g.cfg.seqModulo.toNat) (hfit : g.cfg.Fits (msg, now)) {last : ℕ}
    {e : UInt64} (he : e.toNat = (last + 1) % g.cfg.seqModulo.toNat) :
    ((msg.sequence + g.cfg.seqModulo - e) % g.cfg.seqModulo).toNat =
      Serial.gap g.cfg.seqModulo.toNat last msg.sequence.toNat := by
  have hlt := Nat.mod_lt (last + 1) hm
  have hmod := g.cfg.seqModulo.toNat_lt
  have hseq := msg.sequence.toNat_lt
  have hdiff : (msg.sequence + g.cfg.seqModulo - e).toNat =
      (msg.sequence.toNat + g.cfg.seqModulo.toNat - e.toNat) % 2 ^ 64 := by
    rw [UInt64.toNat_sub, UInt64.toNat_add]
    omega
  rw [UInt64.toNat_mod, hdiff, Serial.gap, he]
  rcases hfit with hfit | hfit
  · have hsmall : msg.sequence.toNat + g.cfg.seqModulo.toNat < 2 ^ 64 := hfit
    rw [Nat.mod_eq_of_lt (a := _ - _) (by omega)]
  · exact Nat.mod_mod_of_dvd _ hfit

theorem expected_toNat (hm : 0 < g.cfg.seqModulo.toNat) (hfit : g.cfg.Fits (msg, now)) :
    ((msg.sequence + 1) % g.cfg.seqModulo).toNat =
      (msg.sequence.toNat + 1) % g.cfg.seqModulo.toNat := by
  rw [UInt64.toNat_mod, UInt64.toNat_add]
  rcases hfit with hfit | hfit
  · have hsmall : msg.sequence.toNat + g.cfg.seqModulo.toNat < 2 ^ 64 := hfit
    rw [Nat.mod_eq_of_lt (a := _ + _)]
    · rfl
    · show msg.sequence.toNat + 1 < 2 ^ 64
      omega
  · exact Nat.mod_mod_of_dvd _ hfit

/-- The threshold compared in 64 bits is the recognised distance. -/
theorem threshold_le_iff {delta : UInt64} (hdelta : delta.toNat < g.cfg.seqModulo.toNat) :
    g.cfg.seqModulo - g.cfg.missThreshold ≤ delta ↔
      g.cfg.seqModulo.toNat - g.cfg.recognised ≤ delta.toNat := by
  have hmod := g.cfg.seqModulo.toNat_lt
  have hmiss := g.cfg.missThreshold.toNat_lt
  rw [UInt64.le_iff_toNat_le, UInt64.toNat_sub, SignalGateConfig.recognised]
  split_ifs with hle
  · rw [UInt64.le_iff_toNat_le] at hle
    omega
  · rw [UInt64.le_iff_toNat_le] at hle
    omega

/-- The sequence check on a message of a producer that was not seen. -/
theorem checkSequence_unseen (h : (g.producers.get msg.strategyId).seen = false) :
    g.checkSequence msg now = (.Accept, g.accept msg now) := by
  unfold SignalGate.checkSequence
  dsimp only
  rw [h]
  rfl

/-- The two comparisons of the sequence check decide whether the receiver accepts. -/
theorem accepts_iff {last : ℕ} {e : UInt64} (hm : 0 < g.cfg.seqModulo.toNat)
    (hfit : g.cfg.Fits (msg, now)) (he : e.toNat = (last + 1) % g.cfg.seqModulo.toNat) :
    Serial.Accepts g.cfg.seqModulo.toNat g.cfg.recognised last msg.sequence.toNat ↔
      (msg.sequence + g.cfg.seqModulo - e) % g.cfg.seqModulo = 0 ∨
        ¬ g.cfg.seqModulo - g.cfg.missThreshold ≤
          (msg.sequence + g.cfg.seqModulo - e) % g.cfg.seqModulo := by
  have hdelta := delta_toNat hm hfit he
  have hlt : Serial.gap g.cfg.seqModulo.toNat last msg.sequence.toNat <
      g.cfg.seqModulo.toNat := Nat.mod_lt _ hm
  rw [threshold_le_iff (hdelta ▸ hlt), ← UInt64.toNat_inj, hdelta, not_le]
  rfl

section Seen

variable {last : ℕ} (hm : 0 < g.cfg.seqModulo.toNat) (hfit : g.cfg.Fits (msg, now))
  (h : Remembers g msg.strategyId (some last))
include hm hfit h

theorem checkSequence_accepts
    (hacc : Serial.Accepts g.cfg.seqModulo.toNat g.cfg.recognised last msg.sequence.toNat) :
    ((g.checkSequence msg now).1 = .Accept ∨ (g.checkSequence msg now).1 = .GapAcceptedLogged) ∧
      (g.checkSequence msg now).2.producers = (g.accept msg now).producers := by
  rw [accepts_iff hm hfit h.2] at hacc
  unfold SignalGate.checkSequence
  dsimp only
  rw [if_pos h.1]
  split_ifs with hzero hbehind
  · exact ⟨Or.inl rfl, rfl⟩
  · exact absurd hbehind (hacc.resolve_left hzero)
  · exact ⟨Or.inr rfl, rfl⟩

theorem checkSequence_drops
    (hacc : ¬ Serial.Accepts g.cfg.seqModulo.toNat g.cfg.recognised last msg.sequence.toNat) :
    (g.checkSequence msg now).1 = .DuplicateDropped ∧
      (g.checkSequence msg now).2.producers = g.producers := by
  rw [accepts_iff hm hfit h.2, not_or, not_not] at hacc
  unfold SignalGate.checkSequence
  dsimp only
  rw [if_pos h.1, if_neg hacc.1, if_pos hacc.2]
  exact ⟨rfl, rfl⟩

end Seen

theorem checkSequence_cfg : (g.checkSequence msg now).2.cfg = g.cfg ∧
    (g.checkSequence msg now).2.tradingEnabled = g.tradingEnabled := by
  unfold SignalGate.checkSequence
  dsimp only
  split_ifs <;> exact ⟨rfl, rfl⟩

/-- A message changes what is remembered of its own producer only. -/
theorem checkSequence_other {producer : StrategyId} (hne : producer ≠ msg.strategyId) :
    (g.checkSequence msg now).2.producers.get producer = g.producers.get producer := by
  have haccept : (g.accept msg now).producers.get producer = g.producers.get producer :=
    Finmap.get_insert_of_ne _ _ hne
  unfold SignalGate.checkSequence
  dsimp only
  split_ifs <;> first | exact haccept | rfl

/-- An accepted message is remembered. -/
theorem remembers_accept {g' : SignalGate} (hm : 0 < g.cfg.seqModulo.toNat)
    (hfit : g.cfg.Fits (msg, now)) (hcfg : g'.cfg = g.cfg)
    (hproducers : g'.producers = (g.accept msg now).producers) :
    Remembers g' msg.strategyId (some msg.sequence.toNat) := by
  unfold Remembers
  rw [hproducers, hcfg, SignalGate.accept, Finmap.get_insert_self]
  exact ⟨rfl, expected_toNat hm hfit⟩

end Check

/-! ### Every run -/

section Run

variable {g : SignalGate} {producer : StrategyId} {msg : SignalMessage} {now : Timestamp}
variable {ds : List (SignalMessage × Timestamp)}

theorem Remembers.congr {g' : SignalGate} {last : Option ℕ} (h : Remembers g producer last)
    (hcfg : g'.cfg = g.cfg) (hget : g'.producers.get producer = g.producers.get producer) :
    Remembers g' producer last := by
  cases last with
  | none =>
    unfold Remembers
    rw [hget]
    exact h
  | some last =>
    unfold Remembers
    rw [hget, hcfg]
    exact h

theorem acceptedSeqs_cons {r : SignalVerdict × SignalGate} (hcheck : g.check msg now = r) :
    acceptedSeqs g producer ((msg, now) :: ds) =
      if msg.strategyId = producer ∧ (r.1 = .Accept ∨ r.1 = .GapAcceptedLogged) then
        msg.sequence.toNat :: acceptedSeqs r.2 producer ds
      else acceptedSeqs r.2 producer ds := by
  unfold acceptedSeqs
  rw [SignalGate.checkAll, hcheck]
  split_ifs with h
  · rw [List.filter_cons_of_pos (by simpa using h), List.map_cons]
  · rw [List.filter_cons_of_neg (by simpa using h)]

theorem deliveredSeqs_cons : deliveredSeqs producer ((msg, now) :: ds) =
    if msg.strategyId = producer then msg.sequence.toNat :: deliveredSeqs producer ds
    else deliveredSeqs producer ds := by
  unfold deliveredSeqs
  split_ifs with h <;> simp [h]

/-- **The gate accepts of each producer what a receiver of its serial numbers accepts.** -/
theorem acceptedSeqs_eq_accepted (hon : g.tradingEnabled = true)
    (hm : 0 < g.cfg.seqModulo.toNat) (hpass : ∀ d ∈ ds, g.cfg.Passes d)
    (hfit : ∀ d ∈ ds, g.cfg.Fits d) {last : Option ℕ} (h : Remembers g producer last) :
    acceptedSeqs g producer ds =
      Serial.accepted g.cfg.seqModulo.toNat g.cfg.recognised last (deliveredSeqs producer ds) := by
  induction ds generalizing g last with
  | nil => cases last <;> rfl
  | cons d ds ih =>
    obtain ⟨msg, now⟩ := d
    have hfit' := hfit _ List.mem_cons_self
    have hcheck := check_eq_checkSequence hon (hpass _ List.mem_cons_self)
    obtain ⟨hcfg, hon'⟩ : (g.checkSequence msg now).2.cfg = g.cfg ∧
        (g.checkSequence msg now).2.tradingEnabled = g.tradingEnabled := checkSequence_cfg
    have hrest : ∀ {last' : Option ℕ}, Remembers (g.checkSequence msg now).2 producer last' →
        acceptedSeqs (g.checkSequence msg now).2 producer ds =
          Serial.accepted g.cfg.seqModulo.toNat g.cfg.recognised last'
            (deliveredSeqs producer ds) := by
      intro last' h'
      rw [← hcfg] at hm hpass hfit ⊢
      exact ih (hon'.trans hon) hm (fun d hd => hpass d (List.mem_cons_of_mem _ hd))
        (fun d hd => hfit d (List.mem_cons_of_mem _ hd)) h'
    rw [acceptedSeqs_cons hcheck, deliveredSeqs_cons]
    by_cases hp : msg.strategyId = producer
    · subst hp
      rw [if_pos rfl]
      cases last with
      | none =>
        rw [checkSequence_unseen h] at hrest ⊢
        rw [if_pos ⟨rfl, Or.inl rfl⟩, hrest (remembers_accept hm hfit' rfl rfl)]
        rfl
      | some last =>
        unfold Serial.accepted
        split_ifs with htaken hacc hacc
        · obtain ⟨-, hproducers⟩ := checkSequence_accepts hm hfit' h hacc
          rw [hrest (remembers_accept hm hfit' hcfg hproducers)]
        · rw [(checkSequence_drops hm hfit' h hacc).1] at htaken
          exact absurd htaken.2 (by decide)
        · exact absurd ⟨rfl, (checkSequence_accepts hm hfit' h hacc).1⟩ htaken
        · have hproducers := (checkSequence_drops hm hfit' h hacc).2
          exact hrest (h.congr hcfg (by rw [hproducers]))
    · rw [if_neg hp, if_neg fun hboth => hp hboth.1]
      exact hrest (h.congr hcfg (checkSequence_other (Ne.symm hp)))

/-- **The gate is exactly-once up to its threshold.** With trading enabled, fresh and sane messages,
and the sequence numbers of a producer in a window of less than half the modulus, the accepted
numbers of the producer strictly increase exactly if none of its messages comes `recognised` or
more behind an earlier one. -/
theorem acceptedSeqs_increasing_iff {cfg : SignalGateConfig} (hpass : ∀ d ∈ ds, cfg.Passes d)
    (hfit : ∀ d ∈ ds, cfg.Fits d) {lo n : ℕ} (hn : 2 * n < cfg.seqModulo.toNat)
    (hwindow : ∀ x ∈ deliveredSeqs producer ds, lo ≤ x ∧ x < lo + n) :
    (acceptedSeqs { cfg := cfg, tradingEnabled := true } producer ds).Pairwise (· < ·) ↔
      (deliveredSeqs producer ds).Pairwise fun a b => a < b + cfg.recognised := by
  have hrecognised : cfg.recognised ≤ cfg.seqModulo.toNat := by
    unfold SignalGateConfig.recognised
    split_ifs with hle
    · exact UInt64.le_iff_toNat_le.1 hle
    · exact Nat.zero_le _
  have hunseen : Remembers { cfg := cfg, tradingEnabled := true } producer none := by
    unfold Remembers
    rw [Finmap.get_empty]
    rfl
  have hm : 0 < cfg.seqModulo.toNat := by omega
  rw [acceptedSeqs_eq_accepted rfl hm hpass hfit hunseen]
  exact Serial.accepted_increasing_iff hrecognised hn hwindow

end Run

/-- One message out of order by two, within the threshold. -/
theorem acceptedSeqs_reordered : (acceptedSeqs { cfg := {}, tradingEnabled := true } 1
    [({ sequence := 10, strategyId := 1 }, 0), ({ sequence := 12, strategyId := 1 }, 0),
      ({ sequence := 11, strategyId := 1 }, 0)]).Pairwise (· < ·) := by
  refine (@acceptedSeqs_increasing_iff 1 _ {} ?_ ?_ 10 3 (by decide) (by decide)).2 (by decide)
  · intro d hd
    simp only [List.mem_cons, List.not_mem_nil, or_false] at hd
    rcases hd with rfl | rfl | rfl <;> exact ⟨fun t ht => absurd ht List.not_mem_nil, by decide⟩
  · intro d hd
    simp only [List.mem_cons, List.not_mem_nil, or_false] at hd
    rcases hd with rfl | rfl | rfl <;> exact Or.inl (by decide)

/-- A message six behind the expected one passes for a gap of more than sixty thousand. -/
theorem old_book_accepted : acceptedSeqs { cfg := {}, tradingEnabled := true } 1
    [({ sequence := 10, strategyId := 1 }, 0), ({ sequence := 5, strategyId := 1 }, 0)] =
      [10, 5] := by
  decide

end Oms
