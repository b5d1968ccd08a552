import Mathlib.Algebra.Order.Group.Unbundled.Int
import Mathlib.Data.List.Find
import Mathlib.Tactic.NormNum
import Oms.Signal.Wire

/-!
# The gate at 64 bits

`SignalGate::check` over the fields a buffer can carry: the source negates a target and subtracts
two timestamps in `int64_t`, here taken as two's complement.

* `applied_iff`: which messages the gate lets through;
* `check_eq_exact`: within 64 bits this is the exact gate;
* `unpoisoned_iff`: a message that is let through is sane and fresh unless a target is the least
  64-bit value or the age reaches `2 ^ 63`.
-/

namespace Oms

/-- The sequence number is taken for a step backwards. -/
def SignalGate.Behind (g : SignalGate) (msg : SignalMessage) : Prop :=
  let p := g.producers.get msg.strategyId
  let mod := g.cfg.seqModulo
  let delta := (msg.sequence + mod - p.expectedSeq) % mod
  p.seen = true ∧ delta ≠ 0 ∧ mod - g.cfg.missThreshold ≤ delta

theorem checkSequence_applied_iff {g : SignalGate} {msg : SignalMessage} {now : Timestamp} :
    (g.checkSequence msg now).1 = .Accept ∨ (g.checkSequence msg now).1 = .GapAcceptedLogged ↔
      ¬ g.Behind msg := by
  unfold SignalGate.checkSequence SignalGate.Behind
  dsimp only
  split_ifs with hseen hzero hbehind
  · simp [hzero]
  · simp [hseen, hzero, hbehind]
  · simp [hbehind]
  · simp [hseen]

namespace Wire

/-- The source writes `t < 0 ? -t : t`. The least value is its own negation. -/
def magnitude (t : Int64) : Int64 := if t < 0 then -t else t

def check (g : SignalGate) (msg : SignalMessage) (now : Int64) : SignalVerdict × SignalGate :=
  if !g.tradingEnabled then
    (.RejectDNT,
      g.emit .Warn "signal rejected: do-not-trade (startup reconcile not complete)")
  else
    match msg.targets.find? fun t => g.cfg.maxAbsTarget < (magnitude t.signedTarget).toInt with
    | some t =>
      (.RejectAbsurd, g.emit .Error ("signal rejected: absurd target inst=" ++
        toString t.instrument ++ " qty=" ++ toString t.signedTarget.toInt))
    | none =>
      if g.cfg.maxSignalAge < (now - msg.generatedAt).toInt then
        (.RejectAge, g.emit .Warn ("signal rejected: stale age producer=" ++
          toString msg.strategyId ++ " gen_at=" ++ toString msg.generatedAt.toInt))
      else g.checkSequence msg.exact now.toInt

section Guards

variable {t : Int64}

theorem toInt_magnitude_minValue : (magnitude Int64.minValue).toInt = -2 ^ 63 := by decide

/-- Every other magnitude is exact. -/
theorem toInt_magnitude (h : t ≠ Int64.minValue) : (magnitude t).toInt = |t.toInt| := by
  have hlo := t.le_toInt
  have hhi := t.toInt_lt
  have hne : t.toInt ≠ -2 ^ 63 := fun heq => h (Int64.toInt_inj.1 heq)
  unfold magnitude
  split_ifs with hneg
  · rw [Int64.lt_iff_toInt_lt, Int64.toInt_zero] at hneg
    rw [Int64.toInt_neg, Int.bmod_eq_of_le (by omega) (by omega), abs_of_neg hneg]
  · rw [Int64.lt_iff_toInt_lt, Int64.toInt_zero, not_lt] at hneg
    rw [abs_of_nonneg hneg]

end Guards

section Check

variable {g : SignalGate} {msg : SignalMessage} {now : Int64}

/-- The age of a message as an integer. -/
def age (msg : SignalMessage) (now : Int64) : ℤ := now.toInt - msg.generatedAt.toInt

/-- What the gate is for: what it lets through is sane and fresh, and trading is enabled. -/
def Unpoisoned (g : SignalGate) (msg : SignalMessage) (now : Int64) : Prop :=
  (check g msg now).1 = .Accept ∨ (check g msg now).1 = .GapAcceptedLogged →
    g.tradingEnabled = true ∧ (∀ t ∈ msg.targets, |t.signedTarget.toInt| ≤ g.cfg.maxAbsTarget) ∧
      age msg now ≤ g.cfg.maxSignalAge

/-- No target and no age of the message is beyond what the guards compute correctly. -/
def Representable (msg : SignalMessage) (now : Int64) : Prop :=
  (∀ t ∈ msg.targets, t.signedTarget ≠ Int64.minValue) ∧ age msg now < 2 ^ 63

instance decidable_representable (msg : SignalMessage) (now : Int64) :
    Decidable (Representable msg now) :=
  inferInstanceAs (Decidable (_ ∧ _))

/-- The message is turned away whatever the guards make of the values beyond their range: trading
is off, another target is absurd, its age is too large modulo `2 ^ 64`, or it is behind. -/
def TurnedAway (g : SignalGate) (msg : SignalMessage) (now : Int64) : Prop :=
  g.tradingEnabled = false ∨
    (∃ t ∈ msg.targets, t.signedTarget ≠ Int64.minValue ∧
      g.cfg.maxAbsTarget < |t.signedTarget.toInt|) ∨
    g.cfg.maxSignalAge < (age msg now).bmod (2 ^ 64) ∨ g.Behind msg.exact

/-- The messages the gate lets through. -/
theorem applied_iff :
    (check g msg now).1 = .Accept ∨ (check g msg now).1 = .GapAcceptedLogged ↔
      g.tradingEnabled = true ∧
        (∀ t ∈ msg.targets, (magnitude t.signedTarget).toInt ≤ g.cfg.maxAbsTarget) ∧
        (age msg now).bmod (2 ^ 64) ≤ g.cfg.maxSignalAge ∧ ¬ g.Behind msg.exact := by
  unfold check
  by_cases hon : g.tradingEnabled = true
  · rw [hon]
    simp only [Bool.not_true, Bool.false_eq_true, if_false, true_and]
    split
    · next t hfind =>
      refine iff_of_false (by simp) fun h => ?_
      have hlarge := List.find?_some hfind
      rw [decide_eq_true_iff] at hlarge
      exact absurd (h.1 t (List.mem_of_find?_eq_some hfind)) (not_le.2 hlarge)
    · next hfind =>
      have hsane : ∀ t ∈ msg.targets,
          (magnitude t.signedTarget).toInt ≤ g.cfg.maxAbsTarget := fun t ht => by
        have hsmall := List.find?_eq_none.1 hfind t ht
        rwa [decide_eq_true_iff, not_lt] at hsmall
      rw [Int64.toInt_sub, ← age]
      split_ifs with hage
      · exact iff_of_false (by simp) fun h => absurd h.2.1 (not_le.2 hage)
      · rw [checkSequence_applied_iff]
        exact ⟨fun h => ⟨hsane, not_lt.1 hage, h⟩, fun h => h.2.2⟩
  · rw [Bool.not_eq_true] at hon
    rw [hon]
    simp

/-- Within 64 bits the guards are the exact ones. -/
theorem check_eq_exact (h : Representable msg now) (hlow : -2 ^ 63 ≤ age msg now) :
    check g msg now = g.check msg.exact now.toInt := by
  have hfind : (msg.targets.map TargetPosition.exact).find? (fun t =>
      g.cfg.maxAbsTarget < Oms.magnitude t.signedTarget) =
      (msg.targets.find? fun t =>
        g.cfg.maxAbsTarget < (magnitude t.signedTarget).toInt).map TargetPosition.exact := by
    rw [List.find?_map]
    refine congrArg _ (List.find?_congr fun t ht => ?_)
    rw [toInt_magnitude (h.1 t ht), Function.comp_apply, magnitude_eq_abs]
    rfl
  have hage : (now - msg.generatedAt).toInt = now.toInt - msg.exact.generatedAt := by
    have hhigh := h.2
    rw [Int64.toInt_sub, ← age, Int.bmod_eq_of_le (by omega) (by omega)]
    rfl
  unfold check SignalGate.check
  rw [hage, show msg.exact.targets = msg.targets.map TargetPosition.exact from rfl, hfind]
  cases msg.targets.find? fun t =>
    g.cfg.maxAbsTarget < (magnitude t.signedTarget).toInt <;> rfl

/-- **When no poisoned signal passes.** A message that is let through is sane and fresh exactly if
no target is the least value and the age is below `2 ^ 63`, or it is turned away in any case. -/
theorem unpoisoned_iff (habs : (0 : ℤ) ≤ g.cfg.maxAbsTarget ∧ g.cfg.maxAbsTarget < 2 ^ 63)
    (hage : (0 : ℤ) ≤ g.cfg.maxSignalAge ∧ g.cfg.maxSignalAge < 2 ^ 63) :
    Unpoisoned g msg now ↔ Representable msg now ∨ TurnedAway g msg now := by
  have hnow := now.toInt_lt
  have hnow' := now.le_toInt
  have hgen := msg.generatedAt.toInt_lt
  have hgen' := msg.generatedAt.le_toInt
  unfold Unpoisoned
  rw [applied_iff]
  constructor
  · intro h
    by_contra hnot
    obtain ⟨hrep, haway⟩ := not_or.1 hnot
    simp only [TurnedAway, not_or, not_exists, not_and, not_lt, Bool.not_eq_false] at haway
    obtain ⟨hon, hothers, hstale, hahead⟩ := haway
    have hsmall : ∀ t ∈ msg.targets, (magnitude t.signedTarget).toInt ≤ g.cfg.maxAbsTarget := by
      intro t ht
      by_cases hmin : t.signedTarget = Int64.minValue
      · rw [hmin, toInt_magnitude_minValue]
        omega
      · rw [toInt_magnitude hmin]
        exact hothers t ht hmin
    obtain ⟨-, hsane, hfresh⟩ := h ⟨hon, hsmall, hstale, hahead⟩
    refine hrep ⟨fun t ht hmin => ?_, hfresh.trans_lt hage.2⟩
    have hlarge := hsane t ht
    rw [hmin, Int64.toInt_minValue, abs_neg, abs_of_nonneg (by norm_num)] at hlarge
    exact absurd habs.2 (not_lt.2 hlarge)
  · rintro hor ⟨hon, hsmall, hstale, hahead⟩
    rcases hor with ⟨hmin, hrange⟩ | hoff | ⟨t, ht, hmin, hlarge⟩ | hold | hbehind
    · refine ⟨hon, fun t ht => toInt_magnitude (hmin t ht) ▸ hsmall t ht, ?_⟩
      unfold age at hrange hstale ⊢
      by_cases hlow : -2 ^ 63 ≤ now.toInt - msg.generatedAt.toInt
      · rwa [Int.bmod_eq_of_le (by omega) (by omega)] at hstale
      · omega
    · rw [hoff] at hon
      exact absurd hon (by decide)
    · rw [← toInt_magnitude hmin] at hlarge
      exact absurd (hsmall t ht) (not_le.2 hlarge)
    · exact absurd hstale (not_le.2 hold)
    · exact absurd hbehind hahead

end Check

/-- A message of age 7 with a short target passes a fresh gate, and is sane and fresh. -/
theorem unpoisoned_short :
    let g : SignalGate := { tradingEnabled := true }
    let msg : SignalMessage :=
      { generatedAt := 3, targets := [{ instrument := 1, signedTarget := -5 }] }
    (check g msg 10).1 = .Accept ∧ age msg 10 = 7 ∧ Unpoisoned g msg 10 :=
  ⟨by decide, by decide, (unpoisoned_iff (by decide) (by decide)).2 (Or.inl (by decide))⟩

/-- The least value passes for a small target, and the oldest timestamp for a time to come. -/
theorem poison_accepted :
    ¬ Unpoisoned { tradingEnabled := true }
      { targets := [{ instrument := 1, signedTarget := Int64.minValue }] } 0 ∧
    ¬ Unpoisoned { tradingEnabled := true } { generatedAt := Int64.minValue } 0 := by
  constructor
  · intro h
    have hsane := (h (Or.inl (by decide))).2.1 _ List.mem_cons_self
    exact absurd hsane (by decide)
  · intro h
    exact absurd (h (Or.inl (by decide))).2.2 (by decide)

end Wire

end Oms
