import Mathlib.Algebra.BigOperators.Group.Finset.Piecewise
import Oms.ExchangeClient
import Oms.Foundation.Apportion
import Oms.Foundation.Ascending
import Oms.Foundation.BitField
import Oms.Foundation.Machine
import Oms.Foundation.MapSum

/-!
# Netting

`Netting.h`, `Netting.cpp`: per-strategy deltas are collapsed into one net order per instrument,
and fills are attributed back to the strategies.

* `NettingEngine`: the fields of the class; `contributions`, `computeCycle`, `attributeFill`,
  `checkInvariant`;
* `nettingMachine`: the calls of the class as a machine;
* `attributed_book`, `sum_book`: what a list of moves does to the attributed positions.
-/

namespace Oms

structure NetOrder where
  instrument : InstrumentId := 0
  /-- signed net quantity to trade -/
  delta : Quantity := 0
  deriving DecidableEq, Repr

structure NettingEngine where
  targets : Finmap fun _ : UInt64 => Quantity := ∅
  attributedMap : Finmap fun _ : UInt64 => Quantity := ∅
  global : Finmap fun _ : InstrumentId => Quantity := ∅
  contrib : Finmap fun _ : InstrumentId => List (StrategyId × Quantity) := ∅
  instruments : Finset InstrumentId := ∅
  strategies : Finset StrategyId := ∅
  savedNotional : ℤ := 0
  /-- the lines handed to the log sink -/
  log : List String := []

namespace NettingEngine

/-- The key of a strategy and an instrument. -/
def key (s : StrategyId) (i : InstrumentId) : UInt64 := (s.toUInt64 <<< 16) ||| i.toUInt64

def attributed (e : NettingEngine) (s : StrategyId) (inst : InstrumentId) : Quantity :=
  e.attributedMap.get (key s inst)

def globalPosition (e : NettingEngine) (inst : InstrumentId) : Quantity := e.global.get inst

/-- Set a strategy's desired target for this cycle. -/
def setTarget (e : NettingEngine) (s : StrategyId) (inst : InstrumentId) (target : Quantity) :
    NettingEngine :=
  { e with
    targets := e.targets.insert (key s inst) target
    instruments := insert inst e.instruments
    strategies := insert s e.strategies }

/-- Seed an attributed sub-position. -/
def setAttributed (e : NettingEngine) (s : StrategyId) (inst : InstrumentId) (q : Quantity) :
    NettingEngine :=
  let old := e.attributed s inst
  { e with
    attributedMap := e.attributedMap.insert (key s inst) q
    global := e.global.adjust inst (q - old)
    instruments := insert inst e.instruments
    strategies := insert s e.strategies }

/-- The non-zero deltas of the strategies with a target on an instrument. -/
def contributions (e : NettingEngine) (inst : InstrumentId) : List (StrategyId × Quantity) :=
  e.strategies.ascending.filterMap fun s =>
    match e.targets.lookup (key s inst) with
    | none => none
    | some target =>
      let delta := target - e.attributed s inst
      if delta = 0 then none else some (s, delta)

/-- Move the attributed positions of strategies on an instrument. -/
def book (e : NettingEngine) (inst : InstrumentId) (moves : List (StrategyId × Quantity)) :
    NettingEngine :=
  { e with
    attributedMap := moves.foldl (fun m c => m.adjust (key c.1 inst) c.2) e.attributedMap }

/-- One instrument of a cycle. -/
def netInstrument (prices : Finmap fun _ : InstrumentId => Price)
    (acc : NettingEngine × List NetOrder) (inst : InstrumentId) : NettingEngine × List NetOrder :=
  let (e, orders) := acc
  let contribs := e.contributions inst
  if contribs = [] then (e, orders)
  else
    let net := (contribs.map Prod.snd).sum
    let grossAbs := (contribs.map fun c => magnitude c.2).sum
    let price := prices.get inst
    if net = 0 then
      -- nothing is sent, but the internal transfer is a book entry
      let saved := (grossAbs * price).tdiv 2
      let e := e.book inst contribs
      ({ e with
          savedNotional := e.savedNotional + saved
          log := e.log ++ ["netting zero-net inst=" ++ toString inst ++ " strategies=" ++
            toString contribs.length ++ " saved_notional+=" ++ toString saved] },
        orders)
    else
      ({ e with
          contrib := e.contrib.insert inst contribs
          log := e.log ++ ["netting order inst=" ++ toString inst ++ " net=" ++ toString net ++
            " contributors=" ++ toString contribs.length] },
        orders ++ [{ instrument := inst, delta := net }])

/-- Collapse this cycle's targets into net orders. -/
def computeCycle (e : NettingEngine) (prices : Finmap fun _ : InstrumentId => Price) :
    NettingEngine × List NetOrder :=
  e.instruments.ascending.foldl (netInstrument prices) (e, [])

/-- The order in which leftover units are handed out: larger remainder, then larger weight, then
smaller strategy id. -/
def allocBefore (a b : Apportion.Alloc StrategyId) : Prop :=
  b.rem < a.rem ∨ a.rem = b.rem ∧ (b.weight < a.weight ∨ a.weight = b.weight ∧ a.key ≤ b.key)

instance : DecidableRel allocBefore := fun a b => by
  unfold allocBefore
  infer_instance

/-- The absolute contributions. -/
def weights (contribs : List (StrategyId × Quantity)) : List (StrategyId × ℤ) :=
  contribs.map fun c => (c.1, magnitude c.2)

/-- What each contributor gets of a fill. -/
def shares (contribs : List (StrategyId × Quantity)) (signedQty : Quantity) :
    List (StrategyId × Quantity) :=
  let sign : Quantity := if signedQty < 0 then -1 else 1
  let allocs := Apportion.largestRemainder allocBefore (magnitude signedQty) (weights contribs)
  allocs.map fun a => (a.key, sign * a.base)

/-- Attribute a fill on a net order back to the contributing strategies. -/
def attributeFill (e : NettingEngine) (inst : InstrumentId) (signedQty : Quantity)
    (_fillPrice : Price) : NettingEngine :=
  let e := { e with global := e.global.adjust inst signedQty }
  match e.contrib.lookup inst with
  | none => e
  | some contribs =>
    if contribs = [] then e
    else if Apportion.total (weights contribs) = 0 then e
    else e.book inst (shares contribs signedQty)

def checkInvariant (e : NettingEngine) : Bool :=
  -- walks the instruments of the engine, not all there are
  @decide (∀ inst ∈ e.instruments, ∑ s ∈ e.strategies, e.attributed s inst = e.globalPosition inst)
    Finset.decidableDforallFinset

end NettingEngine

/-- The calls of the class that change it. -/
inductive NettingOp
  | setTarget (s : StrategyId) (inst : InstrumentId) (target : Quantity)
  | setAttributed (s : StrategyId) (inst : InstrumentId) (q : Quantity)
  | computeCycle (prices : Finmap fun _ : InstrumentId => Price)
  | attributeFill (inst : InstrumentId) (signedQty : Quantity) (fillPrice : Price)

def NettingEngine.step (e : NettingEngine) : NettingOp → NettingEngine
  | .setTarget s inst target => e.setTarget s inst target
  | .setAttributed s inst q => e.setAttributed s inst q
  | .computeCycle prices => (e.computeCycle prices).1
  | .attributeFill inst signedQty fillPrice => e.attributeFill inst signedQty fillPrice

def nettingMachine : Machine NettingEngine NettingOp where
  step := NettingEngine.step

namespace NettingEngine

/-! ### Keys -/

theorem key_toNat (s : StrategyId) (i : InstrumentId) :
    (key s i).toNat = s.toNat * 2 ^ 16 + i.toNat := by
  have hs := s.toNat_lt
  have hi := i.toNat_lt
  simp only [key, UInt64.toNat_or, UInt64.toNat_shiftLeft, UInt16.toNat_toUInt64,
    UInt64.reduceToNat, Nat.reduceMod, Nat.shiftLeft_eq]
  rw [Nat.mod_eq_of_lt (by omega), BitField.mul_two_pow_or (k := 16) hi]

theorem key_inj {s s' : StrategyId} {i i' : InstrumentId} :
    key s i = key s' i' ↔ s = s' ∧ i = i' := by
  constructor
  · intro h
    have hnat := congrArg UInt64.toNat h
    rw [key_toNat, key_toNat] at hnat
    have hi := i.toNat_lt
    have hi' := i'.toNat_lt
    exact ⟨UInt16.toNat.inj (by omega), UInt16.toNat.inj (by omega)⟩
  · rintro ⟨rfl, rfl⟩
    rfl

/-! ### Moves -/

section Book

variable (e : NettingEngine) (inst : InstrumentId) (moves : List (StrategyId × Quantity))

theorem attributed_book (s : StrategyId) (inst' : InstrumentId) :
    (e.book inst moves).attributed s inst' = e.attributed s inst' +
      if inst' = inst then (moves.map fun c => if s = c.1 then c.2 else 0).sum else 0 := by
  unfold attributed book
  dsimp only
  rw [Finmap.get_foldl_adjust]
  congr 1
  split_ifs with hinst
  · simp only [hinst, key_inj, and_true]
  · simp [key_inj, hinst]

/-- Moves of known strategies move the sum over the strategies by their sum. -/
theorem sum_book (hmoves : ∀ c ∈ moves, c.1 ∈ e.strategies) (inst' : InstrumentId) :
    ∑ s ∈ e.strategies, (e.book inst moves).attributed s inst' =
      (∑ s ∈ e.strategies, e.attributed s inst') +
        if inst' = inst then (moves.map Prod.snd).sum else 0 := by
  simp only [attributed_book, Finset.sum_add_distrib]
  congr 1
  split_ifs with hinst
  · clear hinst
    induction moves with
    | nil => simp
    | cons c moves ih =>
      have hc : ∑ s ∈ e.strategies, (if s = c.1 then c.2 else 0) = c.2 := by
        rw [Finset.sum_ite_eq' e.strategies c.1 fun _ => c.2, if_pos (hmoves c List.mem_cons_self)]
      simp only [List.map_cons, List.sum_cons, Finset.sum_add_distrib]
      rw [hc, ih fun c' hc' => hmoves c' (List.mem_cons_of_mem _ hc')]
  · simp

end Book

end NettingEngine

end Oms
