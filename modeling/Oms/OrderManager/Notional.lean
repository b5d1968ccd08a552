import Oms.Foundation.SignedWord
import Oms.OrderManager.Books
import Oms.OrderManager.Traded

/-!
# The notional of a position

`on_fill` adds the same product to the order, in 128 bits, and to the position, in 64.

* `WordLedger`, `wordLedger`: the manager beside the 64-bit amounts of its positions;
* `notionalOf`, `amount_tallies`: in exact integers, a position has the notional of its orders;
* `amount_word`: the 64-bit amount is the exact one in two's complement;
* `amount_exact_iff_fits`: when they are the same.
-/

namespace Oms

open OrderManager

/-! ### Exact notionals -/

/-- What the fills of an order amount to on an instrument, signed by its side. -/
def notionalOf (inst : InstrumentId) (o : Order) : ℤ :=
  if o.instrument = inst then signedQty o.side o.totalFillAmount else 0

theorem signedQty_mul (side : Side) (q a : ℤ) : signedQty side q * a = signedQty side (q * a) := by
  cases side
  · rfl
  · exact neg_mul q a

theorem amount_tallies (inst : InstrumentId) :
    Tallies inst Position.amount (notionalOf inst) where
  keeps := fun h => by
    rw [notionalOf, notionalOf, h.instrument, h.side, h.totalFillAmount]
  stamp := fun req id now o => by
    show (if req.instrument = inst then signedQty req.side 0 else 0) = 0
    rw [signedQty_zero, ite_self]
  fill := fun qty price ts o p => by
    show (if o.instrument = inst then signedQty o.side (o.totalFillAmount + qty * price) else 0) =
      _ + if inst = o.instrument then p.amount + signedQty o.side qty * price - p.amount else 0
    rw [notionalOf, signedQty_add, add_sub_cancel_left, signedQty_mul]
    by_cases h : o.instrument = inst
    · rw [if_pos h, if_pos h, if_pos h.symm]
    · rw [if_neg h, if_neg h, if_neg (Ne.symm h), add_zero]

/-- The signed notional of the fill an operation accepts on an instrument. -/
def OrderManager.notionals (om : OrderManager) (inst : InstrumentId) : Op → List ℤ
  | .fill id qty price trade _ =>
    if om.validate id ⟨.Fill, trade, qty, price⟩ = .Ok ∧ (om.orderRef id).instrument = inst then
      [signedQty (om.orderRef id).side qty * price]
    else []
  | _ => []

/-! ### The word -/

/-- `amount += signed_fill_qty * fill_price`, on 64-bit words. -/
def Position.accumulate (amount : BitVec 64) (signedFillQty : Quantity) (fillPrice : Price) :
    BitVec 64 :=
  amount + BitVec.ofInt 64 signedFillQty * BitVec.ofInt 64 fillPrice

/-- The manager and its world, with the amount of each position in the word of the source. -/
structure WordLedger (W : Type) where
  state : State W
  amount : InstrumentId → BitVec 64

section Word

variable {W : Type} (E : Env W)

/-- The machine of the manager, with the amounts that `on_fill` accumulates. -/
def wordLedger : Machine (WordLedger W) Op where
  step l op :=
    { state := l.state.step E op
      amount := fun inst =>
        match op with
        | .fill id qty price trade _ =>
          if l.state.om.validate id ⟨.Fill, trade, qty, price⟩ = .Ok ∧
              (l.state.om.orderRef id).instrument = inst then
            Position.accumulate (l.amount inst) (signedQty (l.state.om.orderRef id).side qty) price
          else l.amount inst
        | _ => l.amount inst }

/-- A fresh manager, with no amounts. -/
def WordLedger.blank (capacity : PoolCapacity) (w : W) : WordLedger W :=
  ⟨⟨.init capacity, w⟩, fun _ => 0⟩

/-- The amounts leave the manager and its world alone. -/
theorem wordLedger_run_state (l : WordLedger W) (ops : List Op) :
    ((wordLedger E).run l ops).state = (machine E).run l.state ops :=
  Machine.run_map (fun _ _ => rfl) l ops

variable {E} {l : WordLedger W}

/-- The amount of a position, after an operation. -/
theorem step_amount {s : State W} (hwf : s.om.WF) (op : Op) (inst : InstrumentId) :
    ((s.step E op).om.position inst).amount =
      (s.om.position inst).amount + (s.om.notionals inst op).sum := by
  rw [step_position hwf]
  cases op with
  | fill id qty price trade ts =>
    unfold OrderManager.positionAfter OrderManager.notionals
    dsimp only
    split_ifs
    · rw [List.sum_singleton]
      rfl
    · exact (add_zero _).symm
  | _ => exact (add_zero _).symm

/-- An operation keeps the word of a position that of its exact amount. -/
theorem step_amount_word (hwf : l.state.om.WF) (op : Op) (inst : InstrumentId)
    (h : l.amount inst = BitVec.ofInt 64 (l.state.om.position inst).amount) :
    ((wordLedger E).step l op).amount inst =
      BitVec.ofInt 64 (((wordLedger E).step l op).state.om.position inst).amount := by
  have hexact : (((wordLedger E).step l op).state.om.position inst).amount =
      (l.state.om.position inst).amount + (l.state.om.notionals inst op).sum :=
    step_amount hwf op inst
  rw [hexact, BitVec.ofInt_add, ← h]
  cases op with
  | fill id qty price trade ts =>
    unfold OrderManager.notionals
    show (if _ then _ else _) = _
    dsimp only
    split_ifs
    · rw [List.sum_singleton, BitVec.ofInt_mul]
      rfl
    · exact (BitVec.add_zero _).symm
  | _ => exact (BitVec.add_zero _).symm

/-- What the orders of an instrument have been filled for, signed by their sides. -/
def OrderPool.notional (p : OrderPool) (inst : InstrumentId) : ℤ :=
  ((p.created.filter fun o => o.instrument = inst).map fun o =>
    signedQty o.side o.totalFillAmount).sum

/-- What holds of the amounts on an instrument after fills of the notionals `fills`. -/
structure WordLedger.Sound (inst : InstrumentId) (l : WordLedger W) (fills : List ℤ) : Prop where
  wf : l.state.om.WF
  word : l.amount inst = BitVec.ofInt 64 (l.state.om.position inst).amount
  fills : (l.state.om.position inst).amount = fills.sum
  orders : (l.state.om.position inst).amount = l.state.om.pool.everSum (notionalOf inst)

variable {inst : InstrumentId} {fills : List ℤ}

theorem sound_blank_ledger (capacity : PoolCapacity) (w : W) (inst : InstrumentId) :
    (WordLedger.blank capacity w).Sound inst [] := by
  have hzero : ((init capacity).position inst).amount = 0 := by
    show (Finmap.get (∅ : Finmap fun _ : InstrumentId => Position) inst).amount = 0
    rw [Finmap.get_empty]
    rfl
  refine ⟨wf_init capacity, ?_, hzero, ?_⟩
  · exact (congrArg (BitVec.ofInt 64) hzero).symm
  · exact hzero.trans (OrderPool.everSum_init _ capacity).symm

theorem WordLedger.Sound.step (h : l.Sound inst fills) (op : Op) :
    ((wordLedger E).step l op).Sound inst (fills ++ l.state.om.notionals inst op) where
  wf := step_wf h.wf op
  word := step_amount_word h.wf op inst h.word
  fills := by
    rw [List.sum_append, ← h.fills]
    exact step_amount h.wf op inst
  orders :=
    ((step_chain (E := E) h.wf op).invariant
      (I := fun om => (om.position inst).amount = om.pool.everSum (notionalOf inst))
      (fun _ _ hwf htally hchange => (amount_tallies inst).step hwf htally hchange) h.wf h.orders).2

/-- **The 64-bit amount of a position is the exact notional of its orders exactly if the accepted
fills add up to one that 64 bits hold.** -/
theorem amount_exact_iff_fits (E : Env W) (capacity : PoolCapacity) (w : W) (ops : List Op)
    (inst : InstrumentId) :
    let l := (wordLedger E).run (.blank capacity w) ops
    (l.amount inst).toInt = l.state.om.pool.notional inst ↔
      SignedWord.Fits 63 ((wordLedger E).trace (fun l op => l.state.om.notionals inst op)
        (.blank capacity w) ops).sum := by
  intro l
  have hsound : l.Sound inst ([] ++ (wordLedger E).trace
      (fun l op => l.state.om.notionals inst op) (.blank capacity w) ops) :=
    Machine.run_trace_invariant (G := fun _ _ => True)
      (I := fun (l : WordLedger W) fills => l.Sound inst fills) (fun _ op _ h _ => h.step op)
      (sound_blank_ledger capacity w inst) ((wordLedger E).admits_true _ _)
  rw [List.nil_append] at hsound
  have horders : l.state.om.pool.notional inst = l.state.om.pool.everSum (notionalOf inst) :=
    (OrderPool.everSum_ite (fun o => signedQty o.side o.totalFillAmount)
      fun o => o.instrument = inst).symm
  rw [horders, ← hsound.orders, hsound.word, ← hsound.fills]
  exact SignedWord.toInt_ofInt_eq_iff

end Word

/-- A fill of `2 ^ 32` at `2 ^ 32` vanishes from the amount. -/
theorem large_fill_vanishes :
    let l := (wordLedger acceptingEnv).run (.blank twoSlots ())
      [.submit { instrument := 7, size := 2 ^ 32, price := 2 ^ 32 }, .fill 1 (2 ^ 32) (2 ^ 32) 9 0]
    ¬ (SignedWord.Fits 63 (l.state.om.position 7).net →
      SignedWord.Fits 63 (l.state.om.position 7).volume →
        (l.amount 7).toInt = l.state.om.pool.notional 7) := by
  decide

end Oms
