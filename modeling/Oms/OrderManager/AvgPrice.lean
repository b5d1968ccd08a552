import Oms.Foundation.SignedWord
import Oms.Foundation.WeightedMean
import Oms.OrderManager.Chronicle
import Oms.OrderManager.Traded

/-!
# The average fill price

`Order.h`: the notional of an order is accumulated in 128 bits and divided on demand. The over-fill
guard of `validate` keeps the filled size within a 64-bit size, the sign guard keeps quantities and
prices positive.

* `Order.accumulate`: what `on_fill` does to the accumulators, in the words of the source;
* `Filled`, `filled_step`: an order holds the accumulators of the fills it accepted, and no word
  has overflowed;
* `Priced`, `avgFillPrice_priced`: so its average fill price is a price.
-/

namespace Oms

open OrderManager SignedWord WeightedMean

/-! ### Accumulators -/

/-- `filled_size += qty` and `total_fill_amount += static_cast<TotalFillAmount>(qty) * price`, on
64 and 128 bits; nothing where one of them overflows. -/
def Order.accumulate (acc : Quantity × ℤ) (fill : Quantity × Price) : Option (Quantity × ℤ) := do
  let filledSize ← checked 63 (acc.1 + fill.1)
  let notional ← checked 127 (fill.1 * fill.2)
  let total ← checked 127 (acc.2 + notional)
  pure (filledSize, total)

/-- The fill among what is told of an order. -/
def News.fill? : News → Option (Quantity × Price)
  | .fill qty price => some (qty, price)
  | _ => none

/-- The fills of a story. -/
def toldFills (story : List News) : List (Quantity × Price) := story.filterMap News.fill?

theorem accumulate_eq_some {filledSize total : ℤ} {qty : Quantity} {price : Price}
    (hfilled : Fits 63 (filledSize + qty)) (hnotional : Fits 127 (qty * price))
    (htotal : Fits 127 (total + qty * price)) :
    Order.accumulate (filledSize, total) (qty, price) =
      some (filledSize + qty, total + qty * price) := by
  simp [Order.accumulate, checked_of_fits hfilled, checked_of_fits hnotional,
    checked_of_fits htotal]

/-- An order has accepted fills, in words that hold them. -/
structure Filled (fills : List (Quantity × Price)) (o : Order) : Prop where
  size : o.size < 2 ^ 63
  positive : ∀ fill ∈ fills, 0 < fill.1
  price_pos : ∀ fill ∈ fills, 0 < fill.2
  price_lt : ∀ fill ∈ fills, fill.2 < 2 ^ 63
  filledSize : o.filledSize = (fills.map Prod.fst).sum
  total : o.totalFillAmount = (fills.map fun fill => fill.1 * fill.2).sum
  words : fills.foldlM Order.accumulate (0, 0) = some (o.filledSize, o.totalFillAmount)

section Filled

variable {fills : List (Quantity × Price)} {o o' : Order} {qty : Quantity} {price : Price}

theorem Filled.keeps (h : Filled fills o) (hkeeps : o.Keeps o') : Filled fills o' where
  size := hkeeps.size ▸ h.size
  positive := h.positive
  price_pos := h.price_pos
  price_lt := h.price_lt
  filledSize := hkeeps.filledSize.trans h.filledSize
  total := hkeeps.totalFillAmount.trans h.total
  words := by rw [h.words, hkeeps.filledSize, hkeeps.totalFillAmount]

theorem Filled.filledSize_nonneg (h : Filled fills o) : 0 ≤ o.filledSize := by
  rw [h.filledSize]
  refine List.sum_nonneg fun x hx => ?_
  obtain ⟨fill, hfill, rfl⟩ := List.mem_map.1 hx
  exact (h.positive fill hfill).le

/-- A notional is at most what its size would cost at the highest price. -/
theorem Filled.total_le (h : Filled fills o) :
    0 ≤ o.totalFillAmount ∧ o.totalFillAmount ≤ o.filledSize * 2 ^ 63 := by
  rw [h.total, h.filledSize, ← List.sum_map_mul_right]
  constructor
  · refine List.sum_nonneg fun x hx => ?_
    obtain ⟨fill, hfill, rfl⟩ := List.mem_map.1 hx
    exact mul_nonneg (h.positive fill hfill).le (h.price_pos fill hfill).le
  · refine List.sum_le_sum fun fill hfill => ?_
    exact mul_le_mul_of_nonneg_left (h.price_lt fill hfill).le (h.positive fill hfill).le

/-- One more fill, which passes the guards. -/
theorem Filled.addFill (h : Filled fills o) (hqty : 0 < qty) (hprice : 0 < price)
    (hlt : price < 2 ^ 63) (hremaining : qty ≤ o.remaining) (ts : Timestamp) :
    Filled (fills ++ [(qty, price)]) (o.addFill qty price ts) := by
  have hsize : o.filledSize + qty < 2 ^ 63 := by
    have hsize := h.size
    rw [Order.remaining] at hremaining
    linarith
  have hnonneg := h.filledSize_nonneg
  obtain ⟨htotal, hle⟩ := h.total_le
  have hnotional : 0 < qty * price := mul_pos hqty hprice
  have hnotional_le : qty * price ≤ qty * 2 ^ 63 := mul_le_mul_of_nonneg_left hlt.le hqty.le
  -- what is filled stays below `2 ^ 63`, so its notional stays below `2 ^ 126`
  have hsum : o.totalFillAmount + qty * price < 2 ^ 127 :=
    calc o.totalFillAmount + qty * price ≤ (o.filledSize + qty) * 2 ^ 63 := by linarith
      _ ≤ 2 ^ 63 * 2 ^ 63 := by linarith
      _ < 2 ^ 127 := by norm_num
  have hword := accumulate_eq_some ((fits_iff_lt (by linarith)).2 hsize)
    ((fits_iff_lt hnotional.le).2 (by linarith)) ((fits_iff_lt (by linarith)).2 hsum)
  refine ⟨h.size, ?_, ?_, ?_, ?_, ?_, ?_⟩
  · exact List.forall_mem_append.2 ⟨h.positive, List.forall_mem_singleton.2 hqty⟩
  · exact List.forall_mem_append.2 ⟨h.price_pos, List.forall_mem_singleton.2 hprice⟩
  · exact List.forall_mem_append.2 ⟨h.price_lt, List.forall_mem_singleton.2 hlt⟩
  · rw [List.map_append, List.sum_append, ← h.filledSize, List.map_singleton, List.sum_singleton]
    rfl
  · rw [List.map_append, List.sum_append, ← h.total, List.map_singleton, List.sum_singleton]
    rfl
  · rw [List.foldlM_append, h.words]
    show [(qty, price)].foldlM Order.accumulate (o.filledSize, o.totalFillAmount) = _
    rw [List.foldlM_cons, hword]
    rfl

end Filled

/-! ### Every run -/

section Runs

variable {W : Type} {E : Env W} {c : Chronicle W News}

/-- What a run submits, and what its fills carry, are words of the source. -/
def Op.InWords : Op → Prop
  | .submit req => Fits 63 req.size
  | .fill _ qty price _ _ => Fits 63 qty ∧ Fits 63 price
  | _ => True

instance : DecidablePred Op.InWords := fun op => by
  unfold Op.InWords
  split <;> infer_instance

/-- A stored order holds the accumulators of the fills in its story. -/
def Recounted (story : List News) (o : Order) : Prop := Filled (toldFills story) o

theorem recounted_step (hwf : c.state.om.WF) (h : Told Recounted c) {op : Op} (hop : op.InWords) :
    Told Recounted ((chronicle E (State.told E)).step c op) := by
  refine told_step hwf h ?_ ?_
  · rintro req o rfl hnew
    cases hnew <;> exact ⟨hop.2, nofun, nofun, nofun, rfl, rfl, rfl⟩
  · intro slot news o halloc hfilled hstep
    have hsame : ∀ {o'}, (c.state.om.pool.slots slot).Keeps o' → toldFills news = [] →
        Recounted (c.story slot ++ news) o' := by
      intro o' hkeeps hnews
      rw [Recounted, toldFills, List.filterMap_append]
      show Filled (toldFills (c.story slot) ++ toldFills news) o'
      rw [hnews, List.append_nil]
      exact Filled.keeps hfilled hkeeps
    cases hstep with
    | same => exact hsame (.refl _) rfl
    | confirm hop hslot hlive => exact hsame (Order.confirm_keeps _ _ _) rfl
    | @fill id qty price trade ts hfill hslot hok =>
      subst hfill
      obtain ⟨-, -, -, hqty, hprice, hremaining⟩ := validate_fill_ok_iff.1 hok
      rw [Recounted, toldFills, List.filterMap_append]
      rw [orderRef, ← hslot] at hremaining
      exact Filled.addFill hfilled hqty hprice hop.2.2 hremaining ts
    | cancel hop hslot hlive hout => exact hsame (Order.markCancelSent_keeps _) rfl
    | sweep hop hslot hid => exact hsame (Order.markCancelSent_keeps _) rfl
    | rejectCancel hop hslot hexp hlive => exact hsame (Order.rejectCancel_keeps _) rfl
    | close hslot hlive hf => exact hsame (hf.closing.keeps _) rfl
    | timeOut hf hunflagged =>
      cases hf with
      | mark => exact hsame (Order.markTimedOut_keeps _) rfl
      | markAndCancel =>
        exact hsame ((Order.markTimedOut_keeps _).trans (Order.markCancelSent_keeps _)) rfl

/-- The notional of an order is that of its fills, and its average price is one they could have had.
-/
structure Priced (fills : List (Quantity × Price)) (o : Order) : Prop where
  /-- no word overflows on the way to the accumulators -/
  words : fills.foldlM Order.accumulate (0, 0) = some (o.filledSize, o.totalFillAmount)
  total : o.totalFillAmount = (fills.map fun fill => fill.1 * fill.2).sum
  lowest : 0 < o.filledSize → ∃ fill ∈ fills, fill.2 ≤ o.avgFillPrice
  highest : 0 < o.filledSize → ∃ fill ∈ fills, o.avgFillPrice ≤ fill.2
  fits : Fits 63 o.avgFillPrice
  floor : 0 < o.filledSize → o.avgFillPrice =
    ⌊(((fills.map fun fill => fill.1 * fill.2).sum : ℤ) : ℚ) / (fills.map Prod.fst).sum⌋

theorem Filled.avgFillPrice {fills : List (Quantity × Price)} {o : Order} (h : Filled fills o)
    (hpos : 0 < o.filledSize) : o.avgFillPrice = floorMean Prod.fst Prod.snd fills := by
  rw [Order.avgFillPrice, if_neg hpos.ne', Int.tdiv_eq_ediv_of_nonneg h.total_le.1, h.total,
    h.filledSize, floorMean]

theorem Filled.priced {fills : List (Quantity × Price)} {o : Order} (h : Filled fills o) :
    Priced fills o := by
  have hne : 0 < o.filledSize → fills ≠ [] := by
    rintro hpos rfl
    exact hpos.ne' h.filledSize
  refine ⟨h.words, h.total, fun hpos => ?_, fun hpos => ?_, ?_, fun hpos => ?_⟩
  · rw [h.avgFillPrice hpos]
    exact exists_le_floorMean h.positive (hne hpos)
  · rw [h.avgFillPrice hpos]
    exact exists_floorMean_le h.positive (hne hpos)
  · rcases h.filledSize_nonneg.eq_or_lt with hzero | hpos
    · rw [Order.avgFillPrice, if_pos hzero.symm]
      decide
    · rw [h.avgFillPrice hpos]
      obtain ⟨low, hlow, hle⟩ := exists_le_floorMean (v := Prod.snd) h.positive (hne hpos)
      obtain ⟨high, hhigh, hge⟩ := exists_floorMean_le (v := Prod.snd) h.positive (hne hpos)
      have hlow_pos := h.price_pos low hlow
      have hhigh_lt := h.price_lt high hhigh
      exact (fits_iff_lt (by linarith)).2 (by linarith)
  · rw [h.avgFillPrice hpos]
    exact floorMean_eq_floor h.positive (hne hpos)

/-- **The average fill price is always a real price**: in every run on words of the source, the
128-bit notional of every stored order is exact, and its average is between two of its prices. -/
theorem avgFillPrice_real (E : Env W) (capacity : PoolCapacity) (w : W) (ops : List Op)
    (hops : ∀ op ∈ ops, op.InWords) :
    let c := (chronicle E (State.told E)).run (.blank capacity w) ops
    ∀ slot, c.state.om.pool.allocated slot = true →
      Priced (toldFills (c.story slot)) (c.state.om.pool.slots slot) := by
  intro c slot halloc
  have hc : c.state.om.WF ∧ Told Recounted c :=
    Machine.run_invariant (G := fun _ op => Op.InWords op)
      (I := fun c : Chronicle W News => c.state.om.WF ∧ Told Recounted c)
      (fun _ op h hop => ⟨step_wf h.1 op, recounted_step h.1 h.2 hop⟩)
      ⟨wf_init capacity, told_blank capacity w⟩ (Machine.admits_of_forall hops)
  exact Filled.priced (hc.2 slot halloc)

end Runs

/-- Two fills of an order, of which the average is rounded down. -/
theorem avgFillPrice_real_two :
    let ops : List Op := [.submit { instrument := 7, size := 10, price := 9 }, .confirm 1 "X" 0,
      .fill 1 4 5 8 1, .fill 1 3 8 9 2]
    let c := (chronicle acceptingEnv (State.told acceptingEnv)).run (.blank twoSlots ()) ops
    (c.state.om.pool.slots 0).avgFillPrice = 6 ∧
      Priced (toldFills (c.story 0)) (c.state.om.pool.slots 0) :=
  ⟨by decide, avgFillPrice_real acceptingEnv twoSlots () _ (by decide) 0 (by decide)⟩

end Oms
