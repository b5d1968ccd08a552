import Mathlib.Tactic.Linarith
import Oms.Foundation.FirstSeen
import Oms.SimulatedExchange

/-!
# The event queue of the simulated venue

* `Orderly`: the queue is sorted, and numbers only grow;
* `Queued`: only certain events were scheduled;
* `fillsOf`: the fills of an order that will still count, in the order of their delivery;
* `Planned`: they are positive and fill the order exactly with the last one;
* `scheduleOutcome_planned`: so are the fills of a new order.
-/

namespace Oms

namespace SimulatedExchange

/-- The fill events of an order. -/
def FillOf (id : OrderIdRaw) (ev : SimEvent) : Prop := ev.type = .Fill ∧ ev.id = id

instance (id : OrderIdRaw) (ev : SimEvent) : Decidable (FillOf id ev) :=
  inferInstanceAs (Decidable (_ ∧ _))

/-- The fills of an order whose trade ids were not seen before, in the order of their delivery. -/
def fillsOf (id : OrderIdRaw) (seen : Finset TradeId) (queue : List SimEvent) : List SimEvent :=
  firstSeen (FillOf id) SimEvent.trade seen queue

/-- The queue is sorted, and its numbers are below the next one. -/
structure Orderly (x : SimulatedExchange) : Prop where
  sorted : x.queue.Pairwise (· ≤ ·)
  seq_lt : ∀ ev ∈ x.queue, ev.seq < x.seqCounter

/-- From `x` to `x'` only events with `P` were scheduled. -/
structure Queued (P : SimEvent → Prop) (x x' : SimulatedExchange) : Prop where
  cfg : x'.cfg = x.cfg
  now : x'.now = x.now
  working : x'.working = x.working
  positions : x'.positions = x.positions
  orderly : x.Orderly → x'.Orderly
  mem : ∀ ev ∈ x'.queue, ev ∈ x.queue ∨ P ev
  fills : ∀ id seen, (∀ ev, P ev → ¬ FillOf id ev) →
    fillsOf id seen x'.queue = fillsOf id seen x.queue

section Queued

variable {P P' : SimEvent → Prop} {x x' x'' : SimulatedExchange} {ev : SimEvent}

/-- The book, the queue and its numbers are the same. -/
theorem Queued.of_eq (hcfg : x'.cfg = x.cfg) (hnow : x'.now = x.now)
    (hworking : x'.working = x.working) (hpositions : x'.positions = x.positions)
    (hqueue : x'.queue = x.queue) (hseq : x'.seqCounter = x.seqCounter) : Queued P x x' where
  cfg := hcfg
  now := hnow
  working := hworking
  positions := hpositions
  orderly := fun h => ⟨hqueue ▸ h.sorted, fun ev hev => hseq ▸ h.seq_lt ev (hqueue ▸ hev)⟩
  mem := fun ev hev => Or.inl (hqueue ▸ hev)
  fills := fun id seen _ => by rw [hqueue]

theorem Queued.refl (x : SimulatedExchange) : Queued P x x := .of_eq rfl rfl rfl rfl rfl rfl

theorem Queued.trans (h : Queued P x x') (h' : Queued P x' x'') : Queued P x x'' where
  cfg := h'.cfg.trans h.cfg
  now := h'.now.trans h.now
  working := h'.working.trans h.working
  positions := h'.positions.trans h.positions
  orderly := fun ho => h'.orderly (h.orderly ho)
  mem := fun ev hev => (h'.mem ev hev).elim (h.mem ev) Or.inr
  fills := fun id seen hP => (h'.fills id seen hP).trans (h.fills id seen hP)

theorem Queued.mono (h : Queued P x x') (hP : ∀ ev, P ev → P' ev) : Queued P' x x' :=
  { h with
    mem := fun ev hev => (h.mem ev hev).imp_right (hP ev)
    fills := fun id seen hP' => h.fills id seen fun ev hev => hP' ev (hP ev hev) }

theorem Orderly.schedule (h : x.Orderly) (ev : SimEvent) : (x.schedule ev).Orderly where
  sorted := h.sorted.orderedInsert _ _
  seq_lt := by
    intro ev' hev'
    show ev'.seq < x.seqCounter + 1
    rcases (List.mem_orderedInsert _).1 hev' with rfl | hev'
    · exact Nat.lt_succ_self _
    · exact Nat.lt_succ_of_lt (h.seq_lt ev' hev')

theorem schedule_queued (hP : ∀ n, P { ev with seq := n }) : Queued P x (x.schedule ev) where
  cfg := rfl
  now := rfl
  working := rfl
  positions := rfl
  orderly := fun h => h.schedule ev
  mem := fun ev' hev' => by
    rcases (List.mem_orderedInsert _).1 hev' with rfl | hev'
    · exact Or.inr (hP _)
    · exact Or.inl hev'
  fills := fun id seen hfill => firstSeen_insert_other (hfill _ (hP _))

theorem draw_queued : Queued P x x.draw.2 := .of_eq rfl rfl rfl rfl rfl rfl

theorem scheduleFill_queued
    (hP : ∀ n dueAt trade, P { ev with dueAt := dueAt, seq := n, trade := trade }) :
    Queued P x (x.scheduleFill ev) := by
  have hcount : Queued P x { x with tradeCounter := x.tradeCounter + 1 } :=
    .of_eq rfl rfl rfl rfl rfl rfl
  have hfirst : Queued P { x with tradeCounter := x.tradeCounter + 1 }
      ({ x with tradeCounter := x.tradeCounter + 1 }.schedule
        { ev with trade := UInt64.ofNat (x.tradeCounter + 1) }) :=
    schedule_queued fun n => hP n _ _
  have hdrawn := (hcount.trans hfirst).trans draw_queued
  show Queued P x (if _ then _ else _)
  split_ifs
  · exact hdrawn.trans (schedule_queued fun n => hP n _ _)
  · exact hdrawn

theorem scheduleFills_queued (id : OrderIdRaw) (size : Quantity) (price : Price) (base : Quantity)
    (confirmAt : Timestamp) (left : ℕ) (i : ℤ) (assigned : Quantity) (x : SimulatedExchange) :
    Queued (FillOf id) x (x.scheduleFills id size price base confirmAt left i assigned) := by
  induction left generalizing i assigned x with
  | zero => exact .refl x
  | succ left ih =>
    unfold scheduleFills
    dsimp only
    generalize (if (decide (left = 0)) = true then size - assigned else base) = q
    split_ifs
    · exact ih _ _ x
    all_goals
      refine Queued.trans (scheduleFill_queued fun n dueAt trade => ?_) (ih _ _ _)
      exact ⟨rfl, rfl⟩

end Queued

/-! ### The fills of a new order -/

/-- Each fill is positive and fits into what remains, and it is final exactly if it takes all of
it. -/
def Planned : List SimEvent → Quantity → Prop
  | [], _ => True
  | ev :: plan, remaining =>
    0 < ev.qty ∧ 0 < ev.price ∧ ev.qty ≤ remaining ∧ (ev.final = true ↔ ev.qty = remaining) ∧
      Planned plan (remaining - ev.qty)

section Fills

variable {x : SimulatedExchange} {id : OrderIdRaw} {ev : SimEvent}

@[simp] theorem tradeCounter_scheduleFill :
    (x.scheduleFill ev).tradeCounter = x.tradeCounter + 1 := by
  show (if _ then _ else _ : SimulatedExchange).tradeCounter = _
  split_ifs <;> rfl

section Insert

variable {queue : List SimEvent} {seen : Finset TradeId} {e d : SimEvent}
variable (hsorted : queue.Pairwise (· ≤ ·))
include hsorted

/-- A new fill that is due last is added at the end. -/
theorem fillsOf_insert_last (hfill : FillOf id e) (hseq : ∀ o ∈ queue, o.seq < e.seq)
    (hlast : ∀ o ∈ fillsOf id ∅ queue, o.trade ≠ e.trade ∧ o.dueAt ≤ e.dueAt) :
    fillsOf id ∅ (queue.orderedInsert (· ≤ ·) e) = fillsOf id ∅ queue ++ [e] := by
  refine firstSeen_insert_last hsorted hfill (Finset.notMem_empty _) fun o ho => ?_
  refine ⟨(hlast o ho).1, fun hle => ?_⟩
  have := hseq o (firstSeen_subset ho)
  have := (hlast o ho).2
  rw [SimEvent.le_iff] at hle
  lia

/-- A later delivery of the same trade does not count. -/
theorem fillsOf_insert_duplicate (he : e ∈ fillsOf id seen queue) (htrade : e.trade = d.trade)
    (hlate : e.dueAt < d.dueAt) :
    fillsOf id seen (queue.orderedInsert (· ≤ ·) d) = fillsOf id seen queue := by
  refine firstSeen_insert_again hsorted (Or.inr ⟨e, he, htrade, fun hle => ?_⟩)
  rw [SimEvent.le_iff] at hle
  lia

end Insert

/-- A fill that is due last is added at the end, and its duplicate, if any, does not count. -/
theorem scheduleFill_fills (h : x.Orderly) {e : SimEvent}
    (he : e = { ev with seq := x.seqCounter, trade := UInt64.ofNat (x.tradeCounter + 1) })
    (hfill : FillOf id e)
    (hlast : ∀ o ∈ fillsOf id ∅ x.queue, o.trade ≠ e.trade ∧ o.dueAt ≤ e.dueAt) :
    fillsOf id ∅ (x.scheduleFill ev).queue = fillsOf id ∅ x.queue ++ [e] := by
  have hseq : ∀ o ∈ x.queue, o.seq < e.seq := by
    rw [he]
    exact h.seq_lt
  have hfirst := fillsOf_insert_last h.sorted hfill hseq hlast
  have hmem : e ∈ fillsOf id ∅ (x.queue.orderedInsert (· ≤ ·) e) := by
    rw [hfirst]
    exact List.mem_append_right _ List.mem_cons_self
  subst he
  show fillsOf id ∅ (if _ then _ else _ : SimulatedExchange).queue = _
  split_ifs
  · refine Eq.trans ?_ hfirst
    exact fillsOf_insert_duplicate (h.sorted.orderedInsert _ _) hmem rfl (Int.lt_succ _)
  · exact hfirst

/-- A chunk of `q` out of `rest`, with `left` chunks of at least `base` each after it. -/
structure Chunk (base rest q : Quantity) (left : ℕ) : Prop where
  nonneg : 0 ≤ q
  le : q ≤ rest
  last_iff : left = 0 ↔ q = rest
  leaves : 0 < left → left * base ≤ rest - q ∧ 0 < rest - q

/-- The last chunk takes the rest, and any other takes `base`. -/
theorem chunk_of_mul_le {base rest : Quantity} {left : ℕ} (hbase : 0 ≤ base)
    (hmul : (left + 1) * base ≤ rest) (hpos : 0 < rest) :
    Chunk base rest (if decide (left = 0) = true then rest else base) left := by
  rcases Nat.eq_zero_or_pos left with hzero | hleft
  · rw [if_pos (by simpa using hzero)]
    exact ⟨hpos.le, le_refl _, iff_of_true hzero rfl, fun hleft => absurd hzero hleft.ne'⟩
  · rw [if_neg (by simpa using hleft.ne')]
    have hleft' : (1 : ℤ) ≤ left := by exact_mod_cast hleft
    have hmul' : left * base ≤ rest - base := by linarith
    have hpos' : 0 < rest - base := by
      rcases hbase.eq_or_lt with hzero | hbase'
      · rw [← hzero, sub_zero]
        exact hpos
      · nlinarith
    exact ⟨hbase, by linarith, iff_of_false hleft.ne' (by linarith), fun _ => ⟨hmul', hpos'⟩⟩

/-- Trade ids that are less than `2 ^ 32` apart are different. -/
theorem trade_ne {t₀ n m : ℕ} (h₀ : t₀ < n) (hn : n < m) (hm : m ≤ t₀ + 2 ^ 32) :
    UInt64.ofNat n ≠ UInt64.ofNat m := by
  intro heq
  have hmod := congrArg UInt64.toNat heq
  rw [UInt64.toNat_ofNat', UInt64.toNat_ofNat'] at hmod
  omega

/-- The fills of an order in the queue are due by `due`, and were traded after the trade `t₀`. -/
def TradedSince (x : SimulatedExchange) (id : OrderIdRaw) (t₀ : ℕ) (due : Timestamp) : Prop :=
  ∀ o ∈ fillsOf id ∅ x.queue, o.dueAt ≤ due ∧
    ∃ n, t₀ < n ∧ n ≤ x.tradeCounter ∧ o.trade = UInt64.ofNat n

theorem TradedSince.mono {t₀ : ℕ} {due due' : Timestamp} (h : x.TradedSince id t₀ due)
    (hle : due ≤ due') : x.TradedSince id t₀ due' := fun o ho =>
  ⟨(h o ho).1.trans hle, (h o ho).2⟩

/-- One more fill, due after the others, with the next trade id. -/
theorem TradedSince.scheduleFill {t₀ : ℕ} {due : Timestamp} (h : x.TradedSince id t₀ due)
    (horderly : x.Orderly) (hfill : FillOf id ev) (hdue : due ≤ ev.dueAt)
    (hle : t₀ ≤ x.tradeCounter) (hcount : x.tradeCounter < t₀ + 2 ^ 32) :
    fillsOf id ∅ (x.scheduleFill ev).queue = fillsOf id ∅ x.queue ++
        [{ ev with seq := x.seqCounter, trade := UInt64.ofNat (x.tradeCounter + 1) }] ∧
      (x.scheduleFill ev).TradedSince id t₀ ev.dueAt := by
  have hfills : fillsOf id ∅ (x.scheduleFill ev).queue = _ :=
    scheduleFill_fills horderly rfl hfill fun o ho => by
      obtain ⟨hdueO, n, hn₀, hn, htrade⟩ := h o ho
      exact ⟨htrade ▸ trade_ne hn₀ (Nat.lt_succ_of_le hn) hcount, hdueO.trans hdue⟩
  refine ⟨hfills, fun o ho => ?_⟩
  rw [hfills] at ho
  rw [tradeCounter_scheduleFill]
  rcases List.mem_append.1 ho with ho | ho
  · obtain ⟨hdueO, n, hn₀, hn, htrade⟩ := h o ho
    exact ⟨hdueO.trans hdue, n, hn₀, Nat.le_succ_of_le hn, htrade⟩
  · rw [List.mem_singleton] at ho
    subst ho
    exact ⟨le_refl _, _, Nat.lt_succ_of_le hle, le_refl _, rfl⟩

/-- The fills that are scheduled for an order fill what is left of it exactly. -/
theorem scheduleFills_planned (id : OrderIdRaw) {size : Quantity} {price : Price}
    {base : Quantity} (confirmAt : Timestamp) (t₀ : ℕ) (hprice : 0 < price) (hbase : 0 ≤ base)
    (left : ℕ) (i : ℤ) (assigned : Quantity) (h : x.Orderly)
    (hreorder : x.cfg.reorderFillBeforeAck = false)
    (hgap : 0 ≤ x.cfg.fillGapNs)
    (hrest : 0 < left → left * base ≤ size - assigned ∧ 0 < size - assigned)
    (hsince : x.TradedSince id t₀ (x.now + x.cfg.fillLatencyNs + i * x.cfg.fillGapNs))
    (hcount : x.tradeCounter + left ≤ t₀ + 2 ^ 32) (hle : t₀ ≤ x.tradeCounter) :
    ∃ plan, fillsOf id ∅ (x.scheduleFills id size price base confirmAt left i assigned).queue =
      fillsOf id ∅ x.queue ++ plan ∧ Planned plan (size - assigned) := by
  induction left generalizing i assigned x with
  | zero => exact ⟨[], (List.append_nil _).symm, trivial⟩
  | succ left ih =>
    obtain ⟨hmul, hpos⟩ := hrest (Nat.succ_pos left)
    push_cast at hmul
    have hchunk := chunk_of_mul_le hbase hmul hpos
    have hnext : x.now + x.cfg.fillLatencyNs + i * x.cfg.fillGapNs ≤
        x.now + x.cfg.fillLatencyNs + (i + 1) * x.cfg.fillGapNs := by linarith
    unfold scheduleFills
    dsimp only
    generalize (if decide (left = 0) = true then size - assigned else base) = q at hchunk ⊢
    have hrest' : 0 < left → left * base ≤ size - (assigned + q) ∧ 0 < size - (assigned + q) := by
      rw [← sub_sub]
      exact hchunk.leaves
    by_cases hnone : q ≤ 0
    · -- an empty chunk is skipped
      have hzero : q = 0 := le_antisymm hnone hchunk.nonneg
      rw [if_pos hnone]
      obtain ⟨plan, hfills, hplan⟩ := ih (i + 1) (assigned + q) h hreorder hgap hrest'
        (hsince.mono hnext) (by omega) hle
      rw [hzero, add_zero] at hplan
      exact ⟨plan, hfills, hplan⟩
    · rw [if_neg hnone, if_neg (by simp [hreorder])]
      obtain ⟨ev, hev⟩ : ∃ ev : SimEvent, ev =
          { dueAt := x.now + x.cfg.fillLatencyNs + i * x.cfg.fillGapNs, type := .Fill, id := id,
            qty := q, price := price, final := decide (left = 0) } := ⟨_, rfl⟩
      rw [← hev]
      have hfill : FillOf id ev := by
        subst hev
        exact ⟨rfl, rfl⟩
      have hdue : ev.dueAt = x.now + x.cfg.fillLatencyNs + i * x.cfg.fillGapNs := by
        subst hev
        rfl
      obtain ⟨hfirst, hsince'⟩ := hsince.scheduleFill h hfill hdue.ge hle (by omega)
      have hqueued : Queued (fun _ => True) x (x.scheduleFill ev) :=
        scheduleFill_queued fun _ _ _ => trivial
      have htrades : (x.scheduleFill ev).tradeCounter = x.tradeCounter + 1 :=
        tradeCounter_scheduleFill
      rw [← hqueued.cfg] at hreorder hgap
      obtain ⟨plan, hfills, hplan⟩ := ih (i + 1) (assigned + q) (hqueued.orderly h) hreorder hgap
        hrest' (hsince'.mono (by rw [hdue, hqueued.cfg, hqueued.now]; exact hnext))
        (by rw [htrades]; omega) (by rw [htrades]; omega)
      have hqueue := hfills.trans (congrArg (· ++ plan) hfirst)
      rw [List.append_assoc, List.singleton_append] at hqueue
      refine ⟨_, hqueue, ?_⟩
      subst hev
      refine ⟨not_le.1 hnone, hprice, hchunk.le, ?_, ?_⟩
      · rw [← hchunk.last_iff]
        exact decide_eq_true_iff
      · rw [sub_sub]
        exact hplan

/-- An event that the venue schedules for a new order. -/
structure EventOf (id : OrderIdRaw) (ev : SimEvent) : Prop where
  id_eq : ev.id = id
  reject : ev.type = .Reject → ev.reason = .RiskLimit

theorem FillOf.eventOf (h : FillOf id ev) : EventOf id ev :=
  ⟨h.2, fun hreject => by rw [h.1] at hreject; cases hreject⟩

theorem one_le_chunks (cfg : SimConfig) :
    1 ≤ (chunks cfg).toInt ∧ (chunks cfg).toInt.toNat ≤ 2 ^ 31 := by
  have hlt := (chunks cfg).toInt_lt
  unfold chunks at hlt ⊢
  split_ifs at hlt ⊢ with h
  · decide
  · rw [Int32.lt_iff_toInt_lt] at h
    have hone : (1 : Int32).toInt = 1 := by decide
    omega

variable {o : Order}

theorem scheduleOutcome_queued (o : Order) (x : SimulatedExchange) :
    Queued (EventOf o.internalId) x (x.scheduleOutcome o) := by
  have hdraw : Queued (EventOf o.internalId) x x.draw.2 := draw_queued
  unfold scheduleOutcome
  rcases hy : x.draw with ⟨rejected, y⟩
  rw [hy] at hdraw
  dsimp only
  split
  · exact hdraw.trans (schedule_queued fun n => ⟨rfl, fun _ => rfl⟩)
  · generalize hev : ({ dueAt := _, type := .Confirm, id := o.internalId } : SimEvent) = ev
    have hconfirm : Queued (EventOf o.internalId) y (y.schedule ev) := by
      subst hev
      exact schedule_queued fun n => ⟨rfl, nofun⟩
    have hdraw' : Queued (EventOf o.internalId) (y.schedule ev) (y.schedule ev).draw.2 :=
      draw_queued
    rcases hz : (y.schedule ev).draw with ⟨unsolicited, z⟩
    rw [hz] at hdraw'
    dsimp only
    split
    · exact ((hdraw.trans hconfirm).trans hdraw').trans (schedule_queued fun n => ⟨rfl, nofun⟩)
    · exact ((hdraw.trans hconfirm).trans hdraw').trans
        ((scheduleFills_queued _ _ _ _ _ _ _ _ _).mono fun ev hev => hev.eventOf)

/-- The fills of a new order fill it exactly. -/
theorem scheduleOutcome_planned (h : x.Orderly) (hreorder : x.cfg.reorderFillBeforeAck = false)
    (hgap : 0 ≤ x.cfg.fillGapNs) (hsize : 0 < o.size) (hprice : 0 < o.limitPrice)
    (hnew : fillsOf o.internalId ∅ x.queue = []) :
    Planned (fillsOf o.internalId ∅ (x.scheduleOutcome o).queue) o.size := by
  -- an event that is no fill adds none
  have hother : ∀ {y : SimulatedExchange} {ev : SimEvent}, ev.type ≠ .Fill →
      Queued (fun ev => ev.type ≠ .Fill) y (y.schedule ev) := fun htype =>
    schedule_queued fun _ => htype
  have hnil : ∀ {y : SimulatedExchange}, Queued (fun ev => ev.type ≠ .Fill) x y →
      fillsOf o.internalId ∅ y.queue = [] := fun hy =>
    (hy.fills _ _ fun ev hev hfill => hev hfill.1).trans hnew
  have hnone : ∀ {y : SimulatedExchange}, Queued (fun ev => ev.type ≠ .Fill) x y →
      Planned (fillsOf o.internalId ∅ y.queue) o.size := fun hy => by
    rw [hnil hy]
    trivial
  have hdraw : Queued (fun ev => ev.type ≠ .Fill) x x.draw.2 := draw_queued
  unfold scheduleOutcome
  rcases hy : x.draw with ⟨rejected, y⟩
  rw [hy] at hdraw
  dsimp only
  split
  · exact hnone (hdraw.trans (hother nofun))
  · generalize hev : ({ dueAt := _, type := .Confirm, id := o.internalId } : SimEvent) = ev
    have hconfirm : Queued (fun ev => ev.type ≠ .Fill) y (y.schedule ev) := by
      subst hev
      exact hother nofun
    have hdraw' : Queued (fun ev => ev.type ≠ .Fill) (y.schedule ev) (y.schedule ev).draw.2 :=
      draw_queued
    rcases hz : (y.schedule ev).draw with ⟨unsolicited, z⟩
    rw [hz] at hdraw'
    have hxz := (hdraw.trans hconfirm).trans hdraw'
    dsimp only
    split
    · exact hnone (hxz.trans (hother nofun))
    · obtain ⟨hone, hmany⟩ := one_le_chunks z.cfg
      have hbase : 0 ≤ o.size.tdiv (chunks z.cfg).toInt := Int.tdiv_nonneg hsize.le (by omega)
      have hmul : ((chunks z.cfg).toInt.toNat : ℤ) * o.size.tdiv (chunks z.cfg).toInt ≤ o.size := by
        rw [Int.toNat_of_nonneg (by omega), Int.tdiv_eq_ediv_of_nonneg hsize.le]
        exact Int.mul_ediv_self_le (by omega)
      obtain ⟨plan, hfills, hplan⟩ := scheduleFills_planned o.internalId
        (y.now + y.cfg.ackLatencyNs) z.tradeCounter hprice hbase
        (chunks z.cfg).toInt.toNat 0 0 (hxz.orderly h) (by rw [hxz.cfg]; exact hreorder)
        (by rw [hxz.cfg]; exact hgap) (fun _ => by rw [sub_zero]; exact ⟨hmul, hsize⟩)
        (fun o ho => absurd (hnil hxz ▸ ho) List.not_mem_nil)
        (Nat.add_le_add_left (by omega) _) (le_refl _)
      rw [hnil hxz, List.nil_append] at hfills
      rw [sub_zero] at hplan
      rw [hfills]
      exact hplan

end Fills

end SimulatedExchange

end Oms
