import Oms.ExecutionAlgo.Twap
import Oms.Foundation.Evenly

/-!
# The sizes of TWAP slices

While every child is accepted and none is rejected or cancelled, what is filled or in flight is what
was sent. So a slice is what is left of the parent, divided by the slices that are left and rounded
up, and the fills do not matter.

* `slicesSent`, `sentOnTimer`, `AlgoOp.sends`: the children that are sent for slices;
* `Scheduled`: what was sent, and what is still to be sent, is the parent's quantity divided evenly;
* `fireSlice_scheduled`, `fireSlices_scheduled`, `onTimer_scheduled`: a round, the loop, the call;
* `Smooth`: an operation that accepts all children and ends none;
* `twap_slices_even`: the sizes along every run of smooth operations.
-/

namespace Oms

open OrderManager

namespace TwapAlgo

/-! ### What is sent -/

section Sent

variable {W : Type} (E : Env W)

/-- The children that the slice loop sends, with the ids that the manager returns for them. -/
def slicesSent (now : Timestamp) :
    (rounds : ℕ) → TwapAlgo W → State W → List (OrderIdRaw × Quantity)
  | 0, _, _ => []
  | rounds + 1, a, s =>
    if a.sliceDue now then
      let (id, a', s') := a.fireSlice E s
      (if a.sliceQty ≤ 0 then [] else [(id, a.sliceQty)]) ++ slicesSent now rounds a' s'
    else []

/-- The children that a timer call sends for its slices. -/
def sentOnTimer (a : TwapAlgo W) (now : Timestamp) (s : State W) : List (OrderIdRaw × Quantity) :=
  if a.done = true ∨ a.parent.endAt ≤ now then []
  else slicesSent E now (a.n - a.slicesDone) a s

end Sent

/-! ### The schedule -/

/-- The algo has sent children of the sizes `sent`, and what is filled or in flight is what it sent.
What is left, divided evenly among the slices that are left, completes the even division of the
parent's quantity. -/
structure Scheduled {W : Type} (cfg : AlgoConfig W) (p : ParentOrder) (a : TwapAlgo W)
    (om : OrderManager) (sent : List Quantity) : Prop where
  regular : om.Regular
  sound : a.Sound cfg p (fun _ => none) (om.childBook cfg.workerOffset cfg.workerIndex)
  slices : a.n = (max 1 cfg.slices).toNat
  counted : a.slicesDone ≤ a.n
  balance : a.filled + a.inflight = sent.sum
  rest : sent ++ nonzeroParts (p.qty - sent.sum) (a.n - a.slicesDone) = nonzeroParts p.qty a.n
  all : a.slicesDone = a.n ∨ a.done = true → sent.sum = p.qty

section Rounds

variable {W : Type} {E : Env W} {cfg : AlgoConfig W} {p : ParentOrder} {a : TwapAlgo W}
  {s : State W} {now : Timestamp} {sent : List Quantity}

/-- What is left of the parent. -/
theorem Scheduled.remaining {om : OrderManager} (h : Scheduled cfg p a om sent) :
    0 ≤ p.qty - sent.sum ∧ a.remainingQuantity a.inflight = p.qty - sent.sum := by
  have hbound := h.sound.bound
  have hleft : a.parent.qty - a.filled - a.inflight = p.qty - sent.sum := by
    rw [h.sound.parent, ← h.balance]
    ring
  rw [h.balance] at hbound
  unfold AlgoBase.remainingQuantity
  dsimp only
  rw [hleft]
  refine ⟨by linarith, ?_⟩
  split_ifs
  · rfl
  · linarith

/-- The size of a slice: what is left, divided by the slices that are left and rounded up. -/
theorem Scheduled.sliceQty (h : Scheduled cfg p a s.om sent) {m : ℕ}
    (hm : a.n - a.slicesDone = m + 1) :
    a.sliceQty = (p.qty - sent.sum + m) / (m + 1) := by
  obtain ⟨hnonneg, hrem⟩ := h.remaining
  have hsize : ∀ q : ℤ, 0 ≤ q → (if m + 1 ≤ 1 then q else ceilDiv q ((m + 1 : ℕ) : ℤ)) =
      (q + m) / (m + 1) := by
    intro q hq
    split_ifs with hlast
    · obtain rfl : m = 0 := by omega
      simp
    · have hpos : ¬ ((m + 1 : ℕ) : ℤ) ≤ 0 := by omega
      rw [ceilDiv, if_neg hpos, Int.tdiv_eq_ediv_of_nonneg (by omega)]
      congr 1
      omega
  unfold TwapAlgo.sliceQty
  dsimp only
  rw [hrem, hm, hsize _ hnonneg, if_neg (not_lt.2 (first_part_le _ hnonneg m))]

/-- A round that sends its child, or finds nothing to send. -/
theorem fireSlice_scheduled (h : Scheduled cfg p a s.om sent) (hdone : a.done = false)
    (hmore : a.slicesDone < a.n) (hsent : a.sliceQty ≤ 0 ∨ (a.fireSlice E s).1 ≠ 0) :
    Scheduled cfg p (a.fireSlice E s).2.1 (a.fireSlice E s).2.2.om
      (sent ++ if a.sliceQty ≤ 0 then [] else [a.sliceQty]) := by
  obtain ⟨m, hm⟩ : ∃ m, a.n - a.slicesDone = m + 1 := ⟨a.n - a.slicesDone - 1, by omega⟩
  have hsize := h.sliceQty hm
  obtain ⟨hnonneg, hrem⟩ := h.remaining
  have hparts := nonzeroParts_succ (p.qty - sent.sum) hnonneg m
  have hfirst := first_part_le (p.qty - sent.sum) hnonneg m
  have hfirst₀ := first_part_nonneg (p.qty - sent.sum) hnonneg m
  rw [← hsize] at hparts hfirst hfirst₀
  have hcounted : a.slicesDone + 1 ≤ a.n := by omega
  have hm' : a.n - (a.slicesDone + 1) = m := by omega
  -- the last slice is all that is left
  have hlast : a.slicesDone + 1 = a.n → a.sliceQty = p.qty - sent.sum := fun hlast => by
    obtain rfl : m = 0 := by omega
    simpa using hsize
  have hrest := h.rest
  rw [hm, hparts, ← List.append_assoc] at hrest
  unfold fireSlice at hsent ⊢
  dsimp only at hsent ⊢
  by_cases hqty : a.sliceQty ≤ 0
  · have hzero : a.sliceQty = 0 := le_antisymm hqty hfirst₀
    rw [if_pos hqty, hzero, sub_zero, List.append_nil] at hrest
    rw [if_pos hqty, if_pos hqty, List.append_nil]
    refine ⟨h.regular, h.sound, h.slices, hcounted, h.balance, ?_, ?_⟩
    · exact hm' ▸ hrest
    · rintro (hall | hall)
      · have hleft := hlast hall
        linarith
      · rw [hdone] at hall
        cases hall
  · rw [if_neg hqty] at hsent hrest ⊢
    have hid := hsent.resolve_left hqty
    obtain ⟨hpos, ha, hfresh, hbook⟩ :=
      sendChild_sent (E := E) a.toAlgoBase a.sliceQty a.parent.limit .Limit h.regular hid
    rw [h.sound.config] at hfresh hbook
    have hleft : a.sliceQty ≤ a.parent.qty - a.filled - a.inflight := by
      rw [h.sound.parent]
      have hbalance := h.balance
      linarith
    have hsum : (sent ++ [a.sliceQty]).sum = sent.sum + a.sliceQty := by simp
    have hsound := h.sound.addChild hdone hfresh hpos hleft
    rw [if_neg hqty]
    dsimp only
    rw [ha]
    refine ⟨h.regular.chain (sendChild_chain h.regular.wf), ?_, h.slices, hcounted, ?_, ?_, ?_⟩
    · rw [hbook]
      exact hsound
    · rw [hsum, ← h.balance, add_assoc]
      exact congrArg (a.filled + ·) (inflight_addChild (h.sound.splits.of_none hfresh).2)
    · rw [hsum, ← sub_sub]
      exact hm' ▸ hrest
    · rintro (hall | hall)
      · have hleft := hlast hall
        rw [hsum]
        linarith
      · change a.done = true at hall
        rw [hdone] at hall
        cases hall

theorem slicesSent_cons (now : Timestamp) (rounds : ℕ) (a : TwapAlgo W) (s : State W) :
    slicesSent E now (rounds + 1) a s =
      if a.sliceDue now then
        (if a.sliceQty ≤ 0 then [] else [((a.fireSlice E s).1, a.sliceQty)]) ++
          slicesSent E now rounds (a.fireSlice E s).2.1 (a.fireSlice E s).2.2
      else [] := rfl

/-- The slice loop, round by round. -/
theorem fireSlices_scheduled (rounds : ℕ) (h : Scheduled cfg p a s.om sent) (hdone : a.done = false)
    (hids : ∀ x ∈ slicesSent E now rounds a s, x.1 ≠ 0) :
    Scheduled cfg p (a.fireSlices E now rounds s).1 (a.fireSlices E now rounds s).2.om
        (sent ++ (slicesSent E now rounds a s).map Prod.snd) ∧
      (a.fireSlices E now rounds s).1.done = false := by
  induction rounds generalizing a s sent with
  | zero =>
    refine ⟨?_, hdone⟩
    rw [slicesSent, List.map_nil, List.append_nil]
    exact h
  | succ rounds ih =>
    rw [slicesSent_cons] at hids ⊢
    rw [fireSlices_cons]
    by_cases hdue : a.sliceDue now
    · rw [if_pos hdue] at hids ⊢
      rw [if_pos hdue]
      have hmore : a.slicesDone < a.n := by
        simp only [sliceDue, Bool.and_eq_true, decide_eq_true_eq] at hdue
        exact hdue.1
      have hround : a.sliceQty ≤ 0 ∨ (a.fireSlice E s).1 ≠ 0 := by
        by_cases hqty : a.sliceQty ≤ 0
        · exact Or.inl hqty
        · refine Or.inr (hids ((a.fireSlice E s).1, a.sliceQty) ?_)
          simp [hqty]
      have hnext := ih (fireSlice_scheduled h hdone hmore hround) (fireSlice_done.trans hdone)
        fun x hx => hids x (List.mem_append_right _ hx)
      rw [List.map_append, ← List.append_assoc]
      refine ⟨?_, hnext.2⟩
      by_cases hqty : a.sliceQty ≤ 0
      · simpa [hqty] using hnext.1
      · simpa [hqty] using hnext.1
    · rw [if_neg hdue, if_neg hdue]
      refine ⟨?_, hdone⟩
      rw [List.map_nil, List.append_nil]
      exact h

/-- What was filled is what was sent, so everything was sent if the parent is filled. -/
theorem Scheduled.all_of_filled (h : Scheduled cfg p a s.om sent) (hfull : p.qty ≤ a.filled) :
    sent.sum = p.qty := by
  have hbalance := h.balance
  have hinflight := h.sound.positive.inflight_nonneg
  have hleft := h.remaining.1
  linarith

/-- A timer call before the deadline. -/
theorem onTimer_scheduled (h : Scheduled cfg p a s.om sent) (hearly : now < p.endAt)
    (hids : ∀ x ∈ a.sentOnTimer E now s, x.1 ≠ 0) :
    Scheduled cfg p (a.onTimer E now s).1 (a.onTimer E now s).2.om
      (sent ++ (a.sentOnTimer E now s).map Prod.snd) := by
  have hbefore : ¬ a.parent.endAt ≤ now := by
    rw [h.sound.parent]
    exact not_le.2 hearly
  unfold sentOnTimer at hids ⊢
  unfold onTimer
  by_cases hdone : a.done = true
  · rw [if_pos hdone, if_pos (Or.inl hdone), List.map_nil, List.append_nil]
    exact h
  · have hopen : ¬ (a.done = true ∨ a.parent.endAt ≤ now) := by simp [hdone, hbefore]
    rw [if_neg hopen] at hids ⊢
    rw [if_neg hdone, if_neg hbefore]
    obtain ⟨hnext, -⟩ :=
      fireSlices_scheduled (a.n - a.slicesDone) h (Bool.eq_false_of_not_eq_true hdone) hids
    dsimp only
    split_ifs with hfull
    · refine ⟨hnext.regular, ?_, hnext.slices, hnext.counted, hnext.balance, hnext.rest, ?_⟩
      · exact hnext.sound.finish (hnext.sound.inflight_eq_zero hfull)
          fun hlt => absurd hfull (not_le.2 hlt)
      · rw [hnext.sound.parent] at hfull
        exact fun _ => hnext.all_of_filled hfull
    · exact hnext

/-- What an operation that ends no child leaves alone. -/
theorem heardFill_kept {a' : TwapAlgo W} {c c' : ChildBook}
    (h : a.Sound cfg p (fun _ => none) c) (hheard : HeardFill c a c' a') :
    a'.n = a.n ∧ a'.slicesDone = a.slicesDone ∧
      a'.filled + a'.inflight = a.filled + a.inflight ∧
      (a'.done = true → a.done = true ∨ p.qty ≤ a'.filled) := by
  cases hheard with
  | nothing => exact ⟨rfl, rfl, rfl, Or.inl⟩
  | @fill o qty price hqty hrem hchild hstatus =>
    refine ⟨rfl, rfl, ?_, fun hdone => ?_⟩
    · have hrest : a.rest o.internalId = some (o.remaining + qty) :=
        (h.splits.working_inner rfl).symm.trans hchild
      have hinflight : (a.toAlgoBase.onFill o qty price).inflight = a.inflight - qty :=
        inflight_onFill hrest hstatus price
      show a.filled + qty + (a.toAlgoBase.onFill o qty price).inflight = _
      rw [hinflight]
      ring
    · change (if a.parent.qty ≤ a.filled + qty then true else a.done) = true at hdone
      rw [h.parent] at hdone
      by_cases hfull : p.qty ≤ a.filled + qty
      · exact Or.inr hfull
      · rw [if_neg hfull] at hdone
        exact Or.inl hdone

/-- Fills leave the schedule alone. -/
theorem Scheduled.heardFill {a' : TwapAlgo W} {om om' : OrderManager}
    (h : Scheduled cfg p a om sent) (hreg : om'.Regular)
    (hheard : HeardFill (om.childBook cfg.workerOffset cfg.workerIndex) a
      (om'.childBook cfg.workerOffset cfg.workerIndex) a') :
    Scheduled cfg p a' om' sent := by
  have hsound := heard_sound h.sound hheard.heard
  obtain ⟨hn, hcount, hbalance, hdone⟩ := heardFill_kept h.sound hheard
  refine ⟨hreg, hsound, hn.trans h.slices, ?_, hbalance.trans h.balance, ?_, ?_⟩
  · rw [hn, hcount]
    exact h.counted
  · rw [hn, hcount]
    exact h.rest
  · rw [hn, hcount]
    rintro (hall | hall)
    · exact h.all (Or.inl hall)
    · rcases hdone hall with hwas | hfull
      · exact h.all (Or.inr hwas)
      · have hbound := h.remaining.1
        have hinflight := hsound.positive.inflight_nonneg
        rw [h.balance] at hbalance
        linarith

end Rounds

end TwapAlgo

/-! ### Every run -/

/-- The children that an operation sends for slices, with the ids that the manager returns. -/
def AlgoOp.sends {B : Type} (E : Env B) (s : State (B × TwapAlgo B)) :
    AlgoOp → List (OrderIdRaw × Quantity)
  | .oms _ => []
  | .timer now => s.world.2.sentOnTimer E now ⟨s.om, s.world.1⟩
  | .cancel => []

/-- An operation before the deadline in which every submit succeeds and no child is rejected or
cancelled. -/
structure AlgoOp.Smooth {B : Type} (E : Env B) (cfg : AlgoConfig B) (p : ParentOrder)
    (s : State (B × TwapAlgo B)) (op : AlgoOp) : Prop where
  foreign : op.Foreign cfg.workerOffset cfg.workerIndex
  early : ∀ now, op = .timer now → now < p.endAt
  succeeds : ∀ child ∈ op.sends E s, child.1 ≠ 0
  keeps : ∀ o id, op = .oms o → o.ends = some id → s.om.Live id →
    (s.om.orderRef id).internalId ∉ s.world.2.children

section Runs

variable {B : Type} {E : Env B} {cfg : AlgoConfig B} {p : ParentOrder}
  {s : State (B × TwapAlgo B)} {sent : List Quantity}

theorem scheduled_init (hqty : 0 ≤ p.qty) (capacity : PoolCapacity) :
    TwapAlgo.Scheduled cfg p (TwapAlgo.start { config := cfg } p) (.init capacity) [] where
  regular := regular_init capacity
  sound := TwapAlgo.sound_start hqty capacity
  slices := rfl
  counted := Nat.zero_le _
  balance := by
    show 0 + Finmap.sumOver ∅ _ = 0
    rw [Finmap.sumOver_empty, add_zero]
  rest := by
    show nonzeroParts (p.qty - 0) _ = _
    rw [sub_zero]
    rfl
  all := by
    rintro (hall | hall)
    · have hone : 0 < (max 1 cfg.slices).toNat := by omega
      change 0 = (max 1 cfg.slices).toNat at hall
      omega
    · cases hall

/-- A fill ends no child. -/
theorem smooth_fill {id : OrderIdRaw} {qty : Quantity} {price : Price} {trade : TradeId}
    {ts : Timestamp} : (AlgoOp.oms (.fill id qty price trade ts)).Smooth E cfg p s where
  foreign := fun _ h => by cases h
  early := fun _ h => by cases h
  succeeds := fun _ h => by cases h
  keeps := fun _ _ h hends => by
    cases h
    cases hends

theorem smooth_timer {now : Timestamp} (hearly : now < p.endAt)
    (hsucceeds : ∀ child ∈ (AlgoOp.timer now).sends E s, child.1 ≠ 0) :
    (AlgoOp.timer now).Smooth E cfg p s where
  foreign := fun _ h => by cases h
  early := fun _ h => by
    cases h
    exact hearly
  succeeds := hsucceeds
  keeps := fun _ _ h => by cases h

/-- One operation. -/
theorem step_scheduled (h : TwapAlgo.Scheduled cfg p s.world.2 s.om sent) {op : AlgoOp}
    (hop : op.Smooth E cfg p s) :
    let s' := (algoMachine E cfg.workerOffset cfg.workerIndex).step s op
    TwapAlgo.Scheduled cfg p s'.world.2 s'.om (sent ++ (op.sends E s).map Prod.snd) := by
  intro s'
  cases op with
  | oms op =>
    have hchain : Chain {} s.om
        (s.step (E.withAlgo cfg.workerOffset cfg.workerIndex) op).om :=
      step_chain h.regular.wf op
    rw [AlgoOp.sends, List.map_nil, List.append_nil]
    refine h.heardFill (h.regular.chain hchain) (step_heardFill h.regular hop.foreign ?_)
    intro id hends hlive hown
    -- an open order with the tag is a child
    have hworking := working_of_own h.regular.stamped hlive hown
    rw [h.sound.splits.working_inner rfl] at hworking
    refine hop.keeps op id rfl hends hlive (mem_children_iff.2 ?_)
    rw [hworking]
    exact Option.some_ne_none _
  | timer now =>
    exact TwapAlgo.onTimer_scheduled (s := ⟨s.om, s.world.1⟩) h (hop.early now rfl) hop.succeeds
  | cancel =>
    rw [AlgoOp.sends, List.map_nil, List.append_nil]
    have hchain : ∀ P, Chain P s.om (s.world.2.toAlgoBase.cancel E ⟨s.om, s.world.1⟩).om :=
      fun P => cancelChildren_chain (s := ⟨s.om, s.world.1⟩) P
    refine h.heardFill (h.regular.chain (hchain {})) (heardFill_nothing ?_ rfl)
    exact childBook_idle ((hchain still).idle h.regular.wf h.regular.stamped)

end Runs

/-- **TWAP slices are balanced whatever fills arrive.** Along every run of smooth operations, with
`n` the number of slices and `Q` the parent's quantity, the children sent so far are the first of
these sizes: `Q % n` times `Q / n + 1`, then `Q / n`, without the zeros. When all slices have fired,
or the algo is done, they are all of them, and add up to `Q`. -/
theorem twap_slices_even {B : Type} (E : Env B) (cfg : AlgoConfig B) (p : ParentOrder)
    (hqty : 0 < p.qty) (capacity : PoolCapacity) (b : B) (ops : List AlgoOp) :
    let M := algoMachine (A := TwapAlgo) E cfg.workerOffset cfg.workerIndex
    let s₀ : State (B × TwapAlgo B) := ⟨.init capacity, b, TwapAlgo.start { config := cfg } p⟩
    let n : ℕ := (max 1 cfg.slices).toNat
    let sizes := (M.trace (fun s op => op.sends E s) s₀ ops).map Prod.snd
    let plan := (List.replicate (p.qty % n).toNat (p.qty / n + 1) ++
      List.replicate (n - (p.qty % n).toNat) (p.qty / n)).filter (0 < ·)
    M.Admits (fun s op => op.Smooth E cfg p s) s₀ ops →
    sizes <+: plan ∧
      ((M.run s₀ ops).world.2.slicesDone = n ∨ (M.run s₀ ops).world.2.done = true →
        sizes = plan ∧ sizes.sum = p.qty) := by
  intro M s₀ n sizes plan hadm
  have hinv : TwapAlgo.Scheduled cfg p (M.run s₀ ops).world.2 (M.run s₀ ops).om sizes :=
    Machine.run_trace_invariant
      (I := fun s (t : List (OrderIdRaw × Quantity)) =>
        TwapAlgo.Scheduled cfg p s.world.2 s.om (t.map Prod.snd))
      (fun s op t h hop => by
        rw [List.map_append]
        exact step_scheduled h hop)
      (t := []) (scheduled_init hqty.le capacity) hadm
  have hslices : (M.run s₀ ops).world.2.n = n := hinv.slices
  have hrest := hinv.rest
  have hall := hinv.all
  rw [hslices] at hrest hall
  refine ⟨⟨_, hrest⟩, fun hfinal => ?_⟩
  have hsum := hall hfinal
  refine ⟨?_, hsum⟩
  rw [hsum, sub_self, nonzeroParts_zero, List.append_nil] at hrest
  exact hrest

/-- Seven in three slices. -/
def sevenConfig : AlgoConfig Unit where
  workerIndex := 7
  slices := 3

def sevenParent : ParentOrder where
  instrument := 3
  qty := 7
  endAt := 10
  limit := 5

/-- The first slice fills in part, and then two boundaries are due at once. -/
theorem twap_slices_even_seven :
    ((algoMachine (A := TwapAlgo) acceptingEnv 0 7).trace
      (fun s op => op.sends acceptingEnv s)
      ⟨.init ⟨4, by decide⟩, (), TwapAlgo.start { config := sevenConfig } sevenParent⟩
      [.timer 0, .oms (.fill 1 2 5 9 0), .timer 9]).map Prod.snd = [3, 2, 2] := by
  have hall := twap_slices_even acceptingEnv sevenConfig sevenParent (by decide) ⟨4, by decide⟩ ()
    [.timer 0, .oms (.fill 1 2 5 9 0), .timer 9]
  refine ((hall ⟨?_, smooth_fill, ?_, trivial⟩).2 (Or.inl (by decide))).1
  · exact smooth_timer (by decide) (by decide)
  · exact smooth_timer (by decide) (by decide)

end Oms
