import Oms.ExecutionAlgo.Dispatcher
import Oms.ExecutionAlgo.Children
import Oms.Reconciliation.Cycle

/-!
# Fills reach the algo that owns the order

An algo counts the fills of every order whose scratch field holds its index, and a field that nobody
wrote holds `0`.

* `AlgoBase.Trades`: an algo submits under its own pair, and does not change what it filled;
* `Algo.Reports`: the pair of an algo and the filled quantity that it reports;
* `Desk.Counted`, `filled_eq_executed`: in every run an algo reports what the orders whose field
  holds its index have filled;
* `Owns`: the marks of each working order match the registration of its owner, and no other;
* `Desk.Balanced`, `balanced_step`: these orders are the ones that the algo submitted;
* `filled_eq_own`: so an algo reports what its own orders filled, along every run that opens no
  order with the marks of another algo;
* `admits_of_tagged`: no run does, when each algo has a pair of its own and no index is `0`.
-/

namespace Oms

open OrderManager

/-! ### Calls of an algo -/

/-- Only requests with one pair are submitted, and no order is reached. -/
def under (pair : ScratchOffset × ℤ) : Policy where
  request := fun req => req.tag = pair
  addresses := fun _ _ => False

/-- The pair that an algo marks its children with. -/
def AlgoBase.pair {W : Type} (a : AlgoBase W) : ScratchOffset × ℤ :=
  (a.config.workerOffset, a.config.workerIndex)

/-- An algo submitted children under its pair, and filled nothing. -/
structure AlgoBase.Trades {W : Type} (a : AlgoBase W) (s : State W) (a' : AlgoBase W)
    (s' : State W) : Prop where
  turns : Turns (under a.pair) s.om s'.om
  pair : a'.pair = a.pair
  filled : a'.filled = a.filled
  reported : a'.stats.filledQty = a.stats.filledQty

section Trades

variable {W : Type} {E : Env W} {a a₁ a₂ : AlgoBase W} {s s₁ s₂ : State W}

theorem AlgoBase.Trades.trans (h : a.Trades s a₁ s₁) (h' : a₁.Trades s₁ a₂ s₂) :
    a.Trades s a₂ s₂ where
  turns := h.turns.trans (h.pair ▸ h'.turns)
  pair := h'.pair.trans h.pair
  filled := h'.filled.trans h.filled
  reported := h'.reported.trans h.reported

/-- Calls that submit nothing. -/
theorem trades_of_turns (hturns : ∀ P, Turns P s.om s₁.om) : a.Trades s a s₁ :=
  ⟨hturns _, rfl, rfl, rfl⟩

theorem sendChild_trades (qty : Quantity) (price : Price) (type : OrderType) :
    a.Trades s (a.sendChild E qty price type s).2.1 (a.sendChild E qty price type s).2.2 := by
  have hsubmit : Turns (under a.pair) s.om (s.submit E (a.childRequest qty price type)).2.om :=
    submit_turns trivial rfl
  unfold AlgoBase.sendChild
  split_ifs
  · exact ⟨.refl, rfl, rfl, rfl⟩
  dsimp only
  split_ifs
  · exact ⟨hsubmit, rfl, rfl, rfl⟩
  · exact ⟨hsubmit, rfl, rfl, rfl⟩

theorem cancelChildren_turns (P : Policy) : Turns P s.om (a.cancel E s).om :=
  foldl_turns (fun s id => cancel_turns id s) _ s

end Trades

namespace TwapAlgo

variable {W : Type} {E : Env W} {a : TwapAlgo W} {s : State W} {now : Timestamp}

theorem fireSlice_trades :
    a.toAlgoBase.Trades s (a.fireSlice E s).2.1.toAlgoBase (a.fireSlice E s).2.2 := by
  unfold fireSlice
  dsimp only
  split_ifs
  · exact trades_of_turns fun _ => .refl
  · exact sendChild_trades _ _ _

theorem fireSlices_trades (rounds : ℕ) (a : TwapAlgo W) (s : State W) :
    a.toAlgoBase.Trades s (a.fireSlices E now rounds s).1.toAlgoBase
      (a.fireSlices E now rounds s).2 := by
  induction rounds generalizing a s with
  | zero => exact trades_of_turns fun _ => .refl
  | succ rounds ih =>
    rw [fireSlices]
    split_ifs
    · exact fireSlice_trades.trans (ih _ _)
    · exact trades_of_turns fun _ => .refl

theorem deadlineCross_trades :
    a.toAlgoBase.Trades s (a.deadlineCross E s).1.toAlgoBase (a.deadlineCross E s).2 := by
  have hcancel : a.toAlgoBase.Trades s a.toAlgoBase (a.cancel E s) :=
    trades_of_turns fun P => cancelChildren_turns P
  unfold deadlineCross
  dsimp only
  split_ifs
  · exact trades_of_turns fun _ => .refl
  · have hlog : a.toAlgoBase.Trades s a.toAlgoBase { a.cancel E s with
        world := a.config.log .Warn
          ("TWAP deadline: crossing residual=" ++ toString (a.parent.qty - a.filled - a.inflight))
          (a.cancel E s).world } := ⟨hcancel.turns, rfl, rfl, rfl⟩
    exact hlog.trans (sendChild_trades _ _ _)
  · exact hcancel

theorem settleDeadline_trades : a.toAlgoBase.Trades s a.settleDeadline.toAlgoBase s := by
  unfold settleDeadline
  by_cases hzero : a.inflight = 0
  · rw [if_pos hzero]
    exact ⟨.refl, rfl, rfl, rfl⟩
  · rw [if_neg hzero]
    exact ⟨.refl, rfl, rfl, rfl⟩

theorem onTimer_trades :
    a.toAlgoBase.Trades s (a.onTimer E now s).1.toAlgoBase (a.onTimer E now s).2 := by
  unfold onTimer
  split_ifs
  · exact trades_of_turns fun _ => .refl
  · exact deadlineCross_trades.trans settleDeadline_trades
  · have hslices : a.toAlgoBase.Trades s _ (a.fireSlices E now (a.n - a.slicesDone) s).2 :=
      fireSlices_trades _ a s
    exact ⟨hslices.turns, hslices.pair, hslices.filled, hslices.reported⟩

end TwapAlgo

namespace PovAlgo

variable {W : Type} {E : Env W} {a : PovAlgo W} {s : State W} {now : Timestamp} {t : TwapAlgo W}

/-- The TWAP that POV degraded to has the pair of POV. -/
def HeldPair (a : PovAlgo W) : Prop := ∀ t, a.twap = some t → t.pair = a.pair

/-- A call of POV, or of the TWAP it holds. -/
def Trades (a : PovAlgo W) (s : State W) (a' : PovAlgo W) (s' : State W) : Prop :=
  a.HeldPair → a.toAlgoBase.Trades s a'.toAlgoBase s' ∧ a'.HeldPair

theorem Trades.trans {a₁ a₂ : PovAlgo W} {s₁ s₂ : State W} (h : a.Trades s a₁ s₁)
    (h' : a₁.Trades s₁ a₂ s₂) : a.Trades s a₂ s₂ := by
  intro hheld
  obtain ⟨hbase, hheld₁⟩ := h hheld
  obtain ⟨hbase', hheld₂⟩ := h' hheld₁
  exact ⟨hbase.trans hbase', hheld₂⟩

/-- Only the bookkeeping of POV itself changes. -/
theorem trades_of_same {a' : PovAlgo W} {s' : State W} (hturns : ∀ P, Turns P s.om s'.om)
    (hconfig : a'.config = a.config) (hfilled : a'.filled = a.filled)
    (hreported : a'.stats.filledQty = a.stats.filledQty) (htwap : a'.twap = a.twap) :
    a.Trades s a' s' := by
  have hpair : a'.pair = a.pair := by rw [AlgoBase.pair, hconfig, AlgoBase.pair]
  refine fun hheld => ⟨⟨hturns _, hpair, hfilled, hreported⟩, fun t ht => ?_⟩
  rw [hpair]
  exact hheld t (htwap ▸ ht)

theorem cancel_turns (P : Policy) : Turns P s.om (a.cancel E s).om := by
  unfold cancel
  cases a.held with
  | none => exact cancelChildren_turns P
  | some t => exact (cancelChildren_turns P).trans (cancelChildren_turns P)

theorem send_trades (qty : Quantity) (price : Price) (type : OrderType) :
    a.Trades s { a with toAlgoBase := (a.sendChild E qty price type s).2.1 }
      (a.sendChild E qty price type s).2.2 := by
  have hsend : a.toAlgoBase.Trades s _ (a.sendChild E qty price type s).2.2 :=
    sendChild_trades qty price type
  exact fun hheld => ⟨hsend, fun t ht => (hheld t ht).trans hsend.pair.symm⟩

theorem held_twap (h : a.held = some t) : a.twap = some t := by
  unfold held at h
  split_ifs at h
  exact h

/-- The timer of the held TWAP runs. -/
theorem twapTimer_trades (ht : a.twap = some t) :
    a.Trades s { a with twap := some (t.onTimer E now s).1 } (t.onTimer E now s).2 := by
  intro hheld
  have htimer : t.toAlgoBase.Trades s _ (t.onTimer E now s).2 := TwapAlgo.onTimer_trades
  have hpair := hheld t ht
  refine ⟨⟨hpair ▸ htimer.turns, rfl, rfl, rfl⟩, ?_⟩
  rintro t' ⟨⟩
  exact htimer.pair.trans hpair

theorem deadlineCross_trades :
    a.Trades s (a.deadlineCross E now s).1 (a.deadlineCross E now s).2 := by
  unfold deadlineCross
  dsimp only
  by_cases hcrossed : a.deadlineDone = true
  · rw [if_pos hcrossed]
    exact trades_of_same (fun _ => .refl) rfl rfl rfl rfl
  rw [if_neg hcrossed]
  have hmark : a.Trades s { a with deadlineDone := true } s :=
    trades_of_same (fun _ => .refl) rfl rfl rfl rfl
  cases hheld : ({ a with deadlineDone := true } : PovAlgo W).held with
  | some t => exact hmark.trans (twapTimer_trades (held_twap hheld))
  | none =>
    have hcancel : a.Trades s { a with deadlineDone := true }
        (({ a with deadlineDone := true } : PovAlgo W).cancel E s) :=
      trades_of_same (fun P => cancel_turns P) rfl rfl rfl rfl
    dsimp only
    split_ifs
    · refine hcancel.trans (.trans ?_ (send_trades _ _ _))
      exact trades_of_same (fun _ => .refl) rfl rfl rfl rfl
    · exact hcancel

theorem settleDeadline_trades : a.Trades s a.settleDeadline s := by
  unfold settleDeadline
  by_cases hzero : a.inflight = 0
  · rw [if_pos hzero]
    exact trades_of_same (fun _ => .refl) rfl rfl rfl rfl
  · rw [if_neg hzero]
    exact trades_of_same (fun _ => .refl) rfl rfl rfl rfl

/-- The TWAP starts with the configuration of POV. -/
theorem degradeToTwap_trades :
    a.Trades s (a.degradeToTwap now s).1 (a.degradeToTwap now s).2 := by
  refine fun _ => ⟨⟨.refl, rfl, rfl, rfl⟩, ?_⟩
  rintro t ⟨⟩
  rfl

theorem react_trades (vol : Quantity) :
    a.Trades s (a.react E now vol s).1 (a.react E now vol s).2 := by
  unfold react
  dsimp only
  split_ifs
  · exact trades_of_same (fun _ => .refl) rfl rfl rfl rfl
  · exact degradeToTwap_trades.trans (twapTimer_trades rfl)
  · exact trades_of_same (fun _ => .refl) rfl rfl rfl rfl
  · exact send_trades _ _ _
  · exact trades_of_same (fun _ => .refl) rfl rfl rfl rfl
  · exact send_trades _ _ _

theorem onTimer_trades : a.Trades s (a.onTimer E now s).1 (a.onTimer E now s).2 := by
  unfold onTimer
  split_ifs
  · exact trades_of_same (fun _ => .refl) rfl rfl rfl rfl
  · exact deadlineCross_trades.trans settleDeadline_trades
  · cases hheld : a.held with
    | some t =>
      have htwap : a.Trades s { a with twap := some (t.onTimer E now s).1 } (t.onTimer E now s).2 :=
        twapTimer_trades (held_twap hheld)
      exact htwap.trans (trades_of_same (fun _ => .refl) rfl rfl rfl rfl)
    | none =>
      have hobserve : a.Trades s (a.observe now (a.observedVolume s.world)) s :=
        trades_of_same (fun _ => .refl) rfl rfl rfl rfl
      exact hobserve.trans (react_trades _)

end PovAlgo

/-! ### What an algo reports -/

namespace Algo

variable {W : Type}

/-- The TWAP that a POV degraded to. -/
def held : Algo W → Option (TwapAlgo W)
  | .twap _ => none
  | .pov a => a.twap

/-- The algo marks its children with the pair `p`, and reports `q` as filled. -/
structure Reports (a : Algo W) (p : ScratchOffset × ℤ) (q : Quantity) : Prop where
  pair : a.base.pair = p
  held : ∀ t, a.held = some t → t.pair = p
  filled : a.base.filled = q
  reported : a.stats.filledQty = q

section Reports

variable {E : Env W} {a : Algo W} {p : ScratchOffset × ℤ} {q qty : Quantity} {o : Order}

theorem twap_held {a : TwapAlgo W} : ∀ t, (Algo.twap a).held = some t → t.pair = p := by
  intro t ht
  cases ht

theorem reports_create (type : String) (cfg : AlgoConfig W) :
    (AlgoFactory.create type cfg).Reports (cfg.workerOffset, cfg.workerIndex) 0 := by
  unfold AlgoFactory.create
  split_ifs
  · exact ⟨rfl, twap_held, rfl, rfl⟩
  · refine ⟨rfl, fun t ht => ?_, rfl, rfl⟩
    cases ht
  · exact ⟨rfl, twap_held, rfl, rfl⟩

theorem Reports.start (h : a.Reports p q) (parent : ParentOrder) :
    (a.start parent).Reports p q := by
  cases a with
  | twap a => exact ⟨h.pair, h.held, h.filled, h.reported⟩
  | pov a => exact ⟨h.pair, h.held, h.filled, h.reported⟩

/-- A timer call submits under the pair of the algo, and fills nothing. -/
theorem Reports.onTimer (h : a.Reports p q) (now : Timestamp) (s : State W) :
    Turns (under p) s.om (a.onTimer E now s).2.om ∧ (a.onTimer E now s).1.Reports p q := by
  cases a with
  | twap a =>
    have htimer : a.toAlgoBase.Trades s _ (a.onTimer E now s).2 := TwapAlgo.onTimer_trades
    exact ⟨h.pair ▸ htimer.turns, htimer.pair.trans h.pair, twap_held, htimer.filled.trans h.filled,
      htimer.reported.trans h.reported⟩
  | pov a =>
    have hheld : a.HeldPair := fun t ht => (h.held t ht).trans h.pair.symm
    have htimer : a.Trades s _ (a.onTimer E now s).2 := PovAlgo.onTimer_trades
    obtain ⟨hbase, hheld'⟩ := htimer hheld
    have hpair := hbase.pair.trans h.pair
    exact ⟨h.pair ▸ hbase.turns, hpair, fun t ht => (hheld' t ht).trans hpair,
      hbase.filled.trans h.filled, hbase.reported.trans h.reported⟩

theorem cancel_turns (a : Algo W) (s : State W) (P : Policy) :
    Turns P s.om (a.cancel E s).om := by
  cases a with
  | twap a => exact cancelChildren_turns P
  | pov a => exact PovAlgo.cancel_turns P

/-- What is forwarded to the held TWAP leaves its pair alone. -/
theorem Reports.forward {a : PovAlgo W} (h : (Algo.pov a).Reports p q)
    {f : TwapAlgo W → TwapAlgo W} (hf : ∀ t, (f t).pair = t.pair) :
    ∀ t, a.forward o f = some t → t.pair = p := by
  intro t' ht'
  unfold PovAlgo.forward at ht'
  split_ifs at ht'
  · exact h.held t' ht'
  · obtain ⟨t, ht, rfl⟩ := Option.map_eq_some_iff.1 ht'
    exact (hf t).trans (h.held t ht)
  · exact h.held t' ht'

/-- A fill counts, whatever order it is of. -/
theorem Reports.onFill (h : a.Reports p q) (qty : Quantity) (price : Price) :
    (a.onFill o qty price).Reports p (q + qty) := by
  cases a with
  | twap a => exact ⟨h.pair, twap_held, congrArg (· + qty) h.filled, congrArg (· + qty) h.filled⟩
  | pov a =>
    exact ⟨h.pair, h.forward fun _ => rfl, congrArg (· + qty) h.filled,
      congrArg (· + qty) h.filled⟩

/-- The other events fill nothing. -/
theorem Reports.notify (h : a.Reports p q) {e : OrderEvent}
    (hkind : e.kind ≠ .Fill ∧ e.kind ≠ .PartialFill) (offset : ScratchOffset) (index : ℤ) :
    (AlgoDispatcher.notify offset index o e a).Reports p q := by
  have hdrop : ∀ {a' : Algo W}, a'.base.config = a.base.config → a'.base.filled = a.base.filled →
      a'.stats = a.stats → (∀ t, a'.held = some t → t.pair = p) → a'.Reports p q := by
    intro a' hconfig hfilled hstats hheld
    refine ⟨?_, hheld, hfilled.trans h.filled, hstats ▸ h.reported⟩
    rw [AlgoBase.pair, hconfig]
    exact h.pair
  unfold AlgoDispatcher.notify
  split_ifs
  · exact h
  · cases hevent : e.kind with
    | Fill => exact absurd hevent hkind.1
    | PartialFill => exact absurd hevent hkind.2
    | Confirmed => exact h
    | Rejected =>
      cases a with
      | twap a => exact hdrop rfl rfl rfl twap_held
      | pov a => exact hdrop rfl rfl rfl (h.forward fun _ => rfl)
    | Cancelled | UnsolicitedCancel =>
      cases a with
      | twap a => exact hdrop rfl rfl rfl twap_held
      | pov a => exact hdrop rfl rfl rfl (h.forward fun _ => rfl)

end Reports

end Algo

/-! ### Owners -/

section Owners

variable {B : Type} {om om' : OrderManager} {regs regs' : List (AlgoDispatcher.Reg B)} {l : Ledger}

/-- The marks of each working order match the registration of its owner, and no other. -/
def Owns (l : Ledger) (om : OrderManager) (regs : List (AlgoDispatcher.Reg B)) : Prop :=
  ∀ id f, om.marks id = some f → ∀ (i : ℕ) (r : AlgoDispatcher.Reg B), regs[i]? = some r →
    (f r.offset = r.index ↔ l.owner id = some i)

/-- The pairs that the algos are registered under. -/
def pairs (regs : List (AlgoDispatcher.Reg B)) : List (ScratchOffset × ℤ) :=
  regs.map fun r => (r.offset, r.index)

theorem pairs_set {i : ℕ} {r : AlgoDispatcher.Reg B} (hi : regs[i]? = some r) (a : Algo B) :
    pairs (regs.set i { r with algo := a }) = pairs regs := by
  apply List.ext_getElem?
  intro j
  simp only [pairs, List.getElem?_map, List.getElem?_set]
  split_ifs with hij hlt
  · subst hij
    simp [hi]
  · subst hij
    simp [List.getElem?_eq_none (not_lt.1 hlt)]
  · rfl

theorem pairs_modify (i : ℕ) (f : AlgoDispatcher.Reg B → Algo B) :
    pairs (regs.modify i fun r => { r with algo := f r }) = pairs regs := by
  apply List.ext_getElem?
  intro j
  simp only [pairs, List.getElem?_map, List.getElem?_modify]
  cases regs[j]? with
  | none => rfl
  | some r =>
    dsimp only [Option.map_some]
    split_ifs
    · rfl
    · rfl

theorem pairs_dispatch (e : OrderEvent) (om : OrderManager) :
    pairs (AlgoDispatcher.dispatch e om regs) = pairs regs := by
  unfold AlgoDispatcher.dispatch
  cases om.find e.internalId with
  | none => rfl
  | some o => simp [pairs]

theorem getElem?_pairs {i : ℕ} {r : AlgoDispatcher.Reg B} (hi : regs[i]? = some r) :
    (pairs regs)[i]? = some (r.offset, r.index) := by
  rw [pairs, List.getElem?_map, hi, Option.map_some]

theorem Owns.same (h : Owns l om regs) (hsame : pairs regs' = pairs regs) : Owns l om regs' := by
  intro id f hf i r' hr'
  have hpair : (pairs regs)[i]? = some (r'.offset, r'.index) := hsame ▸ getElem?_pairs hr'
  rw [pairs, List.getElem?_map] at hpair
  obtain ⟨r, hr, heq⟩ := Option.map_eq_some_iff.1 hpair
  obtain ⟨hoffset, hindex⟩ := Prod.mk.inj heq
  rw [← hoffset, ← hindex]
  exact h id f hf i r hr

/-- **Turns** that reach no order, or submit none, keep the marks with the owners, when the orders
they open match exactly the registration of `actor`. -/
theorem Owns.assign {P : Policy} {actor : Option ℕ} (h : Owns l om regs) (hreg : om.Regular)
    (hturns : Turns P om om') (hP : (∀ i j, ¬ P.addresses i j) ∨ ∀ req, ¬ P.request req)
    (hmatch : (∃ id, om'.Works id ∧ ¬ om.Works id) → ∀ req, P.request req →
      ∀ i r, regs[i]? = some r → (scratch req.tag r.offset = r.index ↔ actor = some i)) :
    Owns (l.assign actor om om') om' regs := by
  intro id f hf i r hr
  have hworks' : om'.Works id := works_iff_marks.2 ⟨f, hf⟩
  have hold : om.marks id = some f →
      (f r.offset = r.index ↔ (l.assign actor om om').owner id = some i) := by
    intro hmarks
    have hworks : om.Works id := works_iff_marks.2 ⟨f, hmarks⟩
    have howner : (l.assign actor om om').owner id = l.owner id := if_neg fun h => h.2 hworks
    rw [howner]
    exact h id f hmarks i r hr
  -- an order with marks that were there before has its owner; any other was just submitted
  rcases hturns.marks_new hreg hf with hmarks | ⟨req, hreq, rfl⟩
  · exact hold hmarks
  · have hkept := hP.resolve_right fun h => h req hreq
    by_cases hworks : om.Works id
    · -- an order that worked before has kept its marks
      obtain ⟨g, hg⟩ := works_iff_marks.1 hworks
      have hsame := hturns.marks_kept hreg hkept hg
      rw [hf] at hsame
      exact hold (hsame ▸ hg)
    · have howner : (l.assign actor om om').owner id = actor := if_pos ⟨hworks', hworks⟩
      rw [howner]
      exact hmatch ⟨id, hworks', hworks⟩ req hreq i r hr

end Owners

/-! ### What the algos hear -/

section Dispatch

variable {B : Type} {E : Env B} {regs : List (AlgoDispatcher.Reg B)} {i : ℕ}
  {r r' : AlgoDispatcher.Reg B} {s : State (B × List (AlgoDispatcher.Reg B))} {op : Op}

/-- An event that is dispatched, at one registration. -/
theorem dispatch_getElem? (e : OrderEvent) (om : OrderManager) :
    (AlgoDispatcher.dispatch e om regs)[i]? = (regs[i]?).map fun r =>
      { r with algo := AlgoDispatcher.onOrderEvent r.offset r.index e om r.algo } := by
  unfold AlgoDispatcher.dispatch AlgoDispatcher.onOrderEvent
  cases om.find e.internalId with
  | none => simp
  | some o => simp

/-- **Each algo hears what it would hear alone.** -/
theorem step_dispatch (hr' : (s.step E.withDispatcher op).world.2[i]? = some r') :
    ∃ r, s.world.2[i]? = some r ∧ r' = { r with
      algo := heardOf (AlgoDispatcher.onOrderEvent r.offset r.index) r.algo
        (announced s.om op) } := by
  have hheard : (s.step E.withDispatcher op).world.2 =
      heardOf AlgoDispatcher.dispatch s.world.2 (announced s.om op) := step_listening op
  rw [hheard] at hr'
  cases hann : announced s.om op with
  | none =>
    rw [hann] at hr'
    exact ⟨r', hr', rfl⟩
  | some x =>
    rw [hann] at hr'
    change (AlgoDispatcher.dispatch x.1 x.2 s.world.2)[i]? = some r' at hr'
    rw [dispatch_getElem?] at hr'
    obtain ⟨r, hr, rfl⟩ := Option.map_eq_some_iff.1 hr'
    exact ⟨r, hr, rfl⟩

/-- Only an accepted fill is announced as a fill. -/
theorem announced_kind {om : OrderManager} {x : OrderEvent × OrderManager}
    (hx : announced om op = some x) (hno : NoFill om op) :
    x.1.kind ≠ .Fill ∧ x.1.kind ≠ .PartialFill := by
  cases op with
  | fill id qty price trade ts =>
    rw [announced, if_neg (hno id qty price trade ts rfl)] at hx
    cases hx
  | confirm | reject | cancelAck | unsolicitedCancel =>
    unfold announced at hx
    dsimp only at hx
    split_ifs at hx
    cases hx
    exact ⟨by simp [OrderManager.announce], by simp [OrderManager.announce]⟩
  | _ => cases hx

/-- What is not an accepted fill leaves the reports of the algos alone. -/
theorem Algo.Reports.heard {a : Algo B} {p : ScratchOffset × ℤ} {q : Quantity} (h : a.Reports p q)
    {om : OrderManager} (hno : NoFill om op) (offset : ScratchOffset) (index : ℤ) :
    (heardOf (AlgoDispatcher.onOrderEvent offset index) a (announced om op)).Reports p q := by
  cases hann : announced om op with
  | none => exact h
  | some x =>
    show (AlgoDispatcher.onOrderEvent offset index x.1 x.2 a).Reports p q
    unfold AlgoDispatcher.onOrderEvent
    cases x.2.find x.1.internalId with
    | none => exact h
    | some o => exact h.notify (announced_kind hann hno) offset index

end Dispatch

/-! ### The ledger -/

section Ledger

variable {l : Ledger} {om : OrderManager} {id : OrderIdRaw} {qty : Quantity} {price : Price}
  {trade : TradeId} {ts : Timestamp}

@[simp] theorem credit_owner (op : Op) : (l.credit om op).owner = l.owner := by
  unfold Ledger.credit
  cases op with
  | fill id qty price trade ts =>
    dsimp only
    split_ifs
    · split <;> rfl
    · rfl
  | _ => rfl

/-- The owner of the order is credited, and nobody else. -/
theorem credit_filled (hok : om.validate id ⟨.Fill, trade, qty, price⟩ = .Ok) (i : ℕ) :
    (l.credit om (.fill id qty price trade ts)).filled i =
      l.filled i + if l.owner (om.orderRef id).internalId = some i then qty else 0 := by
  unfold Ledger.credit
  dsimp only
  rw [if_pos hok]
  cases howner : l.owner (om.orderRef id).internalId with
  | none => simp
  | some j =>
    by_cases hij : i = j
    · subst hij
      simp
    · simp [hij, Ne.symm hij]

theorem credit_of_noFill {op : Op} (hno : NoFill om op) : l.credit om op = l := by
  cases op with
  | fill id qty price trade ts => exact if_neg (hno id qty price trade ts rfl)
  | _ => rfl

end Ledger

/-! ### The desk -/

namespace Desk

/-- Every algo reports what the orders have filled whose field holds its index, whoever submitted
them. -/
def Counted {B : Type} (om : OrderManager) (regs : List (AlgoDispatcher.Reg B)) : Prop :=
  ∀ (i : ℕ) (r : AlgoDispatcher.Reg B), regs[i]? = some r →
    r.algo.Reports (r.offset, r.index) (om.executed r.offset r.index)

/-- These orders are the ones that the algo submitted. -/
structure Balanced {B : Type} (d : Desk B) : Prop where
  regular : d.om.Regular
  counted : Counted d.om d.regs
  owns : Owns d.ledger d.om d.regs
  credited : ∀ pair (i : ℕ), (pairs d.regs)[i]? = some pair →
    d.ledger.filled i = d.om.executed pair.1 pair.2

section Step

variable {B : Type} {E : Env B} {d : Desk B}

/-- No operation registers an algo, or takes a registration back. -/
theorem step_pairs (op : DeskOp B) : pairs (d.step E op).regs = pairs d.regs := by
  cases op with
  | oms op =>
    have hheard : (d.step E (.oms op)).regs =
        heardOf AlgoDispatcher.dispatch d.regs (announced d.om op) :=
      step_listening (s := ⟨d.om, d.world, d.regs⟩) op
    rw [hheard]
    cases announced d.om op with
    | none => rfl
    | some x => exact pairs_dispatch x.1 x.2
  | start i p => exact pairs_modify i fun r => r.algo.start p
  | timer i now =>
    cases hi : d.regs[i]? with
    | none => simp only [step, hi]
    | some r =>
      simp only [step, hi]
      exact pairs_set hi _
  | cancel i =>
    cases hi : d.regs[i]? with
    | none => simp only [step, hi]
    | some r =>
      simp only [step, hi]
      rfl
  | reconcile now => rfl
  | rearm => rfl
  | world w => rfl

/-- What an operation may do to the manager: its requests carry its pair, and what reaches an order
is an event, which submits nothing. -/
structure Within (d : Desk B) (op : DeskOp B) (P : Policy) : Prop where
  tagged : ∀ req, P.request req → req.tag ∈ d.tag op
  apart : (∀ i j, ¬ P.addresses i j) ∨ (∃ o, op = .oms o) ∧ ∀ req, ¬ P.request req

theorem oms_turns (op : Op) : ∃ P : Policy, d.Within (.oms op) P ∧
    Turns P d.om (d.step E (.oms op)).om := by
  let P : Policy := { request := fun req => op = .submit req
                      addresses := fun _ _ => op.inboundId ≠ none }
  let s : State (B × List (AlgoDispatcher.Reg B)) := ⟨d.om, d.world, d.regs⟩
  have hallows : P.Allows s op := by
    refine ⟨fun req heq => ⟨trivial, heq⟩, fun id hid => ⟨trivial, fun _ => ?_⟩⟩
    show op.inboundId ≠ none
    rw [hid]
    exact Option.some_ne_none id
  refine ⟨P, ⟨fun req hreq => ?_, ?_⟩, step_turns hallows⟩
  · rw [show op = .submit req from hreq]
    rfl
  · cases hinbound : op.inboundId with
    | none => exact Or.inl fun _ _ hnot => hnot hinbound
    | some id =>
      refine Or.inr ⟨⟨op, rfl⟩, fun req hreq => ?_⟩
      rw [show op = .submit req from hreq] at hinbound
      cases hinbound

/-- **Every operation is a chain of turns.** -/
theorem desk_turns (h : Counted d.om d.regs) (op : DeskOp B) : ∃ P : Policy, d.Within op P ∧
    Turns P d.om (d.step E op).om := by
  let silent : Policy := { request := fun _ => False, addresses := fun _ _ => False }
  have hsilent : d.Within op silent := ⟨fun _ => False.elim, Or.inl fun _ _ => id⟩
  cases op with
  | oms op => exact oms_turns op
  | timer i now =>
    cases hi : d.regs[i]? with
    | none =>
      refine ⟨silent, hsilent, ?_⟩
      simp only [step, hi]
      exact .refl
    | some r =>
      have hturns := ((h i r hi).onTimer (E := E) now ⟨d.om, d.world⟩).1
      refine ⟨under (r.offset, r.index), ⟨fun req hreq => ?_, Or.inl fun _ _ => id⟩, ?_⟩
      · rw [show req.tag = (r.offset, r.index) from hreq]
        simp [tag, hi]
      · simp only [step, hi]
        exact hturns
  | cancel i =>
    refine ⟨silent, hsilent, ?_⟩
    cases hi : d.regs[i]? with
    | none =>
      simp only [step, hi]
      exact .refl
    | some r =>
      simp only [step, hi]
      exact r.algo.cancel_turns ⟨d.om, d.world⟩ silent
  | reconcile now =>
    refine ⟨under (0, 0), ⟨fun req hreq => ?_, Or.inl fun _ _ => id⟩, ?_⟩
    · rw [show req.tag = (0, 0) from hreq]
      rfl
    · -- the corrective orders carry no pair
      exact PeriodicReconciler.reconcile_turns (s := ⟨d.om, d.world⟩) trivial fun _ _ _ => rfl
  | start i p => exact ⟨silent, hsilent, .refl⟩
  | rearm => exact ⟨silent, hsilent, .refl⟩
  | world w => exact ⟨silent, hsilent, .refl⟩

/-- A call of a component fills nothing. -/
theorem call_executed (hreg : d.om.Regular) (h : Counted d.om d.regs) {op : DeskOp B}
    (hcall : ∀ o, op ≠ .oms o) (offset : ScratchOffset) (index : ℤ) :
    (d.step E op).om.executed offset index = d.om.executed offset index := by
  obtain ⟨P, ⟨-, hP | ⟨⟨o, rfl⟩, -⟩⟩, hturns⟩ := desk_turns (E := E) h op
  · exact hturns.executed_kept hreg hP
  · exact absurd rfl (hcall o)

theorem regular_step (hreg : d.om.Regular) (h : Counted d.om d.regs) (op : DeskOp B) :
    (d.step E op).om.Regular := by
  obtain ⟨P, -, hturns⟩ := desk_turns (E := E) h op
  exact hreg.chain (hturns.chain hreg.wf)

/-! ### What the algos report -/

theorem counted_init (capacity : PoolCapacity) (w : B) (recon : PeriodicReconciler B)
    (specs : List (String × AlgoConfig B)) :
    Counted (Desk.init capacity w recon specs).om (Desk.init capacity w recon specs).regs := by
  intro i r hr
  change (specs.map _)[i]? = some r at hr
  rw [List.getElem?_map] at hr
  obtain ⟨spec, -, rfl⟩ := Option.map_eq_some_iff.1 hr
  have hzero : (OrderManager.init capacity).executed spec.2.workerOffset spec.2.workerIndex = 0 :=
    OrderPool.everSum_init _ capacity
  show Algo.Reports _ _ ((OrderManager.init capacity).executed _ _)
  rw [hzero]
  exact Algo.reports_create spec.1 spec.2

/-- The algos hear of a fill by the field that it counts for. -/
theorem counted_oms (hreg : d.om.Regular) (h : Counted d.om d.regs) (op : Op) :
    Counted (d.step E (.oms op)).om (d.step E (.oms op)).regs := by
  let s : State (B × List (AlgoDispatcher.Reg B)) := ⟨d.om, d.world, d.regs⟩
  intro i r' hr'
  obtain ⟨r, hr, rfl⟩ := step_dispatch (s := s) hr'
  have hreports := h i r hr
  show (heardOf (AlgoDispatcher.onOrderEvent r.offset r.index) r.algo
    (announced d.om op)).Reports (r.offset, r.index)
      ((s.step E.withDispatcher op).om.executed r.offset r.index)
  rcases noFill_or d.om op with hno | ⟨id, qty, price, trade, ts, rfl, hok⟩
  · rw [step_executed (s := s) hreg hno]
    exact hreports.heard hno _ _
  · have hexecuted : (s.step E.withDispatcher (.fill id qty price trade ts)).om.executed r.offset
        r.index = _ := onFill_executed (s := s) hreg ts hok
    rw [hexecuted, heardOf_fill hok]
    by_cases hown : (d.om.orderRef id).retrieveIntData r.offset = r.index
    · rw [if_pos hown, if_pos hown]
      exact hreports.onFill qty price
    · rw [if_neg hown, if_neg hown, add_zero]
      exact hreports

/-- A call fills nothing, so the reports need not change. -/
theorem Counted.call (hreg : d.om.Regular) (h : Counted d.om d.regs) {op : DeskOp B}
    (hcall : ∀ o, op ≠ .oms o) (hregs : Counted d.om (d.step E op).regs) :
    Counted (d.step E op).om (d.step E op).regs := by
  intro i r hr
  rw [call_executed hreg h hcall]
  exact hregs i r hr

/-- **Every operation** leaves each algo with a report of what the orders whose field holds its
index have filled. -/
theorem counted_step (hreg : d.om.Regular) (h : Counted d.om d.regs) (op : DeskOp B) :
    Counted (d.step E op).om (d.step E op).regs := by
  cases op with
  | oms op => exact counted_oms hreg h op
  | start i p =>
    intro j r' hr'
    change (d.regs.modify i _)[j]? = some r' at hr'
    rw [List.getElem?_modify] at hr'
    obtain ⟨r, hr, rfl⟩ := Option.map_eq_some_iff.1 hr'
    have hreports := h j r hr
    split_ifs
    · exact hreports.start p
    · exact hreports
  | timer i now =>
    refine Counted.call hreg h (fun _ heq => by cases heq) ?_
    cases hi : d.regs[i]? with
    | none =>
      simp only [step, hi]
      exact h
    | some r =>
      simp only [step, hi]
      intro j r' hr'
      change (d.regs.set i _)[j]? = some r' at hr'
      rw [List.getElem?_set] at hr'
      split_ifs at hr' with hij hlt
      · cases hr'
        exact ((h i r hi).onTimer now ⟨d.om, d.world⟩).2
      · exact h j r' hr'
  | cancel i =>
    refine Counted.call hreg h (fun _ heq => by cases heq) ?_
    cases hi : d.regs[i]? with
    | none =>
      simp only [step, hi]
      exact h
    | some r =>
      simp only [step, hi]
      exact h
  | reconcile now => exact Counted.call hreg h (fun _ heq => by cases heq) h
  | rearm => exact h
  | world w => exact h

/-- **Each algo reports what the orders with its registration filled**, along every run. -/
theorem filled_eq_executed (E : Env B) (capacity : PoolCapacity) (w : B)
    (recon : PeriodicReconciler B) (specs : List (String × AlgoConfig B)) (ops : List (DeskOp B))
    (i : ℕ) (r : AlgoDispatcher.Reg B)
    (hr : ((deskMachine E).run (init capacity w recon specs) ops).regs[i]? = some r) :
    r.algo.stats.filledQty =
      ((deskMachine E).run (init capacity w recon specs) ops).om.executed r.offset r.index := by
  have hrun : ((deskMachine E).run (init capacity w recon specs) ops).om.Regular ∧
      Counted ((deskMachine E).run (init capacity w recon specs) ops).om
        ((deskMachine E).run (init capacity w recon specs) ops).regs :=
    Machine.run_invariant (I := fun d : Desk B => d.om.Regular ∧ Counted d.om d.regs)
      (fun d op h _ => ⟨regular_step h.1 h.2 op, counted_step h.1 h.2 op⟩)
      ⟨regular_init capacity, counted_init capacity w recon specs⟩ (Machine.admits_true _ _ ops)
  exact (hrun.2 i r hr).reported

/-! ### Who submitted these orders -/

theorem balanced_init (capacity : PoolCapacity) (w : B) (recon : PeriodicReconciler B)
    (specs : List (String × AlgoConfig B)) : (Desk.init capacity w recon specs).Balanced where
  regular := regular_init capacity
  counted := counted_init capacity w recon specs
  owns := fun id f hf => by
    have hnone : (Desk.init capacity w recon specs).om.marks id = none :=
      marks_of_not_works (not_works_init capacity id)
    rw [hnone] at hf
    cases hf
  credited := fun _ _ _ => (OrderPool.everSum_init _ capacity).symm

/-- The ledger before the owners of the new orders are entered. -/
def credited (d : Desk B) : DeskOp B → Ledger
  | .oms op => d.ledger.credit d.om op
  | _ => d.ledger

theorem credited_owner (op : DeskOp B) : (d.credited op).owner = d.ledger.owner := by
  cases op with
  | oms op => exact credit_owner op
  | _ => rfl

theorem assign_self (l : Ledger) (actor : Option ℕ) (om : OrderManager) :
    l.assign actor om om = l := by
  unfold Ledger.assign
  simp

theorem step_ledger (op : DeskOp B) :
    (d.step E op).ledger = (d.credited op).assign op.actor d.om (d.step E op).om := by
  cases op with
  | oms op => rfl
  | timer i now =>
    cases hi : d.regs[i]? with
    | none =>
      simp only [step, hi]
      exact (assign_self _ _ _).symm
    | some r =>
      simp only [step, hi]
      rfl
  | cancel i =>
    cases hi : d.regs[i]? with
    | none =>
      simp only [step, hi]
      exact (assign_self _ _ _).symm
    | some r =>
      simp only [step, hi]
      rfl
  | reconcile now => rfl
  | start i p => exact (assign_self _ _ _).symm
  | rearm => exact (assign_self _ _ _).symm
  | world w => exact (assign_self _ _ _).symm

/-- The pair of a call is the one that its algo is registered under. -/
theorem eq_of_actor {op : DeskOp B} {pair : ScratchOffset × ℤ} (hpair : pair ∈ d.tag op) {i : ℕ}
    {r : AlgoDispatcher.Reg B} (hr : d.regs[i]? = some r) (hactor : op.actor = some i) :
    pair = (r.offset, r.index) := by
  cases op with
  | timer j now =>
    obtain ⟨r', hr', rfl⟩ := Option.map_eq_some_iff.1 hpair
    cases hactor
    rw [hr] at hr'
    cases hr'
    rfl
  | cancel j => cases hpair
  | oms op => cases hactor
  | reconcile now => cases hactor
  | start j p => cases hactor
  | rearm => cases hactor
  | world w => cases hactor

/-- An operation that opens no order with the marks of another algo leaves the orders with their
owners. -/
theorem owns_step (h : d.Balanced) {op : DeskOp B} (hop : d.Owned E op) :
    Owns (d.step E op).ledger (d.step E op).om (d.step E op).regs := by
  obtain ⟨P, hwithin, hturns⟩ := desk_turns (E := E) h.counted op
  have howns : Owns (d.credited op) d.om d.regs := by
    intro id f hf i r hr
    rw [credited_owner]
    exact h.owns id f hf i r hr
  rw [step_ledger]
  refine (howns.assign h.regular hturns (hwithin.apart.imp id fun h => h.2) ?_).same (step_pairs op)
  intro hopens req hreq i r hr
  constructor
  · exact hop hopens req.tag (hwithin.tagged req hreq) i r hr
  · intro hactor
    rw [eq_of_actor (hwithin.tagged req hreq) hr hactor]
    exact Function.update_self ..

/-- The owner of an order is credited with its fills. -/
theorem credited_step (h : d.Balanced) (op : DeskOp B) :
    ∀ pair (i : ℕ), (pairs (d.step E op).regs)[i]? = some pair →
      (d.step E op).ledger.filled i = (d.step E op).om.executed pair.1 pair.2 := by
  intro pair i hpair
  rw [step_pairs] at hpair
  rw [step_ledger]
  show (d.credited op).filled i = _
  have hcredited := h.credited pair i hpair
  by_cases hcall : ∀ o, op ≠ .oms o
  · rw [call_executed h.regular h.counted hcall, ← hcredited]
    cases op with
    | oms o => exact absurd rfl (hcall o)
    | _ => rfl
  · push Not at hcall
    obtain ⟨op, rfl⟩ := hcall
    let s : State (B × List (AlgoDispatcher.Reg B)) := ⟨d.om, d.world, d.regs⟩
    show (d.ledger.credit d.om op).filled i =
      (s.step E.withDispatcher op).om.executed pair.1 pair.2
    rcases noFill_or d.om op with hno | ⟨id, qty, price, trade, ts, rfl, hok⟩
    · rw [credit_of_noFill hno, step_executed (s := s) h.regular hno]
      exact hcredited
    · -- the order that the fill reaches works, so its marks name its owner
      obtain ⟨hcur, hopen, -⟩ := validate_fill_ok_iff.1 hok
      have hlive : d.om.Live id := ⟨hcur, hopen⟩
      have hmarks := marks_of_works (h.regular.stamped.works hlive)
      rw [h.regular.stamped.orderRef_internalId hlive] at hmarks
      rw [pairs, List.getElem?_map] at hpair
      obtain ⟨r, hr, rfl⟩ := Option.map_eq_some_iff.1 hpair
      have howner := h.owns _ _ hmarks i r hr
      have hexecuted : (s.step E.withDispatcher (.fill id qty price trade ts)).om.executed
          r.offset r.index = _ := onFill_executed (s := s) h.regular ts hok
      rw [credit_filled hok, hexecuted, hcredited]
      exact congrArg _ (if_congr howner.symm rfl rfl)

theorem balanced_step (h : d.Balanced) {op : DeskOp B} (hop : d.Owned E op) :
    (d.step E op).Balanced :=
  ⟨regular_step h.regular h.counted op, counted_step h.regular h.counted op, owns_step h hop,
    credited_step h op⟩

/-- **Each algo reports what its own orders filled**, along every run that opens no order with the
marks of another algo. -/
theorem filled_eq_own (E : Env B) (capacity : PoolCapacity) (w : B) (recon : PeriodicReconciler B)
    (specs : List (String × AlgoConfig B)) (ops : List (DeskOp B))
    (hops : (deskMachine E).Admits (fun d op => d.Owned E op) (init capacity w recon specs) ops)
    (i : ℕ) (r : AlgoDispatcher.Reg B)
    (hr : ((deskMachine E).run (init capacity w recon specs) ops).regs[i]? = some r) :
    r.algo.stats.filledQty =
      ((deskMachine E).run (init capacity w recon specs) ops).ledger.filled i := by
  have hbalanced : ((deskMachine E).run (init capacity w recon specs) ops).Balanced :=
    Machine.run_invariant (I := Balanced) (fun _ _ h hop => balanced_step h hop)
      (balanced_init capacity w recon specs) hops
  rw [hbalanced.credited _ i (getElem?_pairs hr)]
  exact (hbalanced.counted i r hr).reported

/-! ### Pairs that tell the algos apart -/

/-- Every pair is registered once, and none has the index that an unwritten field holds. -/
structure Tagged (pairs : List (ScratchOffset × ℤ)) : Prop where
  nodup : pairs.Nodup
  written : ∀ pair ∈ pairs, pair.2 ≠ 0

/-- No direct request carries a registered pair. -/
def Direct (pairs : List (ScratchOffset × ℤ)) (ops : List (DeskOp B)) : Prop :=
  ∀ req, .oms (.submit req) ∈ ops → req.tag ∉ pairs

/-- A field that holds an index other than `0` was written. -/
theorem eq_of_scratch {pair : ScratchOffset × ℤ} {offset : ScratchOffset} {index : ℤ}
    (hindex : index ≠ 0) (h : scratch pair offset = index) : pair = (offset, index) := by
  unfold scratch at h
  rw [Function.update_apply] at h
  split_ifs at h with hoffset
  · exact Prod.ext hoffset.symm h
  · exact absurd h.symm hindex

theorem owned_of_tagged {op : DeskOp B} (htagged : Tagged (pairs d.regs))
    (hop : Direct (pairs d.regs) [op]) : d.Owned E op := by
  rintro - pair hpair i r hr hmatch
  have hmem : (r.offset, r.index) ∈ pairs d.regs := List.mem_of_getElem? (getElem?_pairs hr)
  have hwritten : r.index ≠ 0 := htagged.written _ hmem
  have heq : pair = (r.offset, r.index) := eq_of_scratch hwritten hmatch
  cases op with
  | oms op =>
    cases op with
    | submit req =>
      have htag : req.tag = (r.offset, r.index) := (Option.some.inj hpair).trans heq
      exact absurd (htag ▸ hmem) (hop req List.mem_cons_self)
    | _ => cases hpair
  | timer j now =>
    obtain ⟨r', hr', hpair'⟩ := Option.map_eq_some_iff.1 hpair
    have hsame : (pairs d.regs)[j]? = (pairs d.regs)[i]? := by
      rw [getElem?_pairs hr', getElem?_pairs hr, hpair', heq]
    have hlt : j < (pairs d.regs).length := (List.getElem?_eq_some_iff.1 (getElem?_pairs hr')).1
    exact congrArg some ((List.getElem?_inj hlt htagged.nodup).1 hsame)
  | reconcile now =>
    have hzero : (0, 0) = (r.offset, r.index) := (Option.some.inj hpair).trans heq
    exact absurd (congrArg Prod.snd hzero).symm hwritten
  | start j p => cases hpair
  | cancel j => cases hpair
  | rearm => cases hpair
  | world w => cases hpair

/-- Algos under pairs of their own open no order with the marks of another, in any run. -/
theorem admits_of_tagged {ops : List (DeskOp B)} (htagged : Tagged (pairs d.regs))
    (hops : Direct (pairs d.regs) ops) :
    (deskMachine E).Admits (fun d op => d.Owned E op) d ops := by
  induction ops generalizing d with
  | nil => trivial
  | cons op ops ih =>
    have hsame : pairs ((deskMachine E).step d op).regs = pairs d.regs := step_pairs op
    refine ⟨owned_of_tagged htagged fun req hreq => ?_, ih ?_ fun req hreq => ?_⟩
    · exact hops req (List.mem_cons.2 (Or.inl (List.mem_singleton.1 hreq)))
    · rw [hsame]
      exact htagged
    · rw [hsame]
      exact hops req (List.mem_cons_of_mem _ hreq)

end Step

end Desk

/-! ### Two desks -/

/-- One child, of the whole parent. -/
def deskConfig (offset : ScratchOffset) (index : ℤ) : AlgoConfig Unit where
  workerOffset := offset
  workerIndex := index
  slices := 1

def deskParent : ParentOrder where
  instrument := 3
  qty := 10
  endAt := 10
  limit := 5

def deskRun (specs : List (String × AlgoConfig Unit)) (ops : List (DeskOp Unit)) : Desk Unit :=
  (deskMachine acceptingEnv).run (.init twoSlots () {} specs) ops

/-- A request that marks its order with no pair. -/
def unmarked : OrderRequest where
  instrument := 3
  size := 5
  price := 5

/-- Of two algos on different fields, the second submits a child beside an unmarked order. Both
orders fill. -/
theorem filled_eq_own_marked :
    ∃ r, (deskRun [("twap", deskConfig 0 7), ("twap", deskConfig 1 7)]
        [.start 1 deskParent, .oms (.submit unmarked), .timer 1 0, .oms (.fill 1 5 5 8 0),
          .oms (.fill 65538 10 5 9 0)]).regs[1]? = some r ∧
      r.algo.stats.filledQty =
        (deskRun [("twap", deskConfig 0 7), ("twap", deskConfig 1 7)]
          [.start 1 deskParent, .oms (.submit unmarked), .timer 1 0, .oms (.fill 1 5 5 8 0),
            .oms (.fill 65538 10 5 9 0)]).ledger.filled 1 := by
  refine ⟨_, rfl, Desk.filled_eq_own acceptingEnv twoSlots () {}
    [("twap", deskConfig 0 7), ("twap", deskConfig 1 7)] _ ?_ 1 _ rfl⟩
  refine Desk.admits_of_tagged ⟨by decide, by decide⟩ fun req hreq => ?_
  have hdirect : req = unmarked := by
    simpa using hreq
  rw [hdirect]
  decide

/-- An algo that is left at its defaults counts the fill of an unmarked order. -/
theorem filled_ne_own :
    ¬ ∀ (specs : List (String × AlgoConfig Unit)) (ops : List (DeskOp Unit)),
      (specs.map fun spec => (spec.2.workerOffset, spec.2.workerIndex)).Nodup →
      ∀ (i : ℕ) (r : AlgoDispatcher.Reg Unit), (deskRun specs ops).regs[i]? = some r →
        r.algo.stats.filledQty = (deskRun specs ops).ledger.filled i := by
  intro hall
  have hfive := hall [("twap", {})] [.oms (.submit unmarked), .oms (.fill 1 5 5 8 0)] (by simp) 0
    _ rfl
  exact absurd hfive (by decide)

end Oms
