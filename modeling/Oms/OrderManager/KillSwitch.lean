import Oms.Reconciliation.Halt

/-!
# The kill switch

`OrderManager::trip_kill_switch`: a submit that finds the pool full trips the switch, and so does a
fill of an unknown order, if too many came before it. Nothing resets the switch.

* `KillSwitch`, `Alarm`: the switch, and what it hears of; `KillSwitch.hear`;
* `alarms`: what an operation lets it hear; `step_killSwitch`: it hears nothing else;
* `Trips`, `TrippedBy`: which alarm of a log trips the switch; `hears_run`;
* `kill_switch_trips`: the switch is tripped by the first such alarm of the run, for good, and from
  then on no order is placed.
-/

namespace Oms

open OrderManager

/-! ### The switch -/

/-- What the switch is made of. -/
structure KillSwitch where
  killed : Bool := false
  reason : String := ""
  unknownFills : ℕ := 0
  threshold : ℕ := 3

/-- What the switch hears of. -/
inductive Alarm
  /-- a submit that finds the pool full -/
  | exhausted (inUse capacity : ℕ)
  /-- a fill of an order that is not in the system -/
  | unknownFill (id : OrderIdRaw)
  /-- unknown fills are tolerated up to a number -/
  | threshold (n : ℕ)

def Alarm.reason : Alarm → String
  | .exhausted inUse capacity =>
    "ORDER_POOL_EXHAUSTED in_use=" ++ toString inUse ++ " capacity=" ++ toString capacity
  | .unknownFill id => "ORDER_FILLED_NOT_IN_SYSTEM recurred id=" ++ toString id
  | .threshold _ => ""

def OrderManager.killSwitch (om : OrderManager) : KillSwitch where
  killed := om.killed
  reason := om.killReason
  unknownFills := om.unknownFillCount
  threshold := om.unknownFillHardstopThreshold

namespace KillSwitch

/-- Only the first reason is kept. -/
def trip (k : KillSwitch) (reason : String) : KillSwitch :=
  if k.killed then k else { k with killed := true, reason := reason }

def hear (k : KillSwitch) : Alarm → KillSwitch
  | .exhausted inUse capacity => k.trip (Alarm.exhausted inUse capacity).reason
  | .unknownFill id =>
    let k := { k with unknownFills := k.unknownFills + 1 }
    if k.threshold < k.unknownFills then k.trip (Alarm.unknownFill id).reason else k
  | .threshold n => { k with threshold := n }

end KillSwitch

/-- What an operation lets the switch hear. -/
def alarms {W : Type} (E : Env W) (s : State W) : Op → List Alarm
  | .submit req =>
    if s.om.killed then []
    else
      match (E.router.select req.instrument req.side req.size s.world).1.bind E.registry.get with
      | none => []
      | some _ =>
        if s.om.pool.capacity ≤ s.om.pool.inUse then
          [.exhausted s.om.pool.inUse s.om.pool.capacity]
        else []
  | .fill id qty price trade _ =>
    if s.om.validate id ⟨.Fill, trade, qty, price⟩ = .UnknownOrder then [.unknownFill id] else []
  | .setUnknownFillHardstopThreshold n => [.threshold n]
  | _ => []

/-! ### What the handlers do to it -/

section Handlers

variable {om : OrderManager} {id : OrderIdRaw}

@[simp] theorem killSwitch_retire (inst : InstrumentId) (rem : Quantity) (side : Side) :
    (om.retire id inst rem side).killSwitch = om.killSwitch := by
  unfold retire
  rw [expire_frame]
  rfl

@[simp] theorem killSwitch_fill (qty : Quantity) (price : Price) (trade : TradeId)
    (ts : Timestamp) : (om.fill id qty price trade ts).killSwitch = om.killSwitch := by
  unfold OrderManager.fill
  dsimp only
  split_ifs
  · unfold finishFill
    rw [killSwitch_retire]
    split_ifs <;> rfl
  · rfl

@[simp] theorem killSwitch_trip (reason : String) :
    (om.tripKillSwitch reason).killSwitch = om.killSwitch.trip reason := by
  unfold tripKillSwitch KillSwitch.trip killSwitch
  split_ifs <;> rfl

variable {W : Type} {E : Env W} {s : State W}

theorem onFill_killSwitch (qty : Quantity) (price : Price) (trade : TradeId) (ts : Timestamp) :
    (s.onFill E id qty price trade ts).om.killSwitch =
      (alarms E s (.fill id qty price trade ts)).foldl .hear s.om.killSwitch := by
  unfold alarms State.onFill
  dsimp only
  split
  · rename_i hok
    rw [hok]
    exact killSwitch_fill qty price trade ts
  · rename_i hunknown
    rw [hunknown]
    show _ = s.om.killSwitch.hear (.unknownFill id)
    unfold KillSwitch.hear
    dsimp only
    -- what is noted of the dropped event is not the switch's
    have hdropped : (s.dropEvent E id .Fill .UnknownOrder ts).om.killSwitch = s.om.killSwitch := rfl
    rw [← hdropped]
    generalize s.dropEvent E id .Fill .UnknownOrder ts = s'
    by_cases hlimit : s'.om.unknownFillHardstopThreshold < s'.om.unknownFillCount + 1
    · rw [if_pos hlimit, tripKillSwitch_om, killSwitch_trip]
      exact (if_pos hlimit).symm
    · rw [if_neg hlimit]
      exact (if_neg hlimit).symm
  · rename_i hunknown
    rw [if_neg hunknown]
    rfl

theorem onReject_killSwitch (reason : RejectReason) (ts : Timestamp) :
    (s.onReject E id reason ts).om.killSwitch = s.om.killSwitch := by
  unfold State.onReject State.onCancelReject
  dsimp only
  split_ifs
  · rfl
  · split
    · rfl
    · rfl
  · split
    · exact killSwitch_retire _ _ _
    · rfl

theorem finishCancel_killSwitch (ts : Timestamp) (kind : EventKind) (pub : OrderEventKind)
    (unsolicited : Bool) :
    (s.finishCancel E id ts kind pub unsolicited).om.killSwitch = s.om.killSwitch := by
  unfold State.finishCancel
  split
  · cases unsolicited
    all_goals exact killSwitch_retire _ _ _
  · rfl

theorem cancel_killSwitch : (s.cancel E id).2.om.killSwitch = s.om.killSwitch := by
  unfold State.cancel
  split_ifs
  · rfl
  dsimp only
  split_ifs
  · rfl
  split
  · rfl
  split_ifs <;> rfl

theorem foldl_killSwitch {f : State W → OrderIdRaw → State W}
    (hf : ∀ s id, (f s id).om.killSwitch = s.om.killSwitch) (ids : List OrderIdRaw) (s : State W) :
    (ids.foldl f s).om.killSwitch = s.om.killSwitch := by
  induction ids generalizing s with
  | nil => rfl
  | cons id ids ih => exact (ih (f s id)).trans (hf s id)

theorem cancelWorkingOrder_killSwitch (s : State W) (id : OrderIdRaw) :
    (s.cancelWorkingOrder E id).om.killSwitch = s.om.killSwitch := by
  unfold State.cancelWorkingOrder
  split_ifs
  · rfl
  dsimp only
  split_ifs
  · rfl
  split
  · rfl
  split_ifs <;> rfl

theorem checkAckTimeout_killSwitch (now timeout : Timestamp) (s : State W) (id : OrderIdRaw) :
    (s.checkAckTimeout E now timeout id).om.killSwitch = s.om.killSwitch := by
  unfold State.checkAckTimeout
  split_ifs
  · rfl
  dsimp only
  split_ifs
  · rfl
  · rfl
  · rfl
  split
  · rfl
  split_ifs <;> rfl

theorem place_killSwitch (req : OrderRequest) (venue : VenueId) (ex : ExchangeClient W) :
    (s.place E req venue ex).2.om.killSwitch = s.om.killSwitch := by
  unfold State.place
  dsimp only
  split
  · rfl
  · rename_i id om hres
    have hbooked : om.killSwitch = s.om.killSwitch := by
      unfold reserve at hres
      split at hres
      · cases hres
      · cases hres
        rfl
    split_ifs
    · exact hbooked
    · exact (killSwitch_retire _ _ _).trans hbooked

theorem submit_killSwitch (req : OrderRequest) :
    (s.submit E req).2.om.killSwitch =
      (alarms E s (.submit req)).foldl .hear s.om.killSwitch := by
  unfold alarms
  dsimp only
  fun_cases State.submit E req s with
  | case1 hkilled =>
    rw [if_pos hkilled]
    rfl
  | case2 hon w hselect s' =>
    rw [if_neg hon, hselect]
    exact foldl_killSwitch cancelWorkingOrder_killSwitch _ s'
  | case3 hon venue w hselect s' hget =>
    rw [if_neg hon, hselect, Option.bind_some, hget]
    rfl
  | case4 hon venue w hselect s' ex hget hfull =>
    rw [if_neg hon, hselect, Option.bind_some, hget]
    dsimp only
    have hfull' : s.om.pool.capacity ≤ s.om.pool.inUse := hfull
    rw [if_pos hfull', tripKillSwitch_om, killSwitch_trip]
    rfl
  | case5 hon venue w hselect s' ex hget hfree =>
    rw [if_neg hon, hselect, Option.bind_some, hget]
    dsimp only
    have hfree' : ¬ s.om.pool.capacity ≤ s.om.pool.inUse := hfree
    rw [if_neg hfree']
    exact place_killSwitch (s := s') req venue ex

/-- **The switch hears of an operation what its alarms say**, and nothing else. -/
theorem step_killSwitch (op : Op) :
    (s.step E op).om.killSwitch = (alarms E s op).foldl .hear s.om.killSwitch := by
  cases op with
  | submit req => exact submit_killSwitch req
  | cancel id => exact cancel_killSwitch
  | confirm id exchId ts =>
    show (s.onConfirm E id exchId ts).om.killSwitch = s.om.killSwitch
    unfold State.onConfirm
    split <;> rfl
  | fill id qty price trade ts => exact onFill_killSwitch qty price trade ts
  | reject id reason ts => exact onReject_killSwitch reason ts
  | cancelAck id ts => exact finishCancel_killSwitch ts _ _ _
  | unsolicitedCancel id ts => exact finishCancel_killSwitch ts _ _ _
  | checkAckTimeouts now timeout =>
    exact foldl_killSwitch (checkAckTimeout_killSwitch now timeout) _ s
  | _ => rfl

end Handlers

/-! ### What trips it -/

/-- The fills of unknown orders in a log. -/
def unknownFills (log : List Alarm) : ℕ :=
  log.countP fun | .unknownFill _ => true | _ => false

/-- The number of them that is tolerated after a log. -/
def tolerated (log : List Alarm) : ℕ :=
  log.foldl (fun n a => match a with | .threshold m => m | _ => n) 3

/-- An alarm trips the switch, after those of a log. -/
def Trips (log : List Alarm) : Alarm → Prop
  | .exhausted _ _ => True
  | .unknownFill _ => tolerated log ≤ unknownFills log
  | .threshold _ => False

/-- The first alarm of a log that trips the switch. -/
def TrippedBy (log : List Alarm) (a : Alarm) : Prop :=
  ∃ pre, pre ++ [a] <+: log ∧ Trips pre a ∧ ∀ pre' a', pre' ++ [a'] <+: pre → ¬ Trips pre' a'

/-- The switch after a log. -/
structure Hears (log : List Alarm) (k : KillSwitch) : Prop where
  unknownFills : k.unknownFills = unknownFills log
  threshold : k.threshold = tolerated log
  idle : k.killed = false → ∀ pre a, pre ++ [a] <+: log → ¬ Trips pre a
  tripped : k.killed = true → ∃ a, TrippedBy log a ∧ k.reason = a.reason

section Log

variable {log : List Alarm} {k : KillSwitch} {a : Alarm}

theorem unknownFills_snoc (id : OrderIdRaw) :
    unknownFills (log ++ [.unknownFill id]) = unknownFills log + 1 := by
  unfold unknownFills
  rw [List.countP_append]
  rfl

theorem tolerated_snoc (a : Alarm) : tolerated (log ++ [a]) =
    match a with | .threshold n => n | _ => tolerated log := by
  unfold tolerated
  rw [List.foldl_append]
  cases a <;> rfl

theorem hears_nil : Hears [] {} where
  unknownFills := rfl
  threshold := rfl
  idle := fun _ pre a h => by
    have hnil := List.prefix_nil.1 h
    simp at hnil
  tripped := fun h => Bool.noConfusion h

/-- The beginnings of a log with one more alarm. -/
theorem prefix_snoc {pre : List Alarm} {a' : Alarm} (h : pre ++ [a'] <+: log ++ [a]) :
    pre ++ [a'] <+: log ∨ pre = log ∧ a' = a := by
  rcases List.prefix_concat_iff.1 h with heq | hpre
  · exact Or.inr (List.append_inj' heq rfl |>.imp id fun h => List.singleton_injective h)
  · exact Or.inl hpre

/-- A switch that is tripped stays so, for the same reason. -/
theorem Hears.stays {k' : KillSwitch} (h : Hears log k) (hkilled : k.killed = true)
    (hfills : k'.unknownFills = Oms.unknownFills (log ++ [a]))
    (hthreshold : k'.threshold = tolerated (log ++ [a])) (hkilled' : k'.killed = true)
    (hreason : k'.reason = k.reason) : Hears (log ++ [a]) k' := by
  refine ⟨hfills, hthreshold, fun hidle => ?_, fun _ => ?_⟩
  · rw [hkilled'] at hidle
    cases hidle
  · obtain ⟨b, ⟨pre, hpre, hfirst⟩, hb⟩ := h.tripped hkilled
    exact ⟨b, ⟨pre, hpre.trans (List.prefix_append _ _), hfirst⟩, hreason.trans hb⟩

/-- An alarm that trips the switch gives it its reason. -/
theorem Hears.trips {k' : KillSwitch} (h : Hears log k) (hidle : k.killed = false)
    (htrips : Trips log a) (hfills : k'.unknownFills = Oms.unknownFills (log ++ [a]))
    (hthreshold : k'.threshold = tolerated (log ++ [a])) (hkilled' : k'.killed = true)
    (hreason : k'.reason = a.reason) : Hears (log ++ [a]) k' := by
  refine ⟨hfills, hthreshold, fun hidle' => ?_, fun _ => ?_⟩
  · rw [hkilled'] at hidle'
    cases hidle'
  · exact ⟨a, ⟨log, List.prefix_rfl, htrips, h.idle hidle⟩, hreason⟩

/-- An alarm that does not trip it leaves it idle. -/
theorem Hears.passes {k' : KillSwitch} (h : Hears log k) (hidle : k.killed = false)
    (hpasses : ¬ Trips log a) (hfills : k'.unknownFills = Oms.unknownFills (log ++ [a]))
    (hthreshold : k'.threshold = tolerated (log ++ [a])) (hidle' : k'.killed = false) :
    Hears (log ++ [a]) k' := by
  refine ⟨hfills, hthreshold, fun _ pre a' hpre => ?_, fun hkilled => ?_⟩
  · rcases prefix_snoc hpre with hold | ⟨rfl, rfl⟩
    · exact h.idle hidle pre a' hold
    · exact hpasses
  · rw [hidle'] at hkilled
    cases hkilled

/-- **One more alarm.** -/
theorem Hears.hear (h : Hears log k) (a : Alarm) : Hears (log ++ [a]) (k.hear a) := by
  have hthreshold := h.threshold
  have hfills := h.unknownFills
  cases a with
  | exhausted inUse capacity =>
    have hfills' : k.unknownFills = Oms.unknownFills (log ++ [.exhausted inUse capacity]) := by
      rw [hfills]
      unfold Oms.unknownFills
      rw [List.countP_append]
      rfl
    have hthreshold' : k.threshold = tolerated (log ++ [.exhausted inUse capacity]) :=
      hthreshold.trans (tolerated_snoc (.exhausted inUse capacity)).symm
    unfold KillSwitch.hear KillSwitch.trip
    dsimp only
    cases hkilled : k.killed with
    | true => exact h.stays hkilled hfills' hthreshold' hkilled rfl
    | false => exact h.trips hkilled trivial hfills' hthreshold' rfl rfl
  | unknownFill id =>
    have hfills' : k.unknownFills + 1 = Oms.unknownFills (log ++ [.unknownFill id]) := by
      rw [hfills, unknownFills_snoc]
    have hthreshold' : k.threshold = tolerated (log ++ [.unknownFill id]) :=
      hthreshold.trans (tolerated_snoc (.unknownFill id)).symm
    have htrips : Trips log (.unknownFill id) ↔ k.threshold < k.unknownFills + 1 := by
      show tolerated log ≤ Oms.unknownFills log ↔ _
      rw [hthreshold, hfills, Nat.lt_succ_iff]
    unfold KillSwitch.hear KillSwitch.trip
    dsimp only
    by_cases hlimit : k.threshold < k.unknownFills + 1
    · rw [if_pos hlimit]
      cases hkilled : k.killed with
      | true => exact h.stays hkilled hfills' hthreshold' rfl rfl
      | false => exact h.trips hkilled (htrips.2 hlimit) hfills' hthreshold' rfl rfl
    · rw [if_neg hlimit]
      cases hkilled : k.killed with
      | true => exact h.stays hkilled hfills' hthreshold' rfl rfl
      | false => exact h.passes hkilled (mt htrips.1 hlimit) hfills' hthreshold' rfl
  | threshold n =>
    have hfills' : k.unknownFills = Oms.unknownFills (log ++ [.threshold n]) := by
      rw [hfills]
      unfold Oms.unknownFills
      rw [List.countP_append]
      rfl
    have hthreshold' : n = tolerated (log ++ [.threshold n]) := (tolerated_snoc (.threshold n)).symm
    cases hkilled : k.killed with
    | true => exact h.stays hkilled hfills' hthreshold' hkilled rfl
    | false => exact h.passes hkilled id hfills' hthreshold' hkilled

theorem Hears.foldl (h : Hears log k) (as : List Alarm) :
    Hears (log ++ as) (as.foldl .hear k) := by
  induction as generalizing log k with
  | nil => rwa [List.append_nil]
  | cons a as ih =>
    rw [← List.singleton_append, ← List.append_assoc]
    exact ih (h.hear a)

end Log

/-! ### Every run -/

section Runs

variable {W : Type} (E : Env W)

/-- The switch after a run has heard the alarms of the run. -/
theorem hears_run (s : State W) (ops : List Op) {log : List Alarm}
    (h : Hears log s.om.killSwitch) :
    Hears (log ++ (machine E).trace (alarms E) s ops) ((machine E).run s ops).om.killSwitch := by
  induction ops generalizing s log with
  | nil => rwa [Machine.trace, List.append_nil]
  | cons op ops ih =>
    rw [Machine.trace, Machine.run_cons, ← List.append_assoc]
    refine ih ((machine E).step s op) ?_
    show Hears _ (s.step E op).om.killSwitch
    rw [step_killSwitch]
    exact h.foldl _

/-- Nothing resets the switch, and behind it nothing is placed. -/
theorem killed_step {s : State (W × ℕ)} (hkilled : s.om.killed = true) (op : Op) :
    (s.step E.counting op).om.killed = true ∧
      (s.step E.counting op).om.killReason = s.om.killReason ∧
      (s.step E.counting op).world.2 = s.world.2 := by
  have hswitch := step_killSwitch (E := E.counting) (s := s) op
  have hkept : ∀ (as : List Alarm) (k : KillSwitch), k.killed = true →
      (as.foldl .hear k).killed = true ∧ (as.foldl .hear k).reason = k.reason := by
    intro as
    induction as with
    | nil => exact fun k hk => ⟨hk, rfl⟩
    | cons a as ih =>
      intro k hk
      have hhear : (k.hear a).killed = true ∧ (k.hear a).reason = k.reason := by
        unfold KillSwitch.hear KillSwitch.trip
        cases a with
        | exhausted inUse capacity =>
          dsimp only
          rw [if_pos hk]
          exact ⟨hk, rfl⟩
        | unknownFill id =>
          dsimp only
          rw [if_pos hk, ite_self]
          exact ⟨hk, rfl⟩
        | threshold n => exact ⟨hk, rfl⟩
      obtain ⟨hkilled', hreason⟩ := ih (k.hear a) hhear.1
      exact ⟨hkilled', hreason.trans hhear.2⟩
  obtain ⟨hkilled', hreason⟩ := hkept (alarms E.counting s op) s.om.killSwitch hkilled
  rw [← hswitch] at hkilled' hreason
  refine ⟨hkilled', hreason, ?_⟩
  by_cases hsubmit : ∃ req, op = .submit req
  · obtain ⟨req, rfl⟩ := hsubmit
    show (s.submit E.counting req).2.world.2 = s.world.2
    unfold State.submit
    rw [if_pos hkilled]
    rfl
  · exact step_count fun req heq => hsubmit ⟨req, heq⟩

/-- **The kill switch.** In every run of the manager, whatever happens, the switch is tripped
exactly if an alarm of the run trips it: a submit found the pool full, or a fill of an unknown order
came after as many as were tolerated then. It keeps the reason of the first one, nothing resets it,
and from then on no order is placed on any venue. -/
theorem kill_switch_trips (capacity : PoolCapacity) (w : W) (ops : List Op) :
    let M := machine E.counting
    let s := M.run ⟨.init capacity, w, 0⟩ ops
    let log := M.trace (alarms E.counting) ⟨.init capacity, w, 0⟩ ops
    (s.om.killed = true ↔ ∃ pre a, pre ++ [a] <+: log ∧ Trips pre a) ∧
      (s.om.killed = true → (∃ a, TrippedBy log a ∧ s.om.killReason = a.reason) ∧
        ∀ more, (M.run s more).om.killed = true ∧
          (M.run s more).om.killReason = s.om.killReason ∧
          (M.run s more).world.2 = s.world.2) := by
  intro M s log
  have hears : Hears log s.om.killSwitch :=
    hears_run E.counting ⟨.init capacity, w, 0⟩ ops hears_nil
  refine ⟨⟨fun hkilled => ?_, ?_⟩, fun hkilled => ⟨hears.tripped hkilled, fun more => ?_⟩⟩
  · obtain ⟨a, ⟨pre, hpre, htrips, -⟩, -⟩ := hears.tripped hkilled
    exact ⟨pre, a, hpre, htrips⟩
  · rintro ⟨pre, a, hpre, htrips⟩
    by_contra hidle
    exact hears.idle (Bool.eq_false_of_not_eq_true hidle) pre a hpre htrips
  · exact Machine.run_invariant (M := M)
      (I := fun s' : State (W × ℕ) => s'.om.killed = true ∧ s'.om.killReason = s.om.killReason ∧
        s'.world.2 = s.world.2)
      (G := fun _ _ => True)
      (fun s' op h _ => by
        obtain ⟨hkilled', hreason, hcount⟩ := killed_step E h.1 op
        exact ⟨hkilled', hreason.trans h.2.1, hcount.trans h.2.2⟩)
      ⟨hkilled, rfl, rfl⟩ (M.admits_true s more)

end Runs

end Oms
