import Oms.OrderManager.Stored
import Oms.Reconciliation.Healed

/-!
# Corrective orders that still work

A cycle compares filled positions and starts its count anew after a heal. It does not look for a
corrective order that no venue has filled yet.

* `corrections`: the slots of the working corrective orders for an instrument;
* `submit_corrections`: a request adds to them exactly if it is accepted and for a correction;
* `step_corrections`: nothing else adds to them;
* `atHeals_iff`, `eachHeal_iff`: the heals of a cycle do not affect each other;
* `one_correction_iff`: no correction is doubled exactly as long as no heal is due where one works.
-/

namespace Oms

open OrderManager

/-- The slots of the corrective orders for an instrument that still work. -/
def OrderManager.corrections (om : OrderManager) (inst : InstrumentId) : Set ℕ :=
  {slot | om.pool.Working slot ∧ (om.pool.slots slot).reconciliation = true ∧
    (om.pool.slots slot).instrument = inst}

/-- A request is for a correction of an instrument. -/
def OrderRequest.Corrects (req : OrderRequest) (inst : InstrumentId) : Prop :=
  req.reconciliation = true ∧ req.instrument = inst

/-! ### Writes -/

section Writes

variable {om om' : OrderManager} {id : OrderIdRaw} {f : Order → Order} {inst : InstrumentId}

/-- The instrument of an order and whether it is a correction are fixed. -/
def Order.SameTags (o o' : Order) : Prop :=
  o'.reconciliation = o.reconciliation ∧ o'.instrument = o.instrument

theorem mem_corrections {slot : ℕ} : slot ∈ om.corrections inst ↔ om.pool.Working slot ∧
    (om.pool.slots slot).reconciliation = true ∧ (om.pool.slots slot).instrument = inst := Iff.rfl

/-- The same working orders are the same corrections. -/
theorem corrections_congr (hworking : ∀ slot, om'.pool.Working slot ↔ om.pool.Working slot)
    (htags : ∀ slot, om.pool.Working slot →
      (om.pool.slots slot).SameTags (om'.pool.slots slot)) :
    om'.corrections inst = om.corrections inst := by
  ext slot
  rw [mem_corrections, mem_corrections, hworking]
  refine and_congr_right fun hw => ?_
  obtain ⟨hrecon, hinst⟩ := htags slot hw
  rw [hrecon, hinst]

theorem KeepsBooks.corrections (h : KeepsBooks om om') :
    om'.corrections inst = om.corrections inst := by
  refine corrections_congr h.working fun slot hw => ?_
  rcases h.order slot hw with heq | heq
  · rw [heq]
    exact ⟨rfl, rfl⟩
  · rw [heq]
    exact ⟨rfl, rfl⟩

theorem SlotsKept.corrections (h : SlotsKept om om') :
    om'.corrections inst ⊆ om.corrections inst := by
  rintro slot ⟨⟨halloc, hopen⟩, htags⟩
  obtain ⟨hbefore, heq⟩ := h slot halloc
  rw [heq] at hopen htags
  exact ⟨⟨hbefore, hopen⟩, htags⟩

/-- A write to a working order makes no correction of it. -/
theorem SlotWritten.corrections (h : SlotWritten om om' id f) (hopen : (om.orderRef id).Open)
    (htags : ∀ o : Order, o.SameTags (f o)) : om'.corrections inst ⊆ om.corrections inst := by
  rintro slot ⟨⟨halloc, hopen'⟩, hrecon, hinst⟩
  obtain ⟨hbefore, heq⟩ := h slot halloc
  rw [heq] at hopen' hrecon hinst
  split_ifs at hopen' hrecon hinst with hslot
  · rw [(htags _).1] at hrecon
    rw [(htags _).2] at hinst
    exact ⟨⟨hbefore, hslot ▸ hopen⟩, hrecon, hinst⟩
  · exact ⟨⟨hbefore, hopen'⟩, hrecon, hinst⟩

/-- Without requests, a turn adds no correction. -/
theorem turn_corrections {P : Policy} (hnone : ∀ req, ¬ P.request req) (hturn : Turn P om om') :
    om'.corrections inst ⊆ om.corrections inst := by
  cases hturn with
  | quiet d => exact (SlotsKept.of_pool rfl).corrections
  | forgive id => exact (SlotsKept.of_pool rfl).corrections
  | write hlive hf =>
    refine (SlotWritten.of_pool rfl).corrections hlive.isOpen fun o => ?_
    cases hf <;> exact ⟨rfl, rfl⟩
  | fill hmoves haddr hok =>
    exact (slotWritten_fill _ _ _ _ _ _).corrections (validate_fill_ok_iff.1 hok).2.1
      fun _ => ⟨rfl, rfl⟩
  | @close om₁ id f hmoves haddr hlive hf hwrite =>
    have hwritten : SlotWritten om om₁ id f := by
      rw [hwrite]
      exact .of_pool rfl
    refine (hwritten.kept (slotsKept_retire _ _ _ _ _)).corrections hlive.isOpen fun o => ?_
    cases hf <;> exact ⟨rfl, rfl⟩
  | place hreq => exact absurd hreq (hnone _)
  | unwind hmoves hreq => exact absurd hreq (hnone _)

end Writes

/-! ### Operations -/

section Operations

variable {W : Type} {E : Env W} {s : State W} {req : OrderRequest} {inst : InstrumentId}

/-- What an order that a venue took adds to the corrections. -/
theorem Sends.corrections {venue : VenueId} {w : W} {ex : ExchangeClient W} {id : OrderIdRaw}
    {om' : OrderManager} (h : Sends E s req venue w ex id om') (hwf : s.om.WF)
    (haccepts : Accepts E s req) (slot : ℕ) :
    slot ∈ (s.submit E req).2.om.corrections inst ↔
      slot = slotOf id ∧ req.Corrects inst ∨ slot ∈ s.om.corrections inst := by
  obtain ⟨hfree, halloc, href, hother⟩ := reserved_slots hwf h.reserved
  rw [h.placed haccepts, mem_corrections, mem_corrections]
  by_cases hslot : slot = slotOf id
  · subst hslot
    have hsent : (om'.modifyOrder id (Order.markSent (E.clock w))).pool.slots (slotOf id) =
        (req.stamp id (E.clock w) {}).markSent (E.clock w) := by
      rw [← href]
      exact OrderPool.modify_slots_self
    have hworking : (om'.modifyOrder id (Order.markSent (E.clock w))).pool.Working (slotOf id) := by
      refine ⟨halloc, ?_⟩
      rw [hsent]
      exact Order.markSent_open _ _
    have hold : ¬ s.om.pool.Working (slotOf id) := by
      rintro ⟨hbefore, -⟩
      rw [hfree] at hbefore
      cases hbefore
    rw [hsent, and_iff_right hworking, and_iff_right rfl, or_iff_left fun hw => hold hw.1]
    rfl
  · obtain ⟨halloc', hslots⟩ := hother slot hslot
    have hsame : (om'.modifyOrder id (Order.markSent (E.clock w))).pool.slots slot =
        s.om.pool.slots slot := (OrderPool.modify_slots_of_ne hslot).trans hslots
    have hworking : (om'.modifyOrder id (Order.markSent (E.clock w))).pool.Working slot ↔
        s.om.pool.Working slot := by
      unfold OrderPool.Working
      rw [hsame, ← halloc']
      rfl
    rw [hsame, hworking, or_iff_right fun hw => hslot hw.1]

/-- **What a request adds to the corrections**: its order, if it is accepted and for one. -/
theorem submit_corrections (hwf : s.om.WF) (req : OrderRequest) :
    (Accepts E s req ∧ ∃ new, s.om.pool.allocated new = false ∧ ∀ inst slot,
        slot ∈ (s.submit E req).2.om.corrections inst ↔
          slot = new ∧ req.Corrects inst ∨ slot ∈ s.om.corrections inst) ∨
      ¬ Accepts E s req ∧ ∀ inst,
        (s.submit E req).2.om.corrections inst = s.om.corrections inst := by
  rcases submit_sends E.canceller_true hwf req with
    ⟨venue, w, ex, id, om', hsends⟩ | ⟨hnot, -, hkeeps⟩
  · by_cases haccepts : Accepts E s req
    · obtain ⟨hfree, -⟩ := reserved_slots hwf hsends.reserved
      exact Or.inl ⟨haccepts, slotOf id, hfree, fun _ slot => hsends.corrections hwf haccepts slot⟩
    · refine Or.inr ⟨haccepts, fun inst => ?_⟩
      refine corrections_congr (fun slot => (hsends.unwound hwf haccepts slot).1) fun slot hw => ?_
      rw [(hsends.unwound hwf haccepts slot).2 hw]
      exact ⟨rfl, rfl⟩
  · exact Or.inr ⟨hnot, fun _ => hkeeps.corrections⟩

/-- A request for something else leaves the corrections of an instrument alone. -/
theorem submit_corrections_of_not (hwf : s.om.WF) (hnot : ¬ req.Corrects inst) :
    (s.submit E req).2.om.corrections inst = s.om.corrections inst := by
  rcases submit_corrections (E := E) hwf req with ⟨-, new, -, hmem⟩ | ⟨-, hsame⟩
  · ext slot
    rw [hmem, or_iff_right fun h => hnot h.2]
  · exact hsame inst

/-- **A request doubles a correction** exactly if it is accepted while one works. -/
theorem submit_subsingleton_iff (hwf : s.om.WF) (hone : (s.om.corrections inst).Subsingleton) :
    ((s.submit E req).2.om.corrections inst).Subsingleton ↔
      (req.Corrects inst → (s.om.corrections inst).Nonempty → ¬ Accepts E s req) := by
  by_cases hcorrects : req.Corrects inst
  · rw [forall_prop_of_true hcorrects]
    rcases submit_corrections (E := E) hwf req with ⟨haccepts, new, hfree, hmem⟩ | ⟨hnot, hsame⟩
    · have hnew : new ∈ (s.submit E req).2.om.corrections inst :=
        (hmem inst new).2 (Or.inl ⟨rfl, hcorrects⟩)
      constructor
      · rintro hsingle ⟨old, hold⟩ -
        have heq : old = new := hsingle ((hmem inst old).2 (Or.inr hold)) hnew
        -- the slot of a working order is not free
        rw [heq, mem_corrections, OrderPool.Working, hfree] at hold
        exact Bool.noConfusion hold.1.1
      · intro hnone
        have hempty : ∀ slot, slot ∉ s.om.corrections inst := fun slot h =>
          hnone ⟨slot, h⟩ haccepts
        intro i hi j hj
        have hi' := ((hmem inst i).1 hi).resolve_right (hempty i)
        have hj' := ((hmem inst j).1 hj).resolve_right (hempty j)
        exact hi'.1.trans hj'.1.symm
    · rw [hsame]
      exact iff_of_true hone fun _ => hnot
  · rw [submit_corrections_of_not hwf hcorrects]
    exact iff_of_true hone fun h => absurd h hcorrects

/-- Nothing but a request adds a correction. -/
theorem step_corrections {op : Op} (hop : ∀ req, op ≠ .submit req) :
    (s.step E op).om.corrections inst ⊆ s.om.corrections inst := by
  have hturns : Turns { request := fun _ => False } s.om (s.step E op).om :=
    step_turns ⟨fun req h => absurd h (hop req), fun _ _ => ⟨trivial, fun _ => trivial⟩⟩
  generalize (s.step E op).om = om' at hturns
  induction hturns with
  | refl => exact Set.Subset.rfl
  | tail _ hturn ih => exact (turn_corrections (fun _ => id) hturn).trans ih

end Operations

/-! ### Cycles -/

namespace PeriodicReconciler

section Cycle

variable {W : Type} {E : Env W} {r : PeriodicReconciler W} {s : State W} {now : Timestamp}
  {exPos : Holdings} {inst j : InstrumentId}

/-- Examining an instrument submits its corrective order if its heal is due. -/
theorem examine_om_of_heals (h : r.HealsAt exPos s.om inst) :
    (r.examine E now exPos inst s).2.2.om =
      ((healSubmit E exPos inst s).1.submit E (healSubmit E exPos inst s).2).2.om := by
  rw [examine_of_heals h]
  rfl

/-- Otherwise it leaves the manager alone. -/
theorem examine_om_of_not_heals (h : ¬ r.HealsAt exPos s.om inst) :
    (r.examine E now exPos inst s).2.2.om = s.om := by
  rw [← examine_heals_iff E now] at h
  unfold examine at h ⊢
  dsimp only at h ⊢
  split_ifs at h ⊢
  · rfl
  · rfl
  · rfl
  · exact absurd rfl h
  · rfl

theorem examine_wf (hwf : s.om.WF) : (r.examine E now exPos inst s).2.2.om.WF :=
  Change.wf_of_chain (examine_chain hwf) hwf

/-- A heal of one instrument is no correction of another. -/
theorem examine_corrections (hwf : s.om.WF) (h : j ≠ inst) :
    (r.examine E now exPos inst s).2.2.om.corrections j = s.om.corrections j := by
  by_cases hheals : r.HealsAt exPos s.om inst
  · rw [examine_om_of_heals hheals]
    exact submit_corrections_of_not (s := (healSubmit E exPos inst s).1) hwf
      fun hcorrects => h hcorrects.2.symm
  · rw [examine_om_of_not_heals hheals]

/-- Examining an instrument does not decide whether the heal of another one is due. -/
theorem healsAt_examine (h : j ≠ inst) : (r.examine E now exPos inst s).2.1.HealsAt exPos
    (r.examine E now exPos inst s).2.2.om j ↔ r.HealsAt exPos s.om j := by
  unfold HealsAt
  rw [driftOf_examine, examine_cfg, examine_persist_of_ne h]

/-- No corrective order for an instrument is at work. -/
abbrev Uncorrected (s : State W) (inst : InstrumentId) : Prop := ¬ (s.om.corrections inst).Nonempty

/-- **The heals of a loop do not affect each other**: none of them finds a correction at work
exactly if none was at work before, for the instruments the loop gets to and heals. -/
theorem atHeals_iff {insts : List InstrumentId} (hsorted : insts.Pairwise (· < ·))
    (hwf : s.om.WF) : AtHeals E now exPos Uncorrected insts r s ↔
      ∀ j ∈ insts, (∀ i ∈ insts, i < j → ¬ r.HaltsAt exPos s.om i) →
        r.HealsAt exPos s.om j → Uncorrected s j := by
  induction insts generalizing r s with
  | nil => simp [AtHeals]
  | cons inst insts ih =>
    obtain ⟨hlt, hsorted'⟩ := List.pairwise_cons.1 hsorted
    have hne : ∀ j ∈ insts, j ≠ inst := fun j hj heq => absurd (hlt j hj) (by simp [heq])
    -- what the rest of the loop finds is what was there before the first instrument
    have hrest : AtHeals E now exPos Uncorrected insts (r.examine E now exPos inst s).2.1
        (r.examine E now exPos inst s).2.2 ↔ ∀ j ∈ insts,
          (∀ i ∈ insts, i < j → ¬ r.HaltsAt exPos s.om i) → r.HealsAt exPos s.om j →
            Uncorrected s j := by
      rw [ih hsorted' (examine_wf hwf)]
      refine forall₂_congr fun j hj => ?_
      unfold Uncorrected
      rw [healsAt_examine (hne j hj), examine_corrections hwf (hne j hj)]
      refine imp_congr_left (forall₂_congr fun i hi => ?_)
      rw [haltsAt_examine (hne i hi)]
    unfold AtHeals
    rw [hrest]
    constructor
    · rintro ⟨hfirst, hlater⟩ j hj hgo hheals
      rcases List.mem_cons.1 hj with rfl | hj'
      · exact hfirst hheals
      · refine hlater (hgo inst List.mem_cons_self (hlt j hj')) j hj' (fun i hi => ?_) hheals
        exact hgo i (List.mem_cons_of_mem _ hi)
    · intro hall
      refine ⟨fun hheals => ?_, fun hgo j hj hgo' hheals => ?_⟩
      · refine hall inst List.mem_cons_self (fun i hi hbefore => ?_) hheals
        rcases List.mem_cons.1 hi with rfl | hi'
        · exact absurd hbefore (by simp)
        · exact absurd hbefore (UInt16.lt_asymm (hlt i hi'))
      · refine hall j (List.mem_cons_of_mem _ hj) (fun i hi hbefore => ?_) hheals
        rcases List.mem_cons.1 hi with rfl | hi'
        · exact hgo
        · exact hgo' i hi' hbefore

theorem eachHeal_iff (hwf : s.om.WF) : EachHeal E now (fun _ => Uncorrected) r s ↔
    ∀ inst, r.Visits E s inst → r.HealsAt (snapshot E s.world).1 s.om inst →
      Uncorrected s inst := by
  unfold EachHeal Visits
  dsimp only
  rw [atHeals_iff (s := { s with world := (snapshot E s.world).2 })
    (Finset.pairwise_lt_ascending _) hwf]
  simp only [Finset.mem_ascending]
  constructor
  · rintro h inst ⟨hon, hmem, hgo⟩
    exact h hon inst hmem hgo
  · intro h hon inst hmem hgo
    exact h inst ⟨hon, hmem, hgo⟩

/-- A heal that finds no correction at work leaves one at work at most. -/
theorem examine_subsingleton (hwf : s.om.WF)
    (hone : ∀ j, (s.om.corrections j).Subsingleton)
    (h : r.HealsAt exPos s.om inst → Uncorrected s inst) (j : InstrumentId) :
    ((r.examine E now exPos inst s).2.2.om.corrections j).Subsingleton := by
  by_cases hj : j = inst
  · subst hj
    by_cases hheals : r.HealsAt exPos s.om j
    · rw [examine_om_of_heals hheals]
      exact (submit_subsingleton_iff (s := (healSubmit E exPos j s).1) hwf (hone j)).2
        fun _ hsome => absurd hsome (h hheals)
    · rw [examine_om_of_not_heals hheals]
      exact hone j
  · rw [examine_corrections hwf hj]
    exact hone j

theorem examineAll_subsingleton {insts : List InstrumentId} (hwf : s.om.WF)
    (hone : ∀ j, (s.om.corrections j).Subsingleton)
    (h : AtHeals E now exPos Uncorrected insts r s) (j : InstrumentId) :
    ((examineAll E now exPos insts r s).2.2.om.corrections j).Subsingleton := by
  induction insts generalizing r s with
  | nil => exact hone j
  | cons inst insts ih =>
    have hfirst (i : InstrumentId) :
        ((r.examine E now exPos inst s).2.2.om.corrections i).Subsingleton :=
      examine_subsingleton hwf hone h.1 i
    unfold examineAll
    dsimp only
    split_ifs with hhalted
    · exact hfirst j
    · exact ih (examine_wf hwf) hfirst (h.2 (mt examine_halted_iff.2 hhalted))

theorem reconcile_subsingleton (hwf : s.om.WF) (hone : ∀ j, (s.om.corrections j).Subsingleton)
    (h : EachHeal E now (fun _ => Uncorrected) r s) (j : InstrumentId) :
    ((r.reconcile E now s).2.2.om.corrections j).Subsingleton := by
  unfold reconcile
  split_ifs with hhalted
  · exact hone j
  · exact examineAll_subsingleton (s := { s with world := (snapshot E s.world).2 }) hwf hone
      (h (by simpa using hhalted)) j

end Cycle

end PeriodicReconciler

/-! ### Runs -/

section Runs

open PeriodicReconciler

variable {W : Type}

/-- No heal of a step finds a corrective order for its instrument at work. -/
def HealsUndoubled (E : Env W) (x : ReconState W) : ReconOp W → Prop
  | .reconcile now => EachHeal E now (fun _ => Uncorrected) x.recon x.sys
  | _ => True

/-- Where a corrective order works, no heal is due in an instrument that the cycle gets to, and no
corrective order of another caller is accepted. -/
def AwaitsCorrection (E : Env W) (x : ReconState W) : ReconOp W → Prop
  | .reconcile _ => ∀ inst, (x.sys.om.corrections inst).Nonempty → x.recon.Visits E x.sys inst →
      ¬ x.recon.HealsAt (snapshot E x.sys.world).1 x.sys.om inst
  | .oms (.submit req) => req.reconciliation = true →
      (x.sys.om.corrections req.instrument).Nonempty → ¬ Accepts E x.sys req
  | _ => True

/-- At most one corrective order works for each instrument. -/
def OneCorrection (x : ReconState W) : Prop :=
  ∀ inst, (x.sys.om.corrections inst).Subsingleton

variable {E : Env W}

/-- **One step.** -/
theorem oneCorrection_step_iff {x : ReconState W} (hwf : x.sys.om.WF) (hone : OneCorrection x)
    (op : ReconOp W) : HealsUndoubled E x op ∧ OneCorrection ((reconMachine E).step x op) ↔
      AwaitsCorrection E x op := by
  cases op with
  | reconcile now =>
    have hswap : HealsUndoubled E x (.reconcile now) ↔ AwaitsCorrection E x (.reconcile now) :=
      (eachHeal_iff hwf).trans
        ⟨fun h inst hsome hvisits hheals => h inst hvisits hheals hsome,
          fun h inst hvisits hheals hsome => h inst hsome hvisits hheals⟩
    rw [← hswap]
    exact and_iff_left_of_imp fun h => reconcile_subsingleton hwf hone h
  | oms op =>
    refine (and_iff_right trivial).trans ?_
    have hother (hop : ∀ req, op ≠ .submit req) :
        OneCorrection ((reconMachine E).step x (.oms op)) :=
      fun inst => (hone inst).anti (step_corrections hop)
    cases op with
    | submit req =>
      show (∀ inst, ((x.sys.submit E req).2.om.corrections inst).Subsingleton) ↔ _
      simp only [submit_subsingleton_iff hwf (hone _)]
      constructor
      · exact fun h hrecon => h req.instrument ⟨hrecon, rfl⟩
      · rintro h inst ⟨hrecon, rfl⟩
        exact h hrecon
    | _ => exact iff_of_true (hother (by simp)) trivial
  | world w => exact iff_of_true ⟨trivial, hone⟩ trivial
  | rearm => exact iff_of_true ⟨trivial, hone⟩ trivial

/-- **No correction is doubled exactly as long as no heal is due where one works.** In every run of
cycles and of whatever else happens to the manager and the venues, no heal finds a corrective order
for its instrument at work, and at most one works in each state, exactly if no cycle gets to an
instrument with a working one while its heal is due, and no other caller's is accepted there. -/
theorem one_correction_iff (E : Env W) (capacity : PoolCapacity) (w : W) (r : PeriodicReconciler W)
    (ops : List (ReconOp W)) :
    let M := reconMachine E
    let x : ReconState W := ⟨⟨.init capacity, w⟩, r⟩
    (M.Admits (HealsUndoubled E) x ops ∧ ∀ pre, pre <+: ops → OneCorrection (M.run x pre)) ↔
      M.Admits (AwaitsCorrection E) x ops := by
  intro M x
  refine Machine.admits_and_forall_prefix_iff
    (I := fun x => x.sys.om.WF ∧ OneCorrection x) (fun _ h => h.2) ?_ ?_ ⟨wf_init capacity, ?_⟩ ops
  · rintro x op ⟨hwf, hone⟩ hawaits
    exact ⟨reconMachine_wf hwf op, ((oneCorrection_step_iff hwf hone op).2 hawaits).2⟩
  · rintro x op ⟨hwf, hone⟩
    exact oneCorrection_step_iff hwf hone op
  · rintro inst slot ⟨hw, -⟩
    exact Bool.noConfusion hw.1

/-- Four cycles at a venue that holds five of an instrument and fills nothing. -/
def unfilledRun : ReconState Holdings :=
  (reconMachine mirrorEnv).run ⟨fiveHeld, { cfg := healing }⟩
    [.reconcile 0, .reconcile 1, .reconcile 2]

/-- **The fourth cycle corrects the same five again**, while the first corrective order works. -/
theorem unfilled_correction_doubled :
    let x := unfilledRun
    let x' := (reconMachine mirrorEnv).step x (.reconcile 3)
    0 ∈ x.sys.om.corrections 3 ∧
      ⟨3, 5, 0, 5, .AutoHealed, 3⟩ ∈ (x.recon.reconcile mirrorEnv 3 x.sys).1 ∧
      0 ∈ x'.sys.om.corrections 3 ∧ 1 ∈ x'.sys.om.corrections 3 ∧
      x'.sys.om.pendingQuantity 3 = 10 ∧ ¬ HealsUndoubled mirrorEnv x (.reconcile 3) := by
  intro x x'
  have hwf : x.sys.om.WF := reconMachine_run_wf (wf_init twoSlots) _
  have hworks : 0 ∈ x.sys.om.corrections 3 := mem_corrections.2 ⟨by decide, by decide, by decide⟩
  have hfirst : 0 ∈ x'.sys.om.corrections 3 := mem_corrections.2 ⟨by decide, by decide, by decide⟩
  have hagain : 1 ∈ x'.sys.om.corrections 3 := mem_corrections.2 ⟨by decide, by decide, by decide⟩
  have honly : (snapshot mirrorEnv x.sys.world).1.keys ∪ x.sys.om.instruments = {3} := by decide
  refine ⟨hworks, by decide, hfirst, hagain, by decide, fun h => ?_⟩
  refine (eachHeal_iff hwf).1 h 3 ⟨rfl, by decide, fun j hj hbefore => ?_⟩
    ⟨by decide, by decide, by decide⟩ ⟨0, hworks⟩
  rw [honly, Finset.mem_singleton] at hj
  exact absurd hbefore (by simp [hj])

end Runs

end Oms
