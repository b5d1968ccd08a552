import Oms.OrderManager.Traded
import Oms.Reconciliation

/-!
# What a cycle of the reconciler sees

* `reconcile_drift`: a record holds what the venues report less the net position;
* `reconcile_turns`: a cycle submits corrective orders, and does nothing else to the manager;
* `reconcile_chain`, `reconcile_position`: it books orders at most, and trades nothing;
* `correctiveRequest_signed`: a corrective order is as large as the drift, in its direction;
* `reconcile_halts`, `reconcile_halted`: a recorded halt sticks, and no cycle follows it.
-/

namespace Oms

open OrderManager

namespace PeriodicReconciler

variable {W : Type} {E : Env W} {r : PeriodicReconciler W} {s : State W} {now : Timestamp}
  {exPos : Holdings} {inst : InstrumentId}

/-! ### Records -/

/-- A record compares the two sides for its instrument. -/
theorem examine_record : ∃ action,
    (r.examine E now exPos inst s).1 = compare now exPos inst s.om action := by
  unfold examine
  dsimp only
  split_ifs <;> exact ⟨_, rfl⟩

/-- Healing submits an order, and does nothing else to the manager. -/
theorem autoHeal_om (ex oms : Quantity) : ∃ req w,
    (r.autoHeal E inst ex oms s).2.om = (State.submit E req { s with world := w }).2.om :=
  ⟨_, _, rfl⟩

/-- Examining an instrument leaves the manager alone, or submits one order. -/
theorem examine_om : (r.examine E now exPos inst s).2.2.om = s.om ∨
    ∃ req w, (r.examine E now exPos inst s).2.2.om =
      (State.submit E req { s with world := w }).2.om := by
  unfold examine
  dsimp only
  split_ifs
  · exact Or.inl rfl
  · exact Or.inl rfl
  · exact Or.inl rfl
  · exact Or.inr (autoHeal_om _ _)
  · exact Or.inl rfl

/-! ### What a cycle does to the manager -/

section Turns

variable {P : Policy} (hmoves : P.moves)
  (hreq : ∀ inst drift price, P.request (correctiveRequest inst drift price))
include hmoves hreq

theorem examine_turns : Turns P s.om (r.examine E now exPos inst s).2.2.om := by
  unfold examine
  dsimp only
  split_ifs
  · exact .refl
  · exact .refl
  · exact .refl
  · exact submit_turns (s := { s with world := (correctivePrice E inst s.world).2 }) hmoves
      (hreq _ _ _)
  · exact .refl

theorem examineAll_turns (insts : List InstrumentId) :
    Turns P s.om (examineAll E now exPos insts r s).2.2.om := by
  induction insts generalizing r s with
  | nil => exact .refl
  | cons inst insts ih =>
    have hturns : Turns P s.om (r.examine E now exPos inst s).2.2.om := examine_turns hmoves hreq
    unfold examineAll
    dsimp only
    split_ifs
    · exact hturns
    · exact hturns.trans ih

/-- A cycle submits corrective orders, and nothing else touches the manager. -/
theorem reconcile_turns : Turns P s.om (r.reconcile E now s).2.2.om := by
  unfold reconcile
  split_ifs
  · exact .refl
  · exact examineAll_turns (s := { s with world := (snapshot E s.world).2 }) hmoves hreq _

end Turns

theorem examine_chain (hwf : s.om.WF) :
    Chain unfilled s.om (r.examine E now exPos inst s).2.2.om :=
  (examine_turns trivial fun _ _ _ => trivial).chain hwf

/-- A cycle books orders, and fills none. -/
theorem reconcile_chain (hwf : s.om.WF) :
    Chain unfilled s.om (r.reconcile E now s).2.2.om :=
  (reconcile_turns trivial fun _ _ _ => trivial).chain hwf

theorem reconcile_wf (hwf : s.om.WF) : (r.reconcile E now s).2.2.om.WF :=
  Change.wf_of_chain (reconcile_chain hwf) hwf

/-- A cycle leaves every position alone. -/
theorem reconcile_position (hwf : s.om.WF) (inst : InstrumentId) :
    (r.reconcile E now s).2.2.om.position inst = s.om.position inst :=
  (reconcile_chain hwf).position hwf (fun _ _ _ => id) inst

/-- The records of a cycle compare the snapshot with the positions at its start. -/
theorem examineAll_drift (insts : List InstrumentId) (hwf : s.om.WF) :
    ∀ record ∈ (examineAll E now exPos insts r s).1,
      record.drift = exPos.get record.inst - (s.om.position record.inst).net := by
  induction insts generalizing r s with
  | nil => exact fun _ h => absurd h List.not_mem_nil
  | cons inst insts ih =>
    obtain ⟨action, hrecord⟩ := examine_record (E := E) (r := r) (s := s)
    have hchain : Chain unfilled s.om (r.examine E now exPos inst s).2.2.om := examine_chain hwf
    have hfirst : (r.examine E now exPos inst s).1.drift =
        exPos.get (r.examine E now exPos inst s).1.inst -
          (s.om.position (r.examine E now exPos inst s).1.inst).net := by
      rw [hrecord]
      rfl
    unfold examineAll
    dsimp only
    intro record hmem
    split_ifs at hmem
    · rw [List.mem_singleton] at hmem
      rw [hmem]
      exact hfirst
    · rcases List.mem_cons.1 hmem with rfl | hmem
      · exact hfirst
      · -- the orders booked before moved no position
        rw [← hchain.position hwf (fun _ _ _ => id)]
        exact ih (Change.wf_of_chain hchain hwf) record hmem

/-- A record holds what the venues report less the net position. -/
theorem reconcile_drift (hwf : s.om.WF) : ∀ record ∈ (r.reconcile E now s).1,
    record.drift = (snapshot E s.world).1.get record.inst - (s.om.position record.inst).net := by
  unfold reconcile
  split_ifs
  · exact fun _ h => absurd h List.not_mem_nil
  · exact examineAll_drift (s := { s with world := (snapshot E s.world).2 }) _ hwf

/-- The corrective order for a drift is as large as the drift, in its direction. -/
theorem correctiveRequest_signed (inst : InstrumentId) (drift : Quantity) (price : Price) :
    signedQty (correctiveRequest inst drift price).side (correctiveRequest inst drift price).size =
      drift := by
  show signedQty (if 0 < drift then .Buy else .Sell) (if drift < 0 then -drift else drift) = drift
  split_ifs with hpos hneg hneg
  · exact absurd hneg (not_lt.2 hpos.le)
  · rfl
  · exact neg_neg drift
  · have hzero : drift = 0 := le_antisymm (not_lt.1 hpos) (not_lt.1 hneg)
    rw [hzero]
    rfl

/-- A halted reconciler stays as it is. -/
theorem reconcile_halted {x : ReconState W} (hhalted : x.recon.halted = true) (now : Timestamp) :
    (reconMachine E).step x (.reconcile now) = x := by
  show ReconState.mk (x.recon.reconcile E now x.sys).2.2 (x.recon.reconcile E now x.sys).2.1 = x
  unfold reconcile
  rw [if_pos hhalted]

/-- A cycle that records a halt leaves the reconciler halted. -/
theorem examineAll_halted (insts : List InstrumentId)
    (h : ∃ record ∈ (examineAll E now exPos insts r s).1, record.action = .Halted) :
    (examineAll E now exPos insts r s).2.1.halted = true := by
  induction insts generalizing r s with
  | nil => exact absurd h.choose_spec.1 List.not_mem_nil
  | cons inst insts ih =>
    have hfirst : (r.examine E now exPos inst s).1.action = .Halted →
        (r.examine E now exPos inst s).2.1.halted = true := by
      unfold examine
      dsimp only
      split_ifs
      · simp [compare]
      · simp [compare]
      · simp [compare]
      · simp [compare]
      · exact fun _ => rfl
    unfold examineAll at h ⊢
    dsimp only at h ⊢
    split_ifs at h ⊢ with haction
    · exact hfirst haction
    · obtain ⟨record, hmem, hhalt⟩ := h
      rcases List.mem_cons.1 hmem with rfl | hmem
      · exact absurd hhalt haction
      · exact ih ⟨record, hmem, hhalt⟩

theorem reconcile_halts (h : ∃ record ∈ (r.reconcile E now s).1, record.action = .Halted) :
    (r.reconcile E now s).2.1.halted = true := by
  unfold reconcile at h ⊢
  split_ifs at h ⊢ with hhalted
  · exact absurd h.choose_spec.1 List.not_mem_nil
  · exact examineAll_halted _ h

end PeriodicReconciler

end Oms
