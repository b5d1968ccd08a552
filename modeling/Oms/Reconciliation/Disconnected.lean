import Mathlib.Algebra.BigOperators.Group.Finset.Piecewise
import Mathlib.Tactic.Linarith
import Oms.Reconciliation.Cycle

/-!
# Drift that is only a venue out of sight

The snapshot of a cycle adds up the connected venues. What a disconnected venue holds is missing
from it, and looks like drift.

* `Settled`: venues whose positions and connectivity stay what they are;
* `Quiet`, `examineAll_cases`: a cycle counts what persists, or it acts;
* `disconnected_drift_iff`: cycles never act exactly if what is out of sight is within the
  threshold on every instrument they compare;
* `disconnected_venue_heals`: a position at a disconnected venue is traded away.
-/

namespace Oms

open OrderManager

/-! ### The snapshot -/

/-- Venues that report `pos` and are as connected as `conn` says, in every world of `I`, which
reading them and logging do not leave. -/
structure Settled {W : Type} (E : Env W) (log : LogLevel → String → W → W) (I : W → Prop)
    (conn : VenueId → Bool) (pos : VenueId → Holdings) : Prop where
  log : ∀ level line w, I w → I (log level line w)
  isConnected : ∀ v ex, E.registry.get v = some ex → ∀ w, I w → ex.isConnected w = conn v
  getPositions : ∀ v ex, E.registry.get v = some ex → conn v = true → ∀ w, I w →
    (ex.getPositions w).1 = pos v ∧ I (ex.getPositions w).2

/-- A venue is registered and selected. -/
def picks {W : Type} (E : Env W) (select : VenueId → Bool) (v : VenueId) : Bool :=
  (E.registry.get v).isSome && select v

/-- What the registered venues of a selection hold of an instrument. -/
def heldBy {W : Type} (E : Env W) (pos : VenueId → Holdings) (select : VenueId → Bool)
    (inst : InstrumentId) : Quantity :=
  (E.registry.venues.map fun v => if picks E select v then (pos v).get inst else 0).sum

/-- The instruments a cycle compares: those the manager tracks, and those that a connected venue
reports. -/
def Watched {W : Type} (E : Env W) (conn : VenueId → Bool) (pos : VenueId → Holdings)
    (om : OrderManager) (inst : InstrumentId) : Prop :=
  inst ∈ om.positions ∨
    ∃ v ∈ E.registry.venues, picks E conn v = true ∧ inst ∈ pos v

section Snapshot

variable {W : Type} {E : Env W} {log : LogLevel → String → W → W} {I : W → Prop}
  {conn : VenueId → Bool} {pos : VenueId → Holdings}

theorem Holdings.get_addAll (total held : Holdings) (inst : InstrumentId) :
    (total.addAll held).get inst = total.get inst + held.get inst := by
  unfold addAll
  rw [Finmap.get_foldl_adjust (fun inst => inst), Finset.sum_map_ascending, Finset.sum_ite_eq]
  split_ifs with hmem
  · rfl
  · rw [Finmap.get, Finmap.get, Finmap.lookup_eq_none.2 fun h => hmem (Finmap.mem_keys.2 h)]
    rfl

theorem Holdings.mem_addAll (total held : Holdings) (inst : InstrumentId) :
    inst ∈ total.addAll held ↔ inst ∈ total ∨ inst ∈ held := by
  unfold addAll
  rw [Finmap.mem_foldl_adjust (fun inst => inst), List.map_id', Finset.mem_ascending,
    Finmap.mem_keys]

/-- What is held is held in sight or out of sight. -/
theorem heldBy_split (inst : InstrumentId) : heldBy E pos (fun _ => true) inst =
    heldBy E pos conn inst + heldBy E pos (fun v => !conn v) inst := by
  have hsplit : ∀ (a b : Bool) (q : Quantity), (if (a && true) = true then q else 0) =
      (if (a && b) = true then q else 0) + if (a && !b) = true then q else 0 := by
    intro a b q
    cases a <;> cases b <;> simp
  unfold heldBy
  rw [← List.sum_map_add]
  congr 2
  funext v
  exact hsplit _ _ _

/-- A venue in sight is added. -/
theorem snapshotVenue_settled (h : Settled E log I conn pos) {w : W} (hw : I w)
    (total : Holdings) (v : VenueId) : ∃ w', I w' ∧ snapshotVenue E (total, w) v =
      (if picks E conn v then total.addAll (pos v) else total, w') := by
  unfold snapshotVenue picks
  cases hex : E.registry.get v with
  | none => exact ⟨w, hw, rfl⟩
  | some ex =>
    dsimp only
    rw [h.isConnected v ex hex w hw]
    cases hconn : conn v with
    | false => exact ⟨w, hw, rfl⟩
    | true =>
      obtain ⟨hpos, hI⟩ := h.getPositions v ex hex hconn w hw
      exact ⟨_, hI, by rw [← hpos]; rfl⟩

theorem foldl_snapshotVenue (h : Settled E log I conn pos) (venues : List VenueId)
    (total : Holdings) {w : W} (hw : I w) :
    let s := venues.foldl (snapshotVenue E) (total, w)
    I s.2 ∧ ∀ inst,
      s.1.get inst =
        total.get inst + (venues.map fun v => if picks E conn v then (pos v).get inst else 0).sum ∧
      (inst ∈ s.1 ↔ inst ∈ total ∨ ∃ v ∈ venues, picks E conn v = true ∧ inst ∈ pos v) := by
  induction venues generalizing total w with
  | nil => exact ⟨hw, fun inst => ⟨(add_zero _).symm, by simp⟩⟩
  | cons v venues ih =>
    obtain ⟨w', hw', hstep⟩ := snapshotVenue_settled h hw total v
    rw [List.foldl_cons, hstep]
    obtain ⟨hI, hall⟩ := ih (if picks E conn v then total.addAll (pos v) else total) hw'
    refine ⟨hI, fun inst => ⟨?_, ?_⟩⟩
    · rw [(hall inst).1, List.map_cons, List.sum_cons, ← add_assoc]
      congr 1
      split_ifs
      · exact Holdings.get_addAll _ _ _
      · exact (add_zero _).symm
    · rw [(hall inst).2]
      by_cases hpick : picks E conn v = true
      · rw [if_pos hpick, Holdings.mem_addAll]
        simp [hpick, or_assoc]
      · rw [if_neg hpick]
        simp [hpick]

/-- The snapshot adds up the venues in sight. -/
theorem snapshot_settled (h : Settled E log I conn pos) {w : W} (hw : I w) :
    I (snapshot E w).2 ∧ ∀ inst, (snapshot E w).1.get inst = heldBy E pos conn inst ∧
      (inst ∈ (snapshot E w).1 ↔
        ∃ v ∈ E.registry.venues, picks E conn v = true ∧ inst ∈ pos v) := by
  obtain ⟨hI, hall⟩ := foldl_snapshotVenue h E.registry.venues ∅ hw
  refine ⟨hI, fun inst => ⟨?_, ?_⟩⟩
  · exact (hall inst).1.trans (by rw [Finmap.get_empty, zero_add]; rfl)
  · exact (hall inst).2.trans (or_iff_right Finmap.notMem_empty)

end Snapshot

/-! ### A cycle -/

namespace PeriodicReconciler

variable {W : Type} {E : Env W} {r r' : PeriodicReconciler W} {s s' : State W} {now : Timestamp}
  {exPos : Holdings} {inst : InstrumentId} {insts : List InstrumentId}

/-- The drift of an instrument against a snapshot. -/
def driftOf (exPos : Holdings) (om : OrderManager) (inst : InstrumentId) : Quantity :=
  exPos.get inst - (om.position inst).net

/-- A pass over some instruments that did nothing about what it saw: it counted the drifts that
persist, and forgot the others. -/
structure Quiet (exPos : Holdings) (insts : List InstrumentId) (r r' : PeriodicReconciler W)
    (s s' : State W) : Prop where
  correctiveOrders : r'.correctiveOrders = r.correctiveOrders
  halts : r'.halts = r.halts
  halted : r'.halted = r.halted
  cfg : r'.cfg = r.cfg
  log : r'.log = r.log
  om : s'.om = s.om
  world : ∀ I : W → Prop, (∀ level line w, I w → I (r.log level line w)) → I s.world → I s'.world
  pending : ∀ inst ∈ insts, |driftOf exPos s.om inst| ≤ r.cfg.reconcileThreshold ∨
    r.persist.get inst + 1 < r.cfg.persistCycles
  persist : ∀ inst, r'.persist.get inst =
    if inst ∈ insts then
      if |driftOf exPos s.om inst| ≤ r.cfg.reconcileThreshold then 0 else r.persist.get inst + 1
    else r.persist.get inst

/-- A pass that emitted a corrective order, or halted. -/
def Acted (r r' : PeriodicReconciler W) : Prop :=
  r.correctiveOrders < r'.correctiveOrders ∨ r.halts < r'.halts

/-- Corrective orders and halts are only ever added. -/
structure Grows (r r' : PeriodicReconciler W) : Prop where
  correctiveOrders : r.correctiveOrders ≤ r'.correctiveOrders
  halts : r.halts ≤ r'.halts

theorem Grows.trans {r'' : PeriodicReconciler W} (h : Grows r r') (h' : Grows r' r'') :
    Grows r r'' :=
  ⟨h.correctiveOrders.trans h'.correctiveOrders, h.halts.trans h'.halts⟩

theorem Acted.grows {r'' : PeriodicReconciler W} (h : Acted r r') (h' : Grows r' r'') :
    Acted r r'' :=
  h.imp (fun hlt => hlt.trans_le h'.correctiveOrders) fun hlt => hlt.trans_le h'.halts

theorem examine_grows : Grows r (r.examine E now exPos inst s).2.1 := by
  unfold examine
  dsimp only
  split_ifs
  · exact ⟨le_refl _, le_refl _⟩
  · exact ⟨le_refl _, le_refl _⟩
  · exact ⟨le_refl _, le_refl _⟩
  · exact ⟨Nat.le_succ _, le_refl _⟩
  · exact ⟨le_refl _, Nat.le_succ _⟩

theorem examineAll_grows (insts : List InstrumentId) :
    Grows r (examineAll E now exPos insts r s).2.1 := by
  induction insts generalizing r s with
  | nil => exact ⟨le_refl _, le_refl _⟩
  | cons inst insts ih =>
    have hfirst : Grows r (r.examine E now exPos inst s).2.1 := examine_grows
    unfold examineAll
    dsimp only
    split_ifs
    · exact hfirst
    · exact hfirst.trans ih

/-- Forgetting or counting a drift is quiet. -/
theorem quiet_insert {c : ℤ} (hs : s'.om = s.om)
    (hworld : s'.world = s.world ∨ ∃ level line, s'.world = r.log level line s.world)
    (hpending : |driftOf exPos s.om inst| ≤ r.cfg.reconcileThreshold ∨
      r.persist.get inst + 1 < r.cfg.persistCycles)
    (hc : c = if |driftOf exPos s.om inst| ≤ r.cfg.reconcileThreshold then 0
      else r.persist.get inst + 1) :
    Quiet exPos [inst] r { r with persist := r.persist.insert inst c } s s' where
  correctiveOrders := rfl
  halts := rfl
  halted := rfl
  cfg := rfl
  log := rfl
  om := hs
  world := by
    intro I hlog hI
    rcases hworld with heq | ⟨level, line, heq⟩
    · rw [heq]
      exact hI
    · rw [heq]
      exact hlog _ _ _ hI
  pending := by
    intro k hk
    rw [List.mem_singleton] at hk
    rw [hk]
    exact hpending
  persist := by
    intro k
    dsimp only
    rw [Finmap.get_insert]
    by_cases hk : k = inst
    · rw [if_pos hk, if_pos (List.mem_singleton.2 hk), hk]
      exact hc
    · rw [if_neg hk, if_neg (mt List.mem_singleton.1 hk)]

/-- One instrument is passed over quietly, or its drift was beyond the threshold and it is acted
upon. -/
theorem examine_cases (E : Env W) (now : Timestamp) (exPos : Holdings)
    (inst : InstrumentId) (r : PeriodicReconciler W) (s : State W) :
    (r.examine E now exPos inst s).1.action ≠ .Halted ∧
        Quiet exPos [inst] r (r.examine E now exPos inst s).2.1 s
          (r.examine E now exPos inst s).2.2 ∨
      Acted r (r.examine E now exPos inst s).2.1 ∧
        r.cfg.reconcileThreshold < |driftOf exPos s.om inst| := by
  unfold examine
  dsimp only
  rw [magnitude_eq_abs]
  split_ifs with hin hzero hwait hband
  · refine Or.inl ⟨by simp [compare], ?_⟩
    exact quiet_insert rfl (Or.inr ⟨_, _, rfl⟩) (Or.inl hin) (if_pos hin).symm
  · refine Or.inl ⟨by simp [compare], ?_⟩
    exact quiet_insert rfl (Or.inl rfl) (Or.inl hin) (if_pos hin).symm
  · refine Or.inl ⟨by simp [compare], ?_⟩
    exact quiet_insert rfl (Or.inr ⟨_, _, rfl⟩) (Or.inr hwait) (if_neg hin).symm
  · exact Or.inr ⟨Or.inl (Nat.lt_succ_self _), not_le.1 hin⟩
  · exact Or.inr ⟨Or.inr (Nat.lt_succ_self _), not_le.1 hin⟩

/-- Quiet passes compose, as long as they are over different instruments. -/
theorem Quiet.cons {r'' : PeriodicReconciler W} {s'' : State W} (h : Quiet exPos [inst] r r' s s')
    (h' : Quiet exPos insts r' r'' s' s'') (hnot : inst ∉ insts) :
    Quiet exPos (inst :: insts) r r'' s s'' where
  correctiveOrders := h'.correctiveOrders.trans h.correctiveOrders
  halts := h'.halts.trans h.halts
  halted := h'.halted.trans h.halted
  cfg := h'.cfg.trans h.cfg
  log := h'.log.trans h.log
  om := h'.om.trans h.om
  world := fun I hlog hI => h'.world I (by rw [h.log]; exact hlog) (h.world I hlog hI)
  pending := by
    intro k hk
    rcases List.mem_cons.1 hk with rfl | hk
    · exact h.pending k List.mem_cons_self
    · have hrest := h'.pending k hk
      have hne : k ∉ [inst] := fun hmem => hnot (List.mem_singleton.1 hmem ▸ hk)
      rw [h.om, h.cfg, h.persist, if_neg hne] at hrest
      exact hrest
  persist := by
    intro k
    rw [h'.persist, h.om, h.cfg, h.persist]
    by_cases hk : k = inst
    · subst hk
      rw [if_neg hnot, if_pos List.mem_cons_self, if_pos List.mem_cons_self]
    · rw [if_neg (mt List.mem_singleton.1 hk)]
      exact if_congr (by simp [hk]) rfl rfl

/-- A pass over some instruments is quiet, or it acted on a drift beyond the threshold. -/
theorem examineAll_cases (E : Env W) (now : Timestamp) (exPos : Holdings)
    (hnodup : insts.Nodup) (r : PeriodicReconciler W) (s : State W) :
    Quiet exPos insts r (examineAll E now exPos insts r s).2.1 s
        (examineAll E now exPos insts r s).2.2 ∨
      Acted r (examineAll E now exPos insts r s).2.1 ∧
        ∃ inst ∈ insts, r.cfg.reconcileThreshold < |driftOf exPos s.om inst| := by
  induction insts generalizing r s with
  | nil =>
    refine Or.inl ⟨rfl, rfl, rfl, rfl, rfl, rfl, fun _ _ hI => hI, nofun, fun k => ?_⟩
    rw [if_neg List.not_mem_nil]
    rfl
  | cons inst insts ih =>
    obtain ⟨hnot, hnodup'⟩ := List.nodup_cons.1 hnodup
    have hgrows : Grows (r.examine E now exPos inst s).2.1
        (examineAll E now exPos insts (r.examine E now exPos inst s).2.1
          (r.examine E now exPos inst s).2.2).2.1 := examineAll_grows insts
    unfold examineAll
    dsimp only
    rcases examine_cases E now exPos inst r s with ⟨haction, hquiet⟩ | ⟨hacted, hbeyond⟩
    · rw [if_neg haction]
      rcases ih hnodup' _ _ with hrest | ⟨hacted, k, hk, hbeyond⟩
      · exact Or.inl (hquiet.cons hrest hnot)
      · refine Or.inr ⟨?_, k, List.mem_cons_of_mem _ hk, ?_⟩
        · unfold Acted at hacted
          rw [hquiet.correctiveOrders, hquiet.halts] at hacted
          exact hacted
        · rw [hquiet.cfg, hquiet.om] at hbeyond
          exact hbeyond
    · refine Or.inr ⟨?_, inst, List.mem_cons_self, hbeyond⟩
      split_ifs
      · exact hacted
      · exact hacted.grows hgrows

/-! ### Cycles while nothing trades -/

section Cycles

variable {log : LogLevel → String → W → W} {I : W → Prop} {conn : VenueId → Bool}
  {pos : VenueId → Holdings}

/-- What the venues out of sight hold of an instrument. -/
abbrev unseen (E : Env W) (conn : VenueId → Bool) (pos : VenueId → Holdings)
    (inst : InstrumentId) : Quantity :=
  heldBy E pos (fun v => !conn v) inst

/-- Nothing came of the cycles from `x` to `y`. -/
structure Undisturbed (I : W → Prop) (x y : ReconState W) : Prop where
  om : y.sys.om = x.sys.om
  world : I y.sys.world
  cfg : y.recon.cfg = x.recon.cfg
  log : y.recon.log = x.recon.log
  halted : y.recon.halted = x.recon.halted
  correctiveOrders : y.recon.correctiveOrders = x.recon.correctiveOrders
  halts : y.recon.halts = x.recon.halts

/-- With everything in sight accounted for, the drift is what is out of sight. -/
theorem driftOf_snapshot {w : W} {om : OrderManager} (h : Settled E log I conn pos) (hw : I w)
    (htrue : ∀ inst, heldBy E pos (fun _ => true) inst = (om.position inst).net)
    (inst : InstrumentId) :
    driftOf (snapshot E w).1 om inst = -unseen E conn pos inst := by
  have hsplit : heldBy E pos (fun _ => true) inst =
      heldBy E pos conn inst + heldBy E pos (fun v => !conn v) inst := heldBy_split inst
  unfold driftOf unseen
  rw [((snapshot_settled h hw).2 inst).1, ← htrue inst, hsplit]
  ring

/-- A cycle compares the watched instruments. -/
theorem mem_insts {w : W} {om : OrderManager} (h : Settled E log I conn pos) (hw : I w)
    (inst : InstrumentId) :
    inst ∈ ((snapshot E w).1.keys ∪ om.instruments).ascending ↔ Watched E conn pos om inst := by
  rw [Finset.mem_ascending, Finset.mem_union, Finmap.mem_keys, ((snapshot_settled h hw).2 inst).2,
    or_comm]
  exact or_congr Finmap.mem_keys Iff.rfl

/-- A cycle leaves things as they are, and counts the drifts beyond the threshold; or it acts, on
one of these. -/
theorem reconcile_cases {x : ReconState W} (h : Settled E x.recon.log I conn pos)
    (hw : I x.sys.world) (hhalted : x.recon.halted = false)
    (htrue : ∀ inst, heldBy E pos (fun _ => true) inst = (x.sys.om.position inst).net)
    (now : Timestamp) :
    let y := (reconMachine E).step x (.reconcile now)
    Undisturbed I x y ∧ (∀ inst, Watched E conn pos x.sys.om inst →
        x.recon.cfg.reconcileThreshold < |unseen E conn pos inst| →
        x.recon.persist.get inst + 1 < x.recon.cfg.persistCycles ∧
          y.recon.persist.get inst = x.recon.persist.get inst + 1) ∨
      Acted x.recon y.recon ∧ ∃ inst, Watched E conn pos x.sys.om inst ∧
        x.recon.cfg.reconcileThreshold < |unseen E conn pos inst| := by
  obtain ⟨⟨om, w⟩, r⟩ := x
  have hstep : (reconMachine E).step ⟨⟨om, w⟩, r⟩ (.reconcile now) =
      let y := examineAll E now (snapshot E w).1 ((snapshot E w).1.keys ∪ om.instruments).ascending
        r ⟨om, (snapshot E w).2⟩
      ⟨y.2.2, y.2.1⟩ := by
    have hrun : r.reconcile E now ⟨om, w⟩ = examineAll E now (snapshot E w).1
        ((snapshot E w).1.keys ∪ om.instruments).ascending r ⟨om, (snapshot E w).2⟩ := by
      unfold reconcile
      rw [if_neg (Bool.eq_false_iff.1 hhalted)]
    show ReconState.mk (r.reconcile E now ⟨om, w⟩).2.2 (r.reconcile E now ⟨om, w⟩).2.1 = _
    rw [hrun]
  have habs : ∀ inst, |driftOf (snapshot E w).1 om inst| = |unseen E conn pos inst| := by
    intro inst
    rw [driftOf_snapshot h hw htrue inst, abs_neg]
  intro y
  rw [show y = _ from hstep]
  rcases examineAll_cases E now (snapshot E w).1
      (Finset.nodup_ascending ((snapshot E w).1.keys ∪ om.instruments)) r
      ⟨om, (snapshot E w).2⟩ with hquiet | ⟨hacted, inst, hmem, hbeyond⟩
  · refine Or.inl ⟨⟨hquiet.om, ?_, hquiet.cfg, hquiet.log, hquiet.halted, hquiet.correctiveOrders,
      hquiet.halts⟩, fun inst hwatched hbeyond => ?_⟩
    · exact hquiet.world I h.log (snapshot_settled h hw).1
    · have hmem := (mem_insts h hw inst).2 hwatched
      have hnot : ¬ |driftOf (snapshot E w).1 om inst| ≤ r.cfg.reconcileThreshold := by
        rw [habs inst]
        exact not_le.2 hbeyond
      refine ⟨(hquiet.pending inst hmem).resolve_left hnot, ?_⟩
      exact (hquiet.persist inst).trans ((if_pos hmem).trans (if_neg hnot))
  · refine Or.inr ⟨hacted, inst, (mem_insts h hw inst).1 hmem, ?_⟩
    rw [← habs inst]
    exact hbeyond

theorem Undisturbed.refl {x : ReconState W} (hw : I x.sys.world) : Undisturbed I x x :=
  ⟨rfl, hw, rfl, rfl, rfl, rfl, rfl⟩

theorem Undisturbed.trans {x y z : ReconState W} (h : Undisturbed I x y)
    (h' : Undisturbed I y z) : Undisturbed I x z where
  om := h'.om.trans h.om
  world := h'.world
  cfg := h'.cfg.trans h.cfg
  log := h'.log.trans h.log
  halted := h'.halted.trans h.halted
  correctiveOrders := h'.correctiveOrders.trans h.correctiveOrders
  halts := h'.halts.trans h.halts

theorem Undisturbed.settled {x y : ReconState W} (hy : Undisturbed I x y)
    (h : Settled E x.recon.log I conn pos) : Settled E y.recon.log I conn pos := by
  rw [hy.log]
  exact h

end Cycles

end PeriodicReconciler

open PeriodicReconciler

section Runs

variable {W : Type} {E : Env W} {I : W → Prop} {conn : VenueId → Bool} {pos : VenueId → Holdings}
  {x : ReconState W}

/-- With what is out of sight within the threshold, cycles leave things as they are. -/
theorem undisturbed_of_within (h : Settled E x.recon.log I conn pos) (hw : I x.sys.world)
    (hhalted : x.recon.halted = false)
    (htrue : ∀ inst, heldBy E pos (fun _ => true) inst = (x.sys.om.position inst).net)
    (hwithin : ∀ inst, Watched E conn pos x.sys.om inst →
      |unseen E conn pos inst| ≤ x.recon.cfg.reconcileThreshold) (nows : List Timestamp) :
    Undisturbed I x ((reconMachine E).run x (nows.map .reconcile)) := by
  induction nows using List.reverseRecOn with
  | nil => exact .refl hw
  | append_singleton nows now ih =>
    rw [List.map_append, Machine.run_append]
    rcases reconcile_cases (ih.settled h) ih.world (ih.halted.trans hhalted)
        (by rw [ih.om]; exact htrue) now with ⟨hstill, -⟩ | ⟨-, inst, hwatched, hbeyond⟩
    · exact ih.trans hstill
    · rw [ih.om] at hwatched
      rw [ih.cfg] at hbeyond
      exact absurd (hwithin inst hwatched) (not_le.2 hbeyond)

/-- As long as nothing comes of the cycles, a drift beyond the threshold is counted by each. -/
theorem persist_counts (h : Settled E x.recon.log I conn pos) (hw : I x.sys.world)
    (hhalted : x.recon.halted = false)
    (htrue : ∀ inst, heldBy E pos (fun _ => true) inst = (x.sys.om.position inst).net)
    (hnone : ∀ nows : List Timestamp,
      ¬ Acted x.recon ((reconMachine E).run x (nows.map .reconcile)).recon)
    {inst : InstrumentId} (hwatched : Watched E conn pos x.sys.om inst)
    (hbeyond : x.recon.cfg.reconcileThreshold < |unseen E conn pos inst|) (n : ℕ) :
    let y := (reconMachine E).run x ((List.replicate n 0).map .reconcile)
    Undisturbed I x y ∧ y.recon.persist.get inst = x.recon.persist.get inst + n ∧
      (0 < n → x.recon.persist.get inst + n < x.recon.cfg.persistCycles) := by
  induction n with
  | zero => exact ⟨.refl hw, (add_zero _).symm, fun hpos => absurd hpos (lt_irrefl 0)⟩
  | succ n ih =>
    obtain ⟨hsame, hcount, -⟩ := ih
    have hnext := hnone (List.replicate (n + 1) 0)
    rw [List.replicate_succ', List.map_append, Machine.run_append] at hnext ⊢
    rcases reconcile_cases (hsame.settled h) hsame.world (hsame.halted.trans hhalted)
        (by rw [hsame.om]; exact htrue) 0 with ⟨hstill, hpersist⟩ | ⟨hacted, -⟩
    · obtain ⟨hlt, hsucc⟩ := hpersist inst (by rw [hsame.om]; exact hwatched)
        (by rw [hsame.cfg]; exact hbeyond)
      rw [hcount, hsame.cfg, add_assoc] at hlt
      rw [hcount, add_assoc] at hsucc
      exact ⟨hsame.trans hstill, hsucc, fun _ => hlt⟩
    · unfold Acted at hacted
      rw [hsame.correctiveOrders, hsame.halts] at hacted
      exact absurd hacted hnext

/-- **When a venue out of sight is not mistaken for drift.** Take any registered venues, any of
them disconnected, that together hold what the manager holds. Cycles with no fills in between
never emit a corrective order and never halt exactly if, for every instrument they compare, what
the disconnected venues hold is within the threshold, or if the reconciler has halted before. -/
theorem disconnected_drift_iff (E : Env W) (x : ReconState W)
    (h : Settled E x.recon.log I conn pos) (hw : I x.sys.world)
    (htrue : ∀ inst, heldBy E pos (fun _ => true) inst = (x.sys.om.position inst).net) :
    (∀ nows : List Timestamp, let y := (reconMachine E).run x (nows.map .reconcile)
      y.recon.correctiveOrders = x.recon.correctiveOrders ∧ y.recon.halts = x.recon.halts) ↔
    x.recon.halted = true ∨ ∀ inst, Watched E conn pos x.sys.om inst →
      |heldBy E pos (fun v => !conn v) inst| ≤ x.recon.cfg.reconcileThreshold := by
  cases hhalted : x.recon.halted with
  | true =>
    refine iff_of_true (fun nows => ?_) (Or.inl rfl)
    have hstay : (reconMachine E).run x (nows.map .reconcile) = x := by
      induction nows with
      | nil => rfl
      | cons now nows ih =>
        rw [List.map_cons, Machine.run_cons, reconcile_halted hhalted]
        exact ih
    rw [hstay]
    exact ⟨rfl, rfl⟩
  | false =>
    rw [or_iff_right Bool.false_ne_true]
    constructor
    · intro hnone inst hwatched
      by_contra hbeyond
      have hnever : ∀ nows : List Timestamp,
          ¬ Acted x.recon ((reconMachine E).run x (nows.map .reconcile)).recon := by
        intro nows hacted
        unfold Acted at hacted
        rw [(hnone nows).1, (hnone nows).2] at hacted
        exact hacted.elim (lt_irrefl _) (lt_irrefl _)
      -- after this many cycles the drift has persisted long enough
      have hcounts := persist_counts h hw hhalted htrue hnever hwatched (not_le.1 hbeyond)
        ((x.recon.cfg.persistCycles - x.recon.persist.get inst).toNat + 1)
      have hlt := hcounts.2.2 (Nat.succ_pos _)
      push_cast at hlt
      have hle := Int.self_le_toNat (x.recon.cfg.persistCycles - x.recon.persist.get inst)
      linarith
    · intro hwithin nows
      have hstill := undisturbed_of_within h hw hhalted htrue hwithin nows
      exact ⟨hstill.correctiveOrders, hstill.halts⟩

end Runs

/-! ### A position at a disconnected venue -/

/-- The second venue holds ten of instrument 3. -/
def splitHoldings (v : VenueId) : Holdings :=
  if v = 1 then (∅ : Holdings).insert 3 10 else ∅

/-- Only the first venue is connected. -/
def splitConnected (v : VenueId) : Bool := v ≠ 1

def splitClient (v : VenueId) : ExchangeClient Unit :=
  { acceptingClient with
    getPositions := fun w => (splitHoldings v, w)
    isConnected := fun _ => splitConnected v }

def splitEnv : Env Unit :=
  { acceptingEnv with registry := ⟨[some (splitClient 0), some (splitClient 1)]⟩ }

/-- The manager has bought what the second venue holds. -/
def splitRecon (threshold : Quantity) : ReconState Unit where
  sys := (machine splitEnv).run ⟨.init twoSlots, ()⟩
    [.submit { instrument := 3, size := 10, price := 5 }, .fill 1 10 5 9 0]
  recon := { cfg := { reconcileThreshold := threshold, autoHealBand := 100 } }

theorem splitEnv_get {v : VenueId} {ex : ExchangeClient Unit}
    (h : splitEnv.registry.get v = some ex) : ex = splitClient v := by
  change ([some (splitClient 0), some (splitClient 1)][v.toNat]?).join = some ex at h
  match hv : v.toNat with
  | 0 =>
    rw [hv] at h
    rw [show v = 0 from UInt8.toNat.inj hv]
    exact (Option.some.inj h).symm
  | 1 =>
    rw [hv] at h
    rw [show v = 1 from UInt8.toNat.inj hv]
    exact (Option.some.inj h).symm
  | n + 2 =>
    rw [hv] at h
    cases h

theorem splitEnv_settled (log : LogLevel → String → Unit → Unit) :
    Settled splitEnv log (fun _ => True) splitConnected splitHoldings := by
  refine ⟨fun _ _ _ _ => trivial, fun v ex hex w _ => ?_, fun v ex hex _ w _ => ?_⟩
  · rw [splitEnv_get hex]
    rfl
  · rw [splitEnv_get hex]
    exact ⟨rfl, trivial⟩

theorem splitEnv_heldBy (select : VenueId → Bool) (inst : InstrumentId) :
    heldBy splitEnv splitHoldings select inst = if select 1 ∧ inst = 3 then 10 else 0 := by
  have hvenues : splitEnv.registry.venues = [0, 1] := by decide
  have hfirst : (splitHoldings 0).get inst = 0 := Finmap.get_empty inst
  have hsecond : (splitHoldings 1).get inst = if inst = 3 then 10 else 0 := by
    show ((∅ : Holdings).insert 3 10).get inst = _
    rw [Finmap.get_insert, Finmap.get_empty]
  have hpicks : picks splitEnv select 1 = select 1 := rfl
  unfold heldBy
  rw [hvenues]
  simp only [List.map_cons, List.map_nil, List.sum_cons, List.sum_nil, hfirst, hsecond, hpicks,
    ite_self, add_zero, zero_add, ← ite_and]

theorem splitRecon_accounted (threshold : Quantity) (inst : InstrumentId) :
    heldBy splitEnv splitHoldings (fun _ => true) inst =
      ((splitRecon threshold).sys.om.position inst).net := by
  have hpositions : (splitRecon threshold).sys.om.positions =
      (∅ : Finmap fun _ : InstrumentId => Position).insert 3 ⟨10, 0, 10, 50, 0, 0⟩ := by
    show (splitRecon 0).sys.om.positions = _
    decide
  rw [splitEnv_heldBy, position, hpositions, Finmap.get_insert, Finmap.get_empty]
  by_cases hinst : inst = 3
  · rw [if_pos ⟨rfl, hinst⟩, if_pos hinst]
  · rw [if_neg fun h => hinst h.2, if_neg hinst]
    rfl

/-- What the second venue holds is within a threshold of ten. -/
theorem disconnected_drift_within :
    let y := (reconMachine splitEnv).run (splitRecon 10) [.reconcile 0, .reconcile 1]
    y.recon.correctiveOrders = 0 ∧ y.recon.halts = 0 :=
  (disconnected_drift_iff splitEnv (splitRecon 10) (splitEnv_settled _) trivial
    (splitRecon_accounted 10)).2 (Or.inr fun inst _ => by
      rw [splitEnv_heldBy]
      split_ifs <;> decide) [0, 1]

/-- Without a threshold, the second cycle sells what the second venue holds. -/
theorem disconnected_venue_heals :
    let x := splitRecon 0
    let y := (reconMachine splitEnv).run x [.reconcile 0, .reconcile 1]
    (∀ inst, heldBy splitEnv splitHoldings (fun _ => true) inst = (x.sys.om.position inst).net) ∧
      x.recon.correctiveOrders = 0 ∧ y.recon.correctiveOrders = 1 ∧
      (y.sys.om.orderRef (encodeOrderId 0 0 1 2)).side = .Sell :=
  ⟨splitRecon_accounted 0, rfl, by decide, by decide⟩

end Oms
