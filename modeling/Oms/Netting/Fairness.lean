import Oms.Netting.Attribution

/-!
# One fill is apportioned exactly and fairly

Whatever contributions are recorded on an instrument and whatever the quantity of a fill on it:

* `Recorded.sum_moved`: the contributors are moved by the quantity in total;
* `Recorded.moved_eq`: each by its exact share, rounded down or up;
* `Recorded.moved_perm`: the order in which the contributions are recorded does not matter;
* `fill_apportioned`: what a fill does to the attributed positions.
-/

namespace Oms

namespace NettingEngine

/-- The relation tells claimants apart by their strategy. -/
theorem key_eq_of_allocBefore {a b : Apportion.Alloc StrategyId} (hab : allocBefore a b)
    (hba : allocBefore b a) : a.key = b.key := by
  rcases hab with hab | ⟨hrem, hab⟩
  · rcases hba with hba | ⟨hrem, -⟩
    · exact absurd hba hab.asymm
    · exact absurd hrem hab.ne
  · rcases hba with hba | ⟨-, hba⟩
    · exact absurd hrem hba.ne
    · rcases hab with hab | ⟨hweight, hab⟩
      · rcases hba with hba | ⟨hweight, -⟩
        · exact absurd hba hab.asymm
        · exact absurd hweight hab.ne
      · rcases hba with hba | ⟨-, hba⟩
        · exact absurd hweight hba.ne
        · exact UInt16.le_antisymm hab hba

section Share

variable {known : Finset StrategyId} {cs : List (StrategyId × Quantity)} {s : StrategyId}

/-- The contributors are moved by the quantity of the fill in total. -/
theorem Recorded.sum_moved (h : Recorded known cs) (q : Quantity) :
    (cs.map fun c => moved cs c.1 q).sum = q := by
  have hperm := map_fst_shares cs q
  have hnodup : ((shares cs q).map Prod.fst).Nodup := hperm.nodup_iff.2 h.nodup
  calc (cs.map fun c => moved cs c.1 q).sum
      = ((cs.map Prod.fst).map fun s => moved cs s q).sum := by
        rw [List.map_map]
        rfl
    _ = (((shares cs q).map Prod.fst).map fun s => moved cs s q).sum :=
        (hperm.map _).sum_eq.symm
    _ = ((shares cs q).map Prod.snd).sum := by
        rw [List.map_map]
        refine congrArg List.sum (List.map_congr_left fun c hc => ?_)
        exact List.sum_map_ite_of_nodup hnodup hc
    _ = q := h.sum_shares q

/-- A contributor is moved by its exact share, rounded down or, if it is no integer, up. -/
theorem Recorded.moved_eq (h : Recorded known cs) {d : Quantity} (hd : (s, d) ∈ cs)
    (q : Quantity) :
    ∃ base : ℤ, 0 ≤ base ∧ moved cs s q = (if q < 0 then -1 else 1) * base ∧
      (base = |q| * |d| / totalAbs cs ∨
        0 < |q| * |d| % totalAbs cs ∧ base = |q| * |d| / totalAbs cs + 1) := by
  obtain ⟨a, ha, rfl, hmoved⟩ := h.moved_eq_alloc (List.mem_map_of_mem hd) q
  obtain ⟨w, hw, hkey, hbase⟩ :=
    Apportion.floor_or_succ_of_mem h.total_pos rem_le_of_allocBefore ha
  rw [h.weight_eq hd hw hkey, magnitude_eq_abs, magnitude_eq_abs] at hbase
  refine ⟨a.base, ?_, hmoved, hbase⟩
  have hfloor : 0 ≤ |q| * |d| / totalAbs cs := Int.ediv_nonneg (by positivity) h.total_pos.le
  rcases hbase with hbase | ⟨-, hbase⟩
  · exact hbase ▸ hfloor
  · exact hbase ▸ Int.le_add_one hfloor

/-- The sign of the fill, or nothing. -/
theorem Recorded.sign_moved (h : Recorded known cs) {d : Quantity} (hd : (s, d) ∈ cs)
    (q : Quantity) : moved cs s q = 0 ∨ Int.sign (moved cs s q) = Int.sign q := by
  obtain ⟨base, hnonneg, hmoved, hbase⟩ := h.moved_eq hd q
  rw [hmoved]
  rcases hnonneg.eq_or_lt with rfl | hpos
  · exact Or.inl (mul_zero _)
  rcases lt_trichotomy q 0 with hq | rfl | hq
  · right
    rw [if_pos hq, neg_one_mul, Int.sign_neg, Int.sign_eq_one_of_pos hpos,
      Int.sign_eq_neg_one_of_neg hq]
  · -- without a quantity there is no remainder to round up
    rw [abs_zero, zero_mul, Int.zero_ediv, Int.zero_emod] at hbase
    rcases hbase with rfl | ⟨hrem, -⟩
    · exact absurd hpos (lt_irrefl 0)
    · exact absurd hrem (lt_irrefl 0)
  · right
    rw [if_neg hq.not_gt, one_mul, Int.sign_eq_one_of_pos hpos, Int.sign_eq_one_of_pos hq]

/-- The share, rounded down or up, and all of the weight if the fill is of the total weight. -/
theorem Recorded.abs_moved (h : Recorded known cs) {d : Quantity} (hd : (s, d) ∈ cs)
    (q : Quantity) :
    (|moved cs s q| = |q| * |d| / totalAbs cs ∨
      |moved cs s q| = |q| * |d| / totalAbs cs + 1) ∧
    (|q| = totalAbs cs → |moved cs s q| = |d|) := by
  obtain ⟨base, hnonneg, hmoved, hbase⟩ := h.moved_eq hd q
  have habs : |moved cs s q| = base := by
    rw [hmoved]
    split_ifs
    · rw [neg_one_mul, abs_neg, abs_of_nonneg hnonneg]
    · rw [one_mul, abs_of_nonneg hnonneg]
  rw [habs]
  refine ⟨hbase.imp_right And.right, fun hq => ?_⟩
  rw [hq, Int.mul_emod_right, Int.mul_ediv_cancel_left _ h.total_pos.ne'] at hbase
  rcases hbase with hbase | ⟨hrem, -⟩
  · exact hbase
  · exact absurd hrem (lt_irrefl 0)

/-- Contributions in another order move every strategy alike. -/
theorem Recorded.moved_perm (h : Recorded known cs) {cs' : List (StrategyId × Quantity)}
    (hperm : cs'.Perm cs) (s : StrategyId) (q : Quantity) : moved cs' s q = moved cs s q := by
  have hallocs : Apportion.largestRemainder allocBefore (magnitude q) (weights cs') =
      Apportion.largestRemainder allocBefore (magnitude q) (weights cs) := by
    refine (Apportion.largestRemainder_perm (hperm.symm.map _) fun a ha b hb hab hba => ?_).symm
    obtain ⟨w, hw, rfl⟩ := Apportion.mem_floors.1 ha
    obtain ⟨w', hw', rfl⟩ := Apportion.mem_floors.1 hb
    obtain ⟨c, hc, rfl⟩ := List.mem_map.1 hw
    obtain ⟨c', hc', rfl⟩ := List.mem_map.1 hw'
    have hkey : c.1 = c'.1 := key_eq_of_allocBefore hab hba
    rw [List.inj_on_of_nodup_map h.nodup hc hc' hkey]
  unfold moved shares
  rw [hallocs]

theorem Recorded.perm (h : Recorded known cs) {cs' : List (StrategyId × Quantity)}
    (hperm : cs'.Perm cs) : Recorded known cs' where
  ne_nil := fun hnil => h.ne_nil (hnil ▸ hperm).nil_eq.symm
  nodup := (hperm.map Prod.fst).nodup_iff.2 h.nodup
  ne_zero := fun c hc => h.ne_zero c (hperm.mem_iff.1 hc)
  mem := fun c hc => h.mem c (hperm.mem_iff.1 hc)

/-- A fill moves a strategy on the instrument by what it was allotted, and nothing else. -/
theorem attributed_attributeFill {e : NettingEngine} {inst : InstrumentId}
    (hcs : e.contrib.lookup inst = some cs) (h : Recorded known cs) (q : Quantity)
    (price : Price) (s : StrategyId) (inst' : InstrumentId) :
    (e.attributeFill inst q price).attributed s inst' =
      e.attributed s inst' + if inst' = inst then moved cs s q else 0 := by
  rw [attributeFill_recorded hcs h, attributed_book]
  rfl

end Share

section Main

variable {e : NettingEngine} {inst : InstrumentId} {known : Finset StrategyId}
variable {cs : List (StrategyId × Quantity)}

/-- **A fill is apportioned exactly, fairly and whatever the order of the contributions.** Only
contributors move, and only on the instrument of the fill; together they move by its quantity, each
with its sign and by its share of the absolute weight, rounded down or up, and by its weight if the
fill is of the total weight. -/
theorem fill_apportioned (hcs : e.contrib.lookup inst = some cs) (h : Recorded known cs)
    (q : Quantity) (price : Price) :
    let e' := e.attributeFill inst q price
    let amount := fun s => e'.attributed s inst - e.attributed s inst
    (∀ s inst', inst' ≠ inst ∨ s ∉ cs.map Prod.fst →
        e'.attributed s inst' = e.attributed s inst') ∧
      (cs.map fun c => amount c.1).sum = q ∧
      (∀ s d, (s, d) ∈ cs →
        (amount s = 0 ∨ Int.sign (amount s) = Int.sign q) ∧
        (|amount s| = |q| * |d| / totalAbs cs ∨ |amount s| = |q| * |d| / totalAbs cs + 1) ∧
        (|q| = totalAbs cs → |amount s| = |d|)) ∧
      ∀ cs', cs'.Perm cs → ∀ s,
        (({ e with contrib := e.contrib.insert inst cs' } : NettingEngine).attributeFill inst q
          price).attributed s inst = e'.attributed s inst := by
  intro e' amount
  have hamount : ∀ s, amount s = moved cs s q := by
    intro s
    have hattr := attributed_attributeFill hcs h q price s inst
    rw [if_pos rfl] at hattr
    exact sub_eq_of_eq_add' hattr
  refine ⟨fun s inst' hout => ?_, ?_, fun s d hd => ?_, fun cs' hperm s => ?_⟩
  · refine (attributed_attributeFill hcs h q price s inst').trans ?_
    rcases hout with hinst | hs
    · rw [if_neg hinst, add_zero]
    · rw [moved_of_notMem hs, ite_self, add_zero]
  · simp only [hamount]
    exact h.sum_moved q
  · rw [hamount s]
    exact ⟨h.sign_moved hd q, h.abs_moved hd q⟩
  · have hcs' : ({ e with contrib := e.contrib.insert inst cs' } : NettingEngine).contrib.lookup
        inst = some cs' := Finmap.lookup_insert _
    refine (attributed_attributeFill hcs' (h.perm hperm) q price s inst).trans ?_
    rw [h.moved_perm hperm]
    exact (attributed_attributeFill hcs h q price s inst).symm

end Main

/-- A fill of 10 on contributions of 1, 1 and -1: the tie goes to the smallest id. -/
theorem fill_apportioned_tie :
    let e : NettingEngine := { contrib := Finmap.insert 5 [(3, 1), (1, 1), (2, -1)] ∅ }
    let e' := e.attributeFill 5 10 100
    (e'.attributed 3 5 - e.attributed 3 5) + ((e'.attributed 1 5 - e.attributed 1 5) +
      ((e'.attributed 2 5 - e.attributed 2 5) + 0)) = 10 ∧ e'.attributed 1 5 = 4 :=
  ⟨(@fill_apportioned { contrib := Finmap.insert 5 [(3, 1), (1, 1), (2, -1)] ∅ } 5 {1, 2, 3}
    [(3, 1), (1, 1), (2, -1)] (by decide)
    ⟨by decide, by decide, by decide, by decide⟩ 10 100).2.1, by decide⟩

end NettingEngine

end Oms
