import Oms.Foundation.SignedWord
import Oms.Netting.Cycle
import Oms.Signal

/-!
# Apportionment in 64 bits

The source apportions a fill in signed 64-bit integers. `attributeFill64` performs the same
operations one by one and yields nothing where one of them overflows.

* `attributeFill64_eq_some`: what makes it exact;
* `fits_of_attributeFill64`: what it needs to be defined;
* `fill_exact_iff_product_fits`: on targets the gate admits, what is decisive is the product of the
  fill and the largest contribution.
-/

namespace Oms

namespace NettingEngine

open SignedWord

/-- The source writes `d < 0 ? -d : d`. -/
def magnitude64 (d : Quantity) : Option Quantity := if d < 0 then checked 63 (-d) else some d

/-- The sum of the absolute contributions, added to `totalAbs`. -/
def total64 : List (StrategyId × Quantity) → ℤ → Option ℤ
  | [], totalAbs => some totalAbs
  | c :: contribs, totalAbs => do
    let w ← magnitude64 c.2
    let totalAbs ← checked 63 (totalAbs + w)
    total64 contribs totalAbs

/-- The floors, with a running sum of what they distribute. -/
def floors64 (absq totalAbs : ℤ) : List (StrategyId × Quantity) → ℤ →
    Option (List (Apportion.Alloc StrategyId) × ℤ)
  | [], distributed => some ([], distributed)
  | c :: contribs, distributed => do
    let w ← magnitude64 c.2
    let num ← checked 63 (absq * w)
    let base := num.tdiv totalAbs
    let distributed ← checked 63 (distributed + base)
    let (allocs, distributed) ← floors64 absq totalAbs contribs distributed
    some (⟨c.1, base, num.tmod totalAbs, w⟩ :: allocs, distributed)

/-- One more unit for each of the first `leftover` claimants. -/
def bump64 : ℤ → List (Apportion.Alloc StrategyId) → Option (List (Apportion.Alloc StrategyId))
  | _, [] => some []
  | leftover, a :: allocs =>
    if 0 < leftover then do
      let base ← checked 63 (a.base + 1)
      let allocs ← bump64 (leftover - 1) allocs
      some ({ a with base := base } :: allocs)
    else some (a :: allocs)

/-- The allocations, added to the attributed positions. -/
def book64 (inst : InstrumentId) (sign : ℤ) : List (Apportion.Alloc StrategyId) →
    (Finmap fun _ : UInt64 => Quantity) → Option (Finmap fun _ : UInt64 => Quantity)
  | [], m => some m
  | a :: allocs, m => do
    let move ← checked 63 (sign * a.base)
    let q ← checked 63 (m.get (key a.key inst) + move)
    book64 inst sign allocs (m.insert (key a.key inst) q)

/-- Attribute a fill in signed 64-bit integers; nothing if an operation overflows. -/
def attributeFill64 (e : NettingEngine) (inst : InstrumentId) (signedQty : Quantity)
    (_fillPrice : Price) : Option NettingEngine := do
  let position ← checked 63 (e.global.get inst + signedQty)
  let e := { e with global := e.global.insert inst position }
  match e.contrib.lookup inst with
  | none => some e
  | some contribs =>
    if contribs = [] then some e
    else do
      let totalAbs ← total64 contribs 0
      if totalAbs = 0 then some e
      else do
        let sign : Quantity := if signedQty < 0 then -1 else 1
        let absq ← magnitude64 signedQty
        let (allocs, distributed) ← floors64 absq totalAbs contribs 0
        let leftover ← checked 63 (absq - distributed)
        let allocs ← bump64 leftover (allocs.insertionSort allocBefore)
        let attributedMap ← book64 inst sign allocs e.attributedMap
        some { e with attributedMap := attributedMap }

/-! ### Where everything fits -/

section Exact

variable {cs : List (StrategyId × Quantity)}

theorem magnitude64_eq_some {d : Quantity} (h : Fits 63 (magnitude d)) :
    magnitude64 d = some (magnitude d) := by
  unfold magnitude64 magnitude at *
  split_ifs at h ⊢
  · exact checked_of_fits h
  · rfl

theorem magnitude_nonneg (d : Quantity) : 0 ≤ magnitude d := by
  rw [magnitude_eq_abs]
  exact abs_nonneg d

theorem totalAbs_cons (c : StrategyId × Quantity) (cs : List (StrategyId × Quantity)) :
    totalAbs (c :: cs) = magnitude c.2 + totalAbs cs := rfl

theorem totalAbs_nonneg (cs : List (StrategyId × Quantity)) : 0 ≤ totalAbs cs := by
  induction cs with
  | nil => rfl
  | cons c cs ih =>
    rw [totalAbs_cons]
    exact add_nonneg (magnitude_nonneg c.2) ih

theorem weights_nonneg {w : StrategyId × ℤ} (hw : w ∈ weights cs) : 0 ≤ w.2 := by
  obtain ⟨c, -, rfl⟩ := List.mem_map.1 hw
  exact magnitude_nonneg c.2

theorem magnitude_le_totalAbs {c : StrategyId × Quantity} (hc : c ∈ cs) :
    magnitude c.2 ≤ totalAbs cs := by
  have hmem : (c.1, magnitude c.2) ∈ weights cs := List.mem_map.2 ⟨c, hc, rfl⟩
  refine List.single_le_sum (fun x hx => ?_) _ (List.mem_map_of_mem hmem)
  obtain ⟨w, hw, rfl⟩ := List.mem_map.1 hx
  exact weights_nonneg hw

/-- A sum of weights is exact if it is below the limit in total. -/
theorem total64_eq_some {t : ℤ} (ht : 0 ≤ t) (h : t + totalAbs cs < 2 ^ 63) :
    total64 cs t = some (t + totalAbs cs) := by
  induction cs generalizing t with
  | nil => simp [total64, totalAbs, Apportion.total, weights]
  | cons c cs ih =>
    have hrest := totalAbs_nonneg cs
    have hc := magnitude_nonneg c.2
    rw [totalAbs_cons, ← add_assoc] at h ⊢
    have hw : Fits 63 (magnitude c.2) := (fits_iff_lt hc).2 (by linarith)
    have hsum : Fits 63 (t + magnitude c.2) := (fits_iff_lt (by linarith)).2 (by linarith)
    simp only [total64, magnitude64_eq_some hw, checked_of_fits hsum, Option.bind_eq_bind,
      Option.bind_some]
    exact ih (by linarith) h

/-- The floors are exact if the products are, and what they distribute is below the limit. -/
theorem floors64_eq_some {absq total d : ℤ} (habsq : 0 ≤ absq) (htotal : 0 < total)
    (hweight : ∀ c ∈ cs, Fits 63 (magnitude c.2))
    (hprod : ∀ c ∈ cs, Fits 63 (absq * magnitude c.2)) (hd : 0 ≤ d)
    (hsum : d + (cs.map fun c => absq * magnitude c.2 / total).sum < 2 ^ 63) :
    floors64 absq total cs d =
      some (cs.map fun c =>
          ⟨c.1, absq * magnitude c.2 / total, absq * magnitude c.2 % total, magnitude c.2⟩,
        d + (cs.map fun c => absq * magnitude c.2 / total).sum) := by
  induction cs generalizing d with
  | nil => simp [floors64]
  | cons c cs ih =>
    have hnum : 0 ≤ absq * magnitude c.2 := mul_nonneg habsq (magnitude_nonneg c.2)
    have hbase : 0 ≤ absq * magnitude c.2 / total := Int.ediv_nonneg hnum htotal.le
    have hrest : 0 ≤ (cs.map fun c => absq * magnitude c.2 / total).sum := by
      refine List.sum_nonneg fun b hb => ?_
      obtain ⟨c', -, rfl⟩ := List.mem_map.1 hb
      exact Int.ediv_nonneg (mul_nonneg habsq (magnitude_nonneg c'.2)) htotal.le
    simp only [List.map_cons, List.sum_cons, ← add_assoc] at hsum ⊢
    have hfits : Fits 63 (d + absq * magnitude c.2 / total) :=
      (fits_iff_lt (by linarith)).2 (by linarith)
    have htail := ih (fun c' hc' => hweight c' (List.mem_cons_of_mem _ hc'))
      (fun c' hc' => hprod c' (List.mem_cons_of_mem _ hc')) (by linarith) hsum
    simp only [floors64, magnitude64_eq_some (hweight c List.mem_cons_self),
      checked_of_fits (hprod c List.mem_cons_self), Int.tdiv_eq_ediv_of_nonneg hnum,
      Int.tmod_eq_emod_of_nonneg hnum, checked_of_fits hfits, htail, Option.bind_eq_bind,
      Option.bind_some]

theorem bump64_eq_some {as : List (Apportion.Alloc StrategyId)}
    (h : ∀ a ∈ as, Fits 63 (a.base + 1)) (n : ℤ) : bump64 n as = some (Apportion.bump n as) := by
  induction as generalizing n with
  | nil => rfl
  | cons a as ih =>
    unfold bump64 Apportion.bump
    split_ifs
    · simp only [checked_of_fits (h a List.mem_cons_self),
        ih (fun b hb => h b (List.mem_cons_of_mem _ hb)), Option.bind_eq_bind, Option.bind_some]
    · rfl

/-- Distinct strategies are booked independently. -/
theorem book64_eq_some {inst : InstrumentId} {sign : ℤ} {as : List (Apportion.Alloc StrategyId)}
    (hnodup : (as.map Apportion.Alloc.key).Nodup) {m : Finmap fun _ : UInt64 => Quantity}
    (h : ∀ a ∈ as, Fits 63 (sign * a.base) ∧ Fits 63 (m.get (key a.key inst) + sign * a.base)) :
    book64 inst sign as m =
      some (as.foldl (fun m a => m.adjust (key a.key inst) (sign * a.base)) m) := by
  induction as generalizing m with
  | nil => rfl
  | cons a as ih =>
    obtain ⟨hnot, hnodup'⟩ := List.nodup_cons.1 hnodup
    obtain ⟨hmove, hsum⟩ := h a List.mem_cons_self
    simp only [book64, checked_of_fits hmove, checked_of_fits hsum, Option.bind_eq_bind,
      Option.bind_some, List.foldl_cons]
    refine ih hnodup' fun b hb => ?_
    have hne : key b.key inst ≠ key a.key inst := fun heq =>
      hnot ((key_inj.1 heq).1 ▸ List.mem_map_of_mem hb)
    rw [Finmap.get_insert_of_ne _ _ hne]
    exact h b (List.mem_cons_of_mem _ hb)

/-- The loop computes the floors. -/
theorem floors_weights (absq : ℤ) (cs : List (StrategyId × Quantity)) :
    Apportion.floors absq (weights cs) = cs.map fun c =>
      ⟨c.1, absq * magnitude c.2 / totalAbs cs, absq * magnitude c.2 % totalAbs cs,
        magnitude c.2⟩ := by
  rw [Apportion.floors, weights, List.map_map]
  rfl

variable {e : NettingEngine} {inst : InstrumentId} {known : Finset StrategyId} {q : Quantity}

/-- Booking what was allotted is exact if the positions leave room for it. -/
theorem book64_largestRemainder (h : Recorded known cs) (hq : magnitude q < 2 ^ 62)
    (hattr : ∀ s, |e.attributed s inst| < 2 ^ 62) :
    book64 inst (if q < 0 then -1 else 1)
        (Apportion.largestRemainder allocBefore (magnitude q) (weights cs)) e.attributedMap =
      some (e.book inst (shares cs q)).attributedMap := by
  have hkeys : ((Apportion.largestRemainder allocBefore (magnitude q) (weights cs)).map
      Apportion.Alloc.key).Nodup := by
    have hperm := map_fst_shares cs q
    rw [shares, List.map_map] at hperm
    exact hperm.nodup_iff.2 h.nodup
  rw [book64_eq_some hkeys fun a ha => ?_]
  · rw [book, shares, List.foldl_map]
  · obtain ⟨hnonneg, hle⟩ := Apportion.base_bounds h.total_pos rem_le_of_allocBefore
      (magnitude_nonneg q) (fun w hw => weights_nonneg hw) ha
    have hmove : |(if q < 0 then -1 else 1) * a.base| ≤ magnitude q := by
      split_ifs
      · rwa [neg_one_mul, abs_neg, abs_of_nonneg hnonneg]
      · rwa [one_mul, abs_of_nonneg hnonneg]
    have hsum : |e.attributed a.key inst + (if q < 0 then -1 else 1) * a.base| < 2 ^ 62 + 2 ^ 62 :=
      (abs_add_le _ _).trans_lt (add_lt_add (hattr a.key) (hmove.trans_lt hq))
    exact ⟨fits_of_abs_lt ((hmove.trans_lt hq).trans (by norm_num)),
      fits_of_abs_lt (hsum.trans_eq (by norm_num))⟩

/-- **A fill is exact if its products are**, and the positions leave room for it. -/
theorem attributeFill64_eq_some (hcs : e.contrib.lookup inst = some cs) (h : Recorded known cs)
    (hposition : Fits 63 (e.globalPosition inst + q))
    (hprod : ∀ c ∈ cs, Fits 63 (magnitude q * magnitude c.2)) (hq : magnitude q < 2 ^ 62)
    (htotal : totalAbs cs < 2 ^ 63) (hattr : ∀ s, |e.attributed s inst| < 2 ^ 62) (price : Price) :
    e.attributeFill64 inst q price = some (e.attributeFill inst q price) := by
  have hT := h.total_pos
  have habsq := magnitude_nonneg q
  have hweight : ∀ c ∈ cs, Fits 63 (magnitude c.2) := fun c hc =>
    (fits_iff_lt (magnitude_nonneg c.2)).2 ((magnitude_le_totalAbs hc).trans_lt htotal)
  have hsum : ((Apportion.floors (magnitude q) (weights cs)).map Apportion.Alloc.base).sum ≤
      magnitude q := Apportion.sum_floors_le hT
  have hfloors : floors64 (magnitude q) (totalAbs cs) cs 0 =
      some (Apportion.floors (magnitude q) (weights cs),
        ((Apportion.floors (magnitude q) (weights cs)).map Apportion.Alloc.base).sum) := by
    rw [floors_weights, List.map_map] at hsum ⊢
    rw [floors64_eq_some habsq hT hweight hprod le_rfl, zero_add]
    · rfl
    · exact (zero_add _).trans_lt (lt_of_le_of_lt hsum (hq.trans (by norm_num)))
  -- none of the claimants has more than there is, before a unit is added or after
  have hbase : ∀ a ∈ Apportion.floors (magnitude q) (weights cs),
      0 ≤ a.base ∧ a.base ≤ magnitude q :=
    fun a ha => Apportion.floor_bounds hT habsq (fun w hw => weights_nonneg hw) ha
  have hsumnonneg : 0 ≤ ((Apportion.floors (magnitude q) (weights cs)).map
      Apportion.Alloc.base).sum := by
    refine List.sum_nonneg fun b hb => ?_
    obtain ⟨a, ha, rfl⟩ := List.mem_map.1 hb
    exact (hbase a ha).1
  have hleftover : Fits 63 (magnitude q -
      ((Apportion.floors (magnitude q) (weights cs)).map Apportion.Alloc.base).sum) :=
    (fits_iff_lt (sub_nonneg.2 hsum)).2 (by linarith)
  have hbump : bump64
      (magnitude q -
        ((Apportion.floors (magnitude q) (weights cs)).map Apportion.Alloc.base).sum)
      ((Apportion.floors (magnitude q) (weights cs)).insertionSort allocBefore) =
      some (Apportion.largestRemainder allocBefore (magnitude q) (weights cs)) := by
    refine bump64_eq_some (fun a ha => ?_) _
    obtain ⟨h0, hle⟩ := hbase a ((List.mem_insertionSort _).1 ha)
    exact (fits_iff_lt (by linarith)).2 (by linarith)
  have hbook := book64_largestRemainder h hq hattr
  have hposition' : checked 63 (e.global.get inst + q) = some (e.global.get inst + q) :=
    checked_of_fits hposition
  rw [attributeFill_recorded hcs h]
  simp only [attributeFill64, hcs, if_neg h.ne_nil, if_neg hT.ne', total64_eq_some le_rfl
    ((zero_add _).trans_lt htotal), zero_add, magnitude64_eq_some
    ((fits_iff_lt habsq).2 (hq.trans (by norm_num))), hfloors, checked_of_fits hleftover, hbump,
    hposition', hbook, Option.bind_eq_bind, Option.bind_some]
  rfl

end Exact

/-! ### What has to fit -/

section Needed

variable {cs : List (StrategyId × Quantity)}

theorem eq_magnitude_of_magnitude64 {d w : Quantity} (h : magnitude64 d = some w) :
    w = magnitude d := by
  unfold magnitude64 at h
  unfold magnitude
  split_ifs at h ⊢
  · exact (checked_eq_some_iff.1 h).2.symm
  · exact (Option.some.inj h).symm

theorem eq_total_of_total64 {t r : ℤ} (h : total64 cs t = some r) : r = t + totalAbs cs := by
  induction cs generalizing t with
  | nil => exact (Option.some.inj h).symm.trans (add_zero t).symm
  | cons c cs ih =>
    simp only [total64, Option.bind_eq_bind, Option.bind_eq_some_iff] at h
    obtain ⟨w, hw, t', ht', hrest⟩ := h
    rw [ih hrest, ← (checked_eq_some_iff.1 ht').2, eq_magnitude_of_magnitude64 hw, totalAbs_cons,
      add_assoc]

/-- Where the floors come out, every product fits. -/
theorem fits_of_floors64 {absq total d : ℤ} {r : List (Apportion.Alloc StrategyId) × ℤ}
    (h : floors64 absq total cs d = some r) : ∀ c ∈ cs, Fits 63 (absq * magnitude c.2) := by
  induction cs generalizing d r with
  | nil => exact fun c hc => absurd hc List.not_mem_nil
  | cons c cs ih =>
    simp only [floors64, Option.bind_eq_bind, Option.bind_eq_some_iff] at h
    obtain ⟨w, hw, num, hnum, d', -, r', hrest, -⟩ := h
    have hfits := (checked_eq_some_iff.1 hnum).1
    rw [eq_magnitude_of_magnitude64 hw] at hfits
    exact List.forall_mem_cons.2 ⟨hfits, ih hrest⟩

/-- **Where a fill comes out, the position and every product fit.** -/
theorem fits_of_attributeFill64 {e e' : NettingEngine} {inst : InstrumentId}
    {known : Finset StrategyId} {q : Quantity} {price : Price}
    (hcs : e.contrib.lookup inst = some cs) (h : Recorded known cs)
    (hfill : e.attributeFill64 inst q price = some e') :
    Fits 63 (e.globalPosition inst + q) ∧ ∀ c ∈ cs, Fits 63 (magnitude q * magnitude c.2) := by
  simp only [attributeFill64, hcs, if_neg h.ne_nil, Option.bind_eq_bind,
    Option.bind_eq_some_iff] at hfill
  obtain ⟨position, hposition, totalAbs, htotal, hfill⟩ := hfill
  refine ⟨(checked_eq_some_iff.1 hposition).1, ?_⟩
  have hne : totalAbs ≠ 0 := by
    rw [eq_total_of_total64 htotal, zero_add]
    exact h.total_pos.ne'
  rw [if_neg hne] at hfill
  simp only [Option.bind_eq_some_iff] at hfill
  obtain ⟨absq, habsq, r, hfloors, -⟩ := hfill
  rw [eq_magnitude_of_magnitude64 habsq] at hfloors
  exact fits_of_floors64 hfloors

end Needed

/-! ### Admitted targets -/

/-- Targets the gate admits by default, of at most fifty strategies, with positions within the same
bound. -/
structure Admitted (e : NettingEngine) : Prop where
  card : e.strategies.card ≤ 50
  target : ∀ s inst target, e.targets.lookup (key s inst) = some target →
    |target| ≤ ({} : SignalGateConfig).maxAbsTarget
  attributed : ∀ s inst, |e.attributed s inst| ≤ ({} : SignalGateConfig).maxAbsTarget

section Admitted

variable {e : NettingEngine} {inst : InstrumentId}

theorem length_contributions_le (e : NettingEngine) (inst : InstrumentId) :
    (e.contributions inst).length ≤ e.strategies.card := by
  have hsub : ((e.contributions inst).map Prod.fst).toFinset ⊆ e.strategies := by
    intro s hs
    obtain ⟨⟨s, d⟩, hc, rfl⟩ := List.mem_map.1 (List.mem_toFinset.1 hs)
    exact (mem_contributions.1 hc).1
  have hle := Finset.card_le_card hsub
  rwa [List.toFinset_card_of_nodup (nodup_contributions e inst), List.length_map] at hle

theorem abs_sum_le_totalAbs (cs : List (StrategyId × Quantity)) :
    |(cs.map Prod.snd).sum| ≤ totalAbs cs := by
  induction cs with
  | nil => exact abs_zero.le
  | cons c cs ih =>
    rw [List.map_cons, List.sum_cons, totalAbs_cons, magnitude_eq_abs]
    exact (abs_add_le _ _).trans (add_le_add_right ih _)

theorem totalAbs_le {cs : List (StrategyId × Quantity)} {b : ℤ} (h : ∀ c ∈ cs, |c.2| ≤ b) :
    totalAbs cs ≤ cs.length * b := by
  induction cs with
  | nil => simp [totalAbs, Apportion.total, weights]
  | cons c cs ih =>
    have hc := h c List.mem_cons_self
    have hcs := ih fun c' hc' => h c' (List.mem_cons_of_mem _ hc')
    rw [totalAbs_cons, magnitude_eq_abs, List.length_cons, Nat.cast_add, Nat.cast_one]
    linarith

/-- Admitted contributions are far below the limit in total. -/
theorem Admitted.totalAbs_le (h : Admitted e) (inst : InstrumentId) :
    totalAbs (e.contributions inst) ≤ 100000000000 := by
  have hone : ∀ c ∈ e.contributions inst, |c.2| ≤ 2000000000 := by
    rintro ⟨s, d⟩ hc
    obtain ⟨-, target, htarget, rfl, -⟩ := mem_contributions.1 hc
    have hle := (abs_sub target (e.attributed s inst)).trans
      (add_le_add (h.target s inst target htarget) (h.attributed s inst))
    exact hle.trans_eq (by norm_num)
  have hlen : ((e.contributions inst).length : ℤ) ≤ 50 :=
    Nat.cast_le.2 ((length_contributions_le e inst).trans h.card)
  have hle := NettingEngine.totalAbs_le hone
  linarith

/-- **When a fill on an admitted order is exact.** Let a cycle emit an order on admitted targets.
Then a fill of at most its magnitude is computed in 64 bits without overflow, and is the exact
apportionment, if and only if the product of its magnitude and every strategy's delta fits, and the
global position has room for it. -/
theorem fill_exact_iff_product_fits (h : Admitted e)
    {prices : Finmap fun _ : InstrumentId => Price} {o : NetOrder}
    (ho : o ∈ (e.computeCycle prices).2) {q : Quantity} (hq : |q| ≤ |o.delta|) (price : Price) :
    let e' := (e.computeCycle prices).1
    e'.attributeFill64 o.instrument q price = some (e'.attributeFill o.instrument q price) ↔
      Fits 63 (e.globalPosition o.instrument + q) ∧
        ∀ s ∈ e.strategies, ∀ target,
          e.targets.lookup (key s o.instrument) = some target →
            |q| * |target - e.attributed s o.instrument| < 2 ^ 63 := by
  intro e'
  have hord := computeCycle_order ho
  have hrec := recorded_contributions hord.ne_nil
  have htotal := h.totalAbs_le o.instrument
  have hlt : |q| < 2 ^ 62 := by
    have hdelta := abs_sum_le_totalAbs (e.contributions o.instrument)
    rw [hord.sum] at hdelta
    linarith
  have hposition : e'.globalPosition o.instrument = e.globalPosition o.instrument :=
    congrArg (Finmap.get · o.instrument) (computeCycle_sameBook prices e).global
  have hproduct : (∀ c ∈ e.contributions o.instrument, Fits 63 (magnitude q * magnitude c.2)) ↔
      ∀ s ∈ e.strategies, ∀ target, e.targets.lookup (key s o.instrument) = some target →
        |q| * |target - e.attributed s o.instrument| < 2 ^ 63 := by
    simp only [magnitude_eq_abs]
    constructor
    · intro hfits s hs target htarget
      rcases contributes_or_reached hs htarget with hmem | ⟨hzero, -⟩
      · exact (hfits _ hmem).2
      · rw [hzero, abs_zero, mul_zero]
        norm_num
    · rintro hfits ⟨s, d⟩ hc
      obtain ⟨hs, target, htarget, rfl, -⟩ := mem_contributions.1 hc
      exact (fits_iff_lt (by positivity)).2 (hfits s hs target htarget)
  rw [← hproduct, ← hposition]
  constructor
  · exact fun hfill => fits_of_attributeFill64 hord.contrib hrec hfill
  · rintro ⟨hroom, hprod⟩
    refine attributeFill64_eq_some hord.contrib hrec hroom hprod ?_ (by linarith) (fun s => ?_)
      price
    · rwa [magnitude_eq_abs]
    · rw [hord.attributed]
      exact (h.attributed s o.instrument).trans_lt (by norm_num)

end Admitted

/-- Three strategies that turn from one end of the admitted range to the other. -/
def turningOps : List NettingOp :=
  [.setAttributed 1 5 (-1000000000), .setAttributed 2 5 (-1000000000),
    .setAttributed 3 5 (-1000000000), .setTarget 1 5 1000000000, .setTarget 2 5 1000000000,
    .setTarget 3 5 1000000000]

theorem admitted_turningOps : Admitted (nettingMachine.run {} turningOps) where
  card := by decide
  target := fun s inst target h => by
    have hmap : (nettingMachine.run {} turningOps).targets =
        ((Finmap.insert (key 1 5) 1000000000 ∅).insert (key 2 5) 1000000000).insert (key 3 5)
          1000000000 := rfl
    have hget : (nettingMachine.run {} turningOps).targets.get (key s inst) = target := by
      simp [Finmap.get, h]
    rw [← hget, hmap]
    simp only [Finmap.get_insert, Finmap.get_empty]
    split_ifs <;> decide
  attributed := fun s inst => by
    have hmap : (nettingMachine.run {} turningOps).attributedMap =
        ((Finmap.insert (key 1 5) (-1000000000) ∅).insert (key 2 5) (-1000000000)).insert
          (key 3 5) (-1000000000) := rfl
    rw [NettingEngine.attributed, hmap]
    simp only [Finmap.get_insert, Finmap.get_empty]
    split_ifs <;> decide

/-- The order of the three strategies overflows when it is filled at once. -/
theorem turning_fill_overflows :
    let e := nettingMachine.run {} turningOps
    Admitted e ∧ (e.computeCycle ∅).2 = [⟨5, 6000000000⟩] ∧
      (e.computeCycle ∅).1.attributeFill64 5 6000000000 100 = none :=
  ⟨admitted_turningOps, by decide, by decide⟩

theorem half_turning_fits (s : StrategyId) (hs : s ∈ (nettingMachine.run {} turningOps).strategies)
    (target : Quantity)
    (htarget : (nettingMachine.run {} turningOps).targets.lookup (key s 5) = some target) :
    |(3000000000 : ℤ)| * |target - (nettingMachine.run {} turningOps).attributed s 5| < 2 ^ 63 := by
  have hall : (nettingMachine.run {} turningOps).strategies = {1, 2, 3} := by decide
  rw [hall] at hs
  simp only [Finset.mem_insert, Finset.mem_singleton] at hs
  rcases hs with rfl | rfl | rfl
  all_goals
    obtain rfl : (1000000000 : ℤ) = target := Option.some.inj htarget
    decide

/-- Half of it does not. -/
theorem turning_fill_exact :
    let e := nettingMachine.run {} turningOps
    let e' := (e.computeCycle ∅).1
    e'.attributeFill64 5 3000000000 100 = some (e'.attributeFill 5 3000000000 100) :=
  (@fill_exact_iff_product_fits (nettingMachine.run {} turningOps) admitted_turningOps ∅
    ⟨5, 6000000000⟩ (by decide) 3000000000 (by decide) 100).2 ⟨by decide, half_turning_fits⟩

end NettingEngine

end Oms
