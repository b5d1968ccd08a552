import Mathlib.Algebra.Order.BigOperators.Group.List
import Mathlib.Algebra.Order.Ring.Int
import Mathlib.Data.List.Sort
import Mathlib.Tactic.Linarith
import Mathlib.Tactic.Ring

/-!
# Largest-remainder apportionment

A quantity `q` is handed out to weighted claimants: each gets the floor of its exact share, and the
units left over go one by one to the claimants in the order of a relation that puts larger
remainders first.

* `Apportion.largestRemainder`: the allocation;
* `sum_largestRemainder`: the whole quantity is handed out;
* `floor_or_succ_of_mem`, `abs_sub_lt_of_mem`: every claimant gets its exact share, rounded down or
  up;
* `largestRemainder_perm`: the order in which claimants are listed does not matter.
-/

namespace Apportion

variable {K : Type*}

/-- A claimant while its share is computed. -/
structure Alloc (K : Type*) where
  key : K
  base : ℤ
  rem : ℤ
  weight : ℤ

/-- The total of the weights. -/
def total (ws : List (K × ℤ)) : ℤ := (ws.map Prod.snd).sum

/-- Every claimant with the floor of its exact share. -/
def floors (q : ℤ) (ws : List (K × ℤ)) : List (Alloc K) :=
  ws.map fun w => ⟨w.1, q * w.2 / total ws, q * w.2 % total ws, w.2⟩

/-- One more unit for each of the first `n` claimants. -/
def bump : ℤ → List (Alloc K) → List (Alloc K)
  | _, [] => []
  | n, a :: as => if 0 < n then { a with base := a.base + 1 } :: bump (n - 1) as else a :: as

/-- The floors, with what is left over handed out one by one in the order of `before`. -/
def largestRemainder (before : Alloc K → Alloc K → Prop) [DecidableRel before] (q : ℤ)
    (ws : List (K × ℤ)) : List (Alloc K) :=
  let allocs := floors q ws
  bump (q - (allocs.map Alloc.base).sum) (allocs.insertionSort before)

/-! ### Floors -/

section Floors

variable {q : ℤ} {ws : List (K × ℤ)}

theorem mem_floors {a : Alloc K} : a ∈ floors q ws ↔
    ∃ w ∈ ws, a = ⟨w.1, q * w.2 / total ws, q * w.2 % total ws, w.2⟩ := by
  simp [floors, eq_comm]

/-- What the floors leave over is the sum of the remainders, in units of the total weight. -/
theorem sum_floors : (q - ((floors q ws).map Alloc.base).sum) * total ws =
    ((floors q ws).map Alloc.rem).sum := by
  have hsplit : ∀ (T : ℤ) (l : List (K × ℤ)),
      (l.map fun w => q * w.2 / T).sum * T + (l.map fun w => q * w.2 % T).sum =
        q * (l.map Prod.snd).sum := by
    intro T l
    induction l with
    | nil => simp
    | cons w l ih =>
      have := Int.ediv_mul_add_emod (q * w.2) T
      simp only [List.map_cons, List.sum_cons]
      linarith
  have h := hsplit (total ws) ws
  simp only [floors, List.map_map, Function.comp_def]
  rw [show (ws.map Prod.snd).sum = total ws from rfl] at h
  linarith

end Floors

/-! ### Bumping -/

section Bump

variable {T : ℤ} {as : List (Alloc K)}

theorem map_key_bump (n : ℤ) (as : List (Alloc K)) :
    (bump n as).map Alloc.key = as.map Alloc.key := by
  induction as generalizing n with
  | nil => rfl
  | cons a as ih =>
    unfold bump
    split_ifs
    · rw [List.map_cons, ih, List.map_cons]
    · rfl

/-- With remainders that cover `n` units, `n` units are handed out. -/
theorem sum_bump (hrem : ∀ a ∈ as, 0 ≤ a.rem ∧ a.rem < T) {n : ℤ} (hn : 0 ≤ n)
    (hcover : n * T ≤ (as.map Alloc.rem).sum) (hT : 0 < T) :
    ((bump n as).map Alloc.base).sum = (as.map Alloc.base).sum + n := by
  induction as generalizing n with
  | nil =>
    have hzero : n * T ≤ 0 := hcover
    have : n = 0 := le_antisymm (by nlinarith) hn
    simp [bump, this]
  | cons a as ih =>
    unfold bump
    split_ifs with hpos
    · have ha := hrem a List.mem_cons_self
      simp only [List.map_cons, List.sum_cons] at hcover ⊢
      rw [ih (fun b hb => hrem b (List.mem_cons_of_mem _ hb)) (by omega) (by linarith)]
      ring
    · have : n = 0 := le_antisymm (not_lt.1 hpos) hn
      simp [this]

/-- Where remainders are listed in descending order and cover `n` units, only claimants with a
remainder get one. -/
theorem mem_bump (hsorted : as.Pairwise fun a b => b.rem ≤ a.rem)
    (hrem : ∀ a ∈ as, 0 ≤ a.rem ∧ a.rem < T) {n : ℤ} (hcover : n * T ≤ (as.map Alloc.rem).sum)
    (hT : 0 < T) {b : Alloc K} (hb : b ∈ bump n as) :
    b ∈ as ∨ ∃ a ∈ as, 0 < a.rem ∧ b = { a with base := a.base + 1 } := by
  induction as generalizing n with
  | nil => exact absurd hb List.not_mem_nil
  | cons a as ih =>
    obtain ⟨hhead, htail⟩ := List.pairwise_cons.1 hsorted
    have ha := hrem a List.mem_cons_self
    unfold bump at hb
    split_ifs at hb with hpos
    · simp only [List.map_cons, List.sum_cons] at hcover
      rcases List.mem_cons.1 hb with rfl | hb
      · -- were the largest remainder zero, all would be, and would not cover a unit
        have hapos : 0 < a.rem := by
          by_contra hzero
          have hle : (as.map Alloc.rem).sum ≤ 0 := by
            have hcard := List.sum_le_card_nsmul (as.map Alloc.rem) 0 fun r hr => by
              obtain ⟨c, hc, rfl⟩ := List.mem_map.1 hr
              exact (hhead c hc).trans (not_lt.1 hzero)
            rwa [nsmul_zero] at hcard
          nlinarith
        exact Or.inr ⟨a, List.mem_cons_self, hapos, rfl⟩
      · rcases ih htail (fun c hc => hrem c (List.mem_cons_of_mem _ hc)) (by linarith) hb with
          hmem | ⟨c, hc, hcpos, rfl⟩
        · exact Or.inl (List.mem_cons_of_mem _ hmem)
        · exact Or.inr ⟨c, List.mem_cons_of_mem _ hc, hcpos, rfl⟩
    · exact Or.inl hb

end Bump

/-! ### The allocation -/

section Allocation

variable {before : Alloc K → Alloc K → Prop} [DecidableRel before] {q : ℤ} {ws : List (K × ℤ)}

theorem map_key_largestRemainder :
    ((largestRemainder before q ws).map Alloc.key).Perm (ws.map Prod.fst) := by
  have hkeys : (floors q ws).map Alloc.key = ws.map Prod.fst := by
    simp [floors, Function.comp_def]
  rw [largestRemainder, map_key_bump, ← hkeys]
  exact (List.perm_insertionSort before _).map _

/-- The remainders, in any order, cover what the floors leave over. -/
theorem leftover_cover : (q - ((floors q ws).map Alloc.base).sum) * total ws =
    (((floors q ws).insertionSort before).map Alloc.rem).sum := by
  rw [sum_floors]
  exact ((List.perm_insertionSort before _).map _).sum_eq.symm

/-- **The order in which claimants are listed does not matter** where the relation tells them
apart. -/
theorem largestRemainder_perm [Std.Total before] [IsTrans _ before] {ws' : List (K × ℤ)}
    (hperm : ws.Perm ws')
    (hanti : ∀ a ∈ floors q ws, ∀ b ∈ floors q ws, before a b → before b a → a = b) :
    largestRemainder before q ws = largestRemainder before q ws' := by
  have htotal : total ws = total ws' := (hperm.map _).sum_eq
  have hfloors : (floors q ws).Perm (floors q ws') := by
    unfold floors
    rw [htotal]
    exact hperm.map _
  have hsort : (floors q ws).insertionSort before = (floors q ws').insertionSort before := by
    refine List.Perm.eq_of_pairwise (fun a b ha hb => ?_)
      (List.pairwise_insertionSort before _) (List.pairwise_insertionSort before _)
      ((List.perm_insertionSort before _).trans
        (hfloors.trans (List.perm_insertionSort before _).symm))
    exact hanti a ((List.mem_insertionSort _).1 ha) b
      (hfloors.mem_iff.2 ((List.mem_insertionSort _).1 hb))
  rw [largestRemainder, largestRemainder, hsort, (hfloors.map Alloc.base).sum_eq]

variable (hT : 0 < total ws)
include hT

theorem rem_bounds {a : Alloc K} (ha : a ∈ (floors q ws).insertionSort before) :
    0 ≤ a.rem ∧ a.rem < total ws := by
  obtain ⟨w, -, rfl⟩ := mem_floors.1 ((List.mem_insertionSort _).1 ha)
  exact ⟨Int.emod_nonneg _ hT.ne', Int.emod_lt_of_pos _ hT⟩

/-- The floors hand out no more than there is. -/
theorem sum_floors_le : ((floors q ws).map Alloc.base).sum ≤ q := by
  have hsum : 0 ≤ ((floors q ws).map Alloc.rem).sum := by
    refine List.sum_nonneg fun r hr => ?_
    obtain ⟨a, ha, rfl⟩ := List.mem_map.1 hr
    obtain ⟨w, -, rfl⟩ := mem_floors.1 ha
    exact Int.emod_nonneg _ hT.ne'
  rw [← sum_floors] at hsum
  exact sub_nonneg.1 (nonneg_of_mul_nonneg_left hsum hT)

/-- With no negative weight, a floor is between nothing and what there is. -/
theorem floor_bounds (hq : 0 ≤ q) (hws : ∀ w ∈ ws, 0 ≤ w.2) {a : Alloc K} (ha : a ∈ floors q ws) :
    0 ≤ a.base ∧ a.base ≤ q := by
  have hnonneg : ∀ a ∈ floors q ws, 0 ≤ a.base := by
    intro a ha
    obtain ⟨w, hw, rfl⟩ := mem_floors.1 ha
    exact Int.ediv_nonneg (mul_nonneg hq (hws w hw)) hT.le
  refine ⟨hnonneg a ha, (List.single_le_sum ?_ _ (List.mem_map_of_mem ha)).trans (sum_floors_le hT)⟩
  intro b hb
  obtain ⟨c, hc, rfl⟩ := List.mem_map.1 hb
  exact hnonneg c hc

/-- **The whole quantity is handed out.** -/
theorem sum_largestRemainder : ((largestRemainder before q ws).map Alloc.base).sum = q := by
  have hnonneg := sub_nonneg.2 (sum_floors_le (q := q) hT)
  rw [largestRemainder, sum_bump (fun a ha => rem_bounds hT ha) hnonneg leftover_cover.le hT,
    ((List.perm_insertionSort before _).map _).sum_eq]
  ring

/-- **Every claimant gets the floor of its exact share, or one unit more if that leaves a
remainder.** -/
theorem floor_or_succ_of_mem [Std.Total before] [IsTrans _ before]
    (hbefore : ∀ a b, before a b → b.rem ≤ a.rem) {a : Alloc K}
    (ha : a ∈ largestRemainder before q ws) :
    ∃ w ∈ ws, a.key = w.1 ∧ (a.base = q * w.2 / total ws ∨
      0 < q * w.2 % total ws ∧ a.base = q * w.2 / total ws + 1) := by
  have hsorted := (List.pairwise_insertionSort before (floors q ws)).imp (hbefore _ _)
  rcases mem_bump hsorted (fun c hc => rem_bounds hT hc) leftover_cover.le hT ha with
    hmem | ⟨c, hc, hpos, rfl⟩
  · obtain ⟨w, hw, rfl⟩ := mem_floors.1 ((List.mem_insertionSort _).1 hmem)
    exact ⟨w, hw, rfl, Or.inl rfl⟩
  · obtain ⟨w, hw, rfl⟩ := mem_floors.1 ((List.mem_insertionSort _).1 hc)
    exact ⟨w, hw, rfl, Or.inr ⟨hpos, rfl⟩⟩

/-- With no negative weight, no claimant gets less than nothing or more than there is. -/
theorem base_bounds [Std.Total before] [IsTrans _ before]
    (hbefore : ∀ a b, before a b → b.rem ≤ a.rem) (hq : 0 ≤ q) (hws : ∀ w ∈ ws, 0 ≤ w.2)
    {a : Alloc K} (ha : a ∈ largestRemainder before q ws) : 0 ≤ a.base ∧ a.base ≤ q := by
  have hnonneg : ∀ a ∈ largestRemainder before q ws, 0 ≤ a.base := by
    intro a ha
    obtain ⟨w, hw, -, hbase⟩ := floor_or_succ_of_mem hT hbefore ha
    have hfloor : 0 ≤ q * w.2 / total ws := Int.ediv_nonneg (mul_nonneg hq (hws w hw)) hT.le
    rcases hbase with hbase | ⟨-, hbase⟩
    · exact hbase ▸ hfloor
    · exact hbase ▸ Int.le_add_one hfloor
  have hle := List.single_le_sum (l := (largestRemainder before q ws).map Alloc.base)
    (fun b hb => by
      obtain ⟨c, hc, rfl⟩ := List.mem_map.1 hb
      exact hnonneg c hc) a.base (List.mem_map_of_mem ha)
  rw [sum_largestRemainder hT] at hle
  exact ⟨hnonneg a ha, hle⟩

/-- **Every claimant gets its exact share up to less than one unit.** -/
theorem abs_sub_lt_of_mem [Std.Total before] [IsTrans _ before]
    (hbefore : ∀ a b, before a b → b.rem ≤ a.rem) {a : Alloc K}
    (ha : a ∈ largestRemainder before q ws) :
    ∃ w ∈ ws, a.key = w.1 ∧ |a.base * total ws - q * w.2| < total ws := by
  obtain ⟨w, hw, hkey, hbase⟩ := floor_or_succ_of_mem hT hbefore ha
  have hdiv := Int.ediv_mul_add_emod (q * w.2) (total ws)
  have hnonneg := Int.emod_nonneg (q * w.2) hT.ne'
  have hlt := Int.emod_lt_of_pos (q * w.2) hT
  refine ⟨w, hw, hkey, ?_⟩
  rcases hbase with hbase | ⟨hpos, hbase⟩
  · rw [hbase]
    exact abs_lt.2 ⟨by linarith, by linarith⟩
  · rw [hbase, add_mul, one_mul]
    exact abs_lt.2 ⟨by linarith, by linarith⟩

end Allocation

end Apportion
