import Mathlib.Data.Finmap
import Mathlib.Algebra.BigOperators.Group.Finset.Basic
import Mathlib.Algebra.Order.BigOperators.Group.Finset
import Mathlib.Algebra.BigOperators.Group.List.Basic
import Mathlib.Tactic.Abel

/-!
# Sums over finite maps

Finite maps with a default value, in the way a hash map with default-inserting access is used,
and sums over their entries.

* `Finmap.get`: the value at a key, `0` where the key is absent;
* `Finmap.adjust`: add to the value at a key, inserting it when absent;
* `Finmap.sumOver`: the sum of a function of the entries, with what inserting and erasing an entry
  does to it;
* `Finset.sum_range_update`: what changing one index does to a sum over a range.
-/

namespace Finmap

variable {K V M : Type*} [DecidableEq K]

section Default

variable [Zero V]

/-- The value at a key, `0` where the key is absent. -/
def get (m : Finmap fun _ : K => V) (k : K) : V := (m.lookup k).getD 0

@[simp] theorem get_empty (k : K) : (∅ : Finmap fun _ : K => V).get k = 0 := by
  simp [get]

@[simp] theorem get_insert_self (m : Finmap fun _ : K => V) (k : K) (v : V) :
    (m.insert k v).get k = v := by
  simp [get]

theorem get_insert_of_ne (m : Finmap fun _ : K => V) {k k' : K} (v : V) (h : k' ≠ k) :
    (m.insert k v).get k' = m.get k' := by
  rw [get, lookup_insert_of_ne m h, get]

theorem get_insert (m : Finmap fun _ : K => V) (k k' : K) (v : V) :
    (m.insert k v).get k' = if k' = k then v else m.get k' := by
  split_ifs with h
  · rw [h, get_insert_self]
  · exact get_insert_of_ne m v h

end Default

section Adjust

variable [AddCommGroup V]

/-- Add `d` to the value at `k`; an absent key starts from `0`. -/
def adjust (m : Finmap fun _ : K => V) (k : K) (d : V) : Finmap fun _ : K => V :=
  m.insert k (m.get k + d)

theorem get_adjust (m : Finmap fun _ : K => V) (k k' : K) (d : V) :
    (m.adjust k d).get k' = m.get k' + if k' = k then d else 0 := by
  rw [adjust, get_insert]
  split_ifs with h
  · rw [h]
  · rw [add_zero]

@[simp] theorem get_adjust_self (m : Finmap fun _ : K => V) (k : K) (d : V) :
    (m.adjust k d).get k = m.get k + d := by
  simp [get_adjust]

/-- Adding entry by entry adds, at each key, what the list holds for it. -/
theorem get_foldl_adjust {A : Type*} (key : A → K) (d : A → V) (as : List A)
    (m : Finmap fun _ : K => V) (k : K) :
    (as.foldl (fun m a => m.adjust (key a) (d a)) m).get k =
      m.get k + (as.map fun a => if k = key a then d a else 0).sum := by
  induction as generalizing m with
  | nil => simp
  | cons a as ih => rw [List.foldl_cons, ih, get_adjust, List.map_cons, List.sum_cons, add_assoc]

/-- Adding entry by entry adds keys. -/
theorem mem_foldl_adjust {A : Type*} (key : A → K) (d : A → V) (as : List A)
    (m : Finmap fun _ : K => V) (k : K) :
    k ∈ as.foldl (fun m a => m.adjust (key a) (d a)) m ↔ k ∈ m ∨ k ∈ as.map key := by
  induction as generalizing m with
  | nil => simp
  | cons a as ih =>
    rw [List.foldl_cons, ih, adjust, mem_insert, List.map_cons, List.mem_cons, or_assoc,
      or_left_comm]

end Adjust

section Keys

/-- Inserting updates the lookup at one key. -/
theorem lookup_insert_update (m : Finmap fun _ : K => V) (k : K) (v : V) :
    (fun k' => (m.insert k v).lookup k') = Function.update (fun k' => m.lookup k') k (some v) := by
  funext k'
  by_cases hk : k' = k
  · subst hk
    rw [Function.update_self, lookup_insert]
  · rw [Function.update_of_ne hk, lookup_insert_of_ne _ hk]

theorem lookup_erase_update (m : Finmap fun _ : K => V) (k : K) :
    (fun k' => (m.erase k).lookup k') = Function.update (fun k' => m.lookup k') k none := by
  funext k'
  by_cases hk : k' = k
  · subst hk
    rw [Function.update_self, lookup_erase]
  · rw [Function.update_of_ne hk, lookup_erase_ne hk]

@[simp] theorem keys_insert (m : Finmap fun _ : K => V) (k : K) (v : V) :
    (m.insert k v).keys = Insert.insert k m.keys := by
  ext k'
  rw [mem_keys, mem_insert, Finset.mem_insert, mem_keys]

end Keys

section Sum

variable [AddCommGroup M]

/-- What the entry at `k` contributes to a sum: `0` where the key is absent. -/
def term (m : Finmap fun _ : K => V) (f : K → V → M) (k : K) : M := (m.lookup k).elim 0 (f k)

/-- The sum of `f` over the entries of a map. -/
def sumOver (m : Finmap fun _ : K => V) (f : K → V → M) : M := ∑ k ∈ m.keys, m.term f k

variable (m : Finmap fun _ : K => V) (f : K → V → M)

@[simp] theorem sumOver_empty : (∅ : Finmap fun _ : K => V).sumOver f = 0 := by
  simp [sumOver]

theorem term_of_lookup {k : K} {v : V} (h : m.lookup k = some v) : m.term f k = f k v := by
  rw [term, h]; rfl

theorem term_of_notMem {k : K} (h : k ∉ m) : m.term f k = 0 := by
  rw [term, lookup_eq_none.2 h]; rfl

theorem sumOver_erase (k : K) : (m.erase k).sumOver f = m.sumOver f - m.term f k := by
  have hterm : ∀ k' ∈ m.keys.erase k, (m.erase k).term f k' = m.term f k' := fun k' hk' => by
    rw [term, lookup_erase_ne (Finset.ne_of_mem_erase hk'), term]
  rw [sumOver, keys_erase, Finset.sum_congr rfl hterm, sumOver]
  by_cases hk : k ∈ m.keys
  · rw [← Finset.sum_erase_add _ _ hk, add_sub_cancel_right]
  · rw [Finset.erase_eq_of_notMem hk, term_of_notMem m f (fun h => hk (mem_keys.2 h)), sub_zero]

/-- Writing an entry replaces its old contribution by the new one. -/
theorem sumOver_insert (k : K) (v : V) :
    (m.insert k v).sumOver f = m.sumOver f - m.term f k + f k v := by
  have hself : (m.insert k v).term f k = f k v := term_of_lookup _ _ (lookup_insert m)
  have herase : (m.insert k v).erase k = m.erase k := by
    apply ext_lookup
    intro k'
    by_cases h : k' = k
    · subst h; rw [lookup_erase, lookup_erase]
    · rw [lookup_erase_ne h, lookup_erase_ne h, lookup_insert_of_ne m h]
  have h := sumOver_erase (m.insert k v) f k
  rw [herase, sumOver_erase, hself] at h
  rw [h]
  abel

end Sum

section Order

variable [AddCommGroup M] [PartialOrder M] [IsOrderedAddMonoid M]
variable (m : Finmap fun _ : K => V) (f : K → V → M)

theorem sumOver_nonneg (h : ∀ k v, m.lookup k = some v → 0 ≤ f k v) : 0 ≤ m.sumOver f := by
  refine Finset.sum_nonneg fun k hk => ?_
  obtain ⟨v, hv⟩ := mem_iff.1 (mem_keys.1 hk)
  rw [term_of_lookup m f hv]
  exact h k v hv

end Order

end Finmap

/-- Changing the summand at one index of a range changes the sum by the difference there. -/
theorem Finset.sum_range_update {M : Type*} [AddCommGroup M] {n i : ℕ} {f g : ℕ → M} (hi : i < n)
    (h : ∀ j, j ≠ i → g j = f j) :
    ∑ j ∈ Finset.range n, g j = ∑ j ∈ Finset.range n, f j - f i + g i := by
  have hmem : i ∈ Finset.range n := Finset.mem_range.2 hi
  rw [← Finset.sum_erase_add _ g hmem, ← Finset.sum_erase_add _ f hmem, add_sub_cancel_right]
  congr 1
  exact Finset.sum_congr rfl fun j hj => h j (Finset.ne_of_mem_erase hj)

/-- In an association list without repeated keys, the entries of a key are one entry. -/
theorem List.sum_map_ite_of_nodup {K M : Type*} [DecidableEq K] [AddCommMonoid M]
    {l : List (K × M)} (hnodup : (l.map Prod.fst).Nodup) {c : K × M} (hc : c ∈ l) :
    (l.map fun c' => if c.1 = c'.1 then c'.2 else 0).sum = c.2 := by
  induction l with
  | nil => exact absurd hc List.not_mem_nil
  | cons a l ih =>
    obtain ⟨hnot, hnodup'⟩ := List.nodup_cons.1 hnodup
    rw [List.map_cons, List.sum_cons]
    rcases List.mem_cons.1 hc with rfl | hc
    · have hrest : (l.map fun c' => if c.1 = c'.1 then c'.2 else 0).sum = 0 := by
        refine List.sum_eq_zero fun d hd => ?_
        obtain ⟨c', hc', rfl⟩ := List.mem_map.1 hd
        exact if_neg fun heq : c.1 = c'.1 => hnot (heq ▸ List.mem_map_of_mem hc')
      rw [hrest, add_zero, if_pos rfl]
    · have hne : c.1 ≠ a.1 := fun heq : c.1 = a.1 => hnot (heq ▸ List.mem_map_of_mem hc)
      rw [if_neg hne, zero_add, ih hnodup' hc]

/-- Entries that are left out add nothing. -/
theorem List.sum_map_filterMap {A B M : Type*} [AddMonoid M] (f : A → Option B) (g : B → M)
    (l : List A) : ((l.filterMap f).map g).sum = (l.map fun a => (f a).elim 0 g).sum := by
  induction l with
  | nil => rfl
  | cons a l ih =>
    rw [List.map_cons, List.sum_cons, ← ih]
    cases ha : f a with
    | none => rw [List.filterMap_cons_none ha, Option.elim_none, zero_add]
    | some b => rw [List.filterMap_cons_some ha, List.map_cons, List.sum_cons, Option.elim_some]
