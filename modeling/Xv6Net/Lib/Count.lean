import Mathlib

/-! How many keys of a map on a finite type take a given value, and how one update of the map changes
that number. A reference count that is kept equal to such a number is then checked one update at a
time. -/

namespace Xv6Net.Lib.Count

variable {κ ι α : Type}

section Count

variable [Fintype κ] [DecidableEq α]

/-- The number of keys at which `g` takes the value `a`. -/
def countAt (g : κ → α) (a : α) : ℕ := (Finset.univ.filter fun k => g k = a).card

lemma countAt_eq_sum (g : κ → α) (a : α) : countAt g a = ∑ k, if g k = a then 1 else 0 := by
  rw [countAt, Finset.card_filter]

lemma countAt_update [DecidableEq κ] (g : κ → α) (k : κ) (v a : α) :
    countAt (Function.update g k v) a + (if g k = a then 1 else 0) = countAt g a + (if v = a then 1 else 0) := by
  rw [countAt_eq_sum, countAt_eq_sum, ← Finset.add_sum_erase _ _ (Finset.mem_univ k),
    ← Finset.add_sum_erase _ (fun x => if g x = a then 1 else 0) (Finset.mem_univ k)]
  -- away from `k` the two maps agree
  have hrest : ∑ x ∈ Finset.univ.erase k, (if Function.update g k v x = a then 1 else 0) =
      ∑ x ∈ Finset.univ.erase k, (if g x = a then 1 else 0) := by
    refine Finset.sum_congr rfl fun x hx => ?_
    rw [Function.update_of_ne (Finset.ne_of_mem_erase hx)]
  rw [hrest, Function.update_self]
  omega

lemma countAt_eq_zero {g : κ → α} {a : α} : countAt g a = 0 ↔ ∀ k, g k ≠ a := by
  simp [countAt, Finset.filter_eq_empty_iff]

lemma countAt_pos {g : κ → α} {a : α} : 0 < countAt g a ↔ ∃ k, g k = a := by
  rw [Nat.pos_iff_ne_zero, Ne, countAt_eq_zero]
  simp

end Count

/-- A count set back to zero at the one key where it was raised. -/
@[simp] lemma update_zero_zero [DecidableEq κ] (k : κ) : Function.update (0 : κ → ℕ) k 0 = 0 :=
  Function.update_eq_self k 0

lemma update_update_zero [DecidableEq κ] {a b : κ} (hne : a ≠ b) (k : κ) :
    Function.update (Function.update (0 : κ → ℕ) a 1) b 1 k = (if k = a then 1 else 0) + (if k = b then 1 else 0) := by
  rcases eq_or_ne k b with rfl | hb
  · simp [Ne.symm hne]
  · rcases eq_or_ne k a with rfl | ha
    · simp [hb]
    · simp [ha, hb]

/-- A table of rows, such as one array per process, read as one map on pairs. -/
def uncurried (g : κ → ι → α) : κ × ι → α := fun q => g q.1 q.2

lemma uncurried_update [DecidableEq κ] [DecidableEq ι] (g : κ → ι → α) (k : κ) (i : ι) (v : α) :
    uncurried (Function.update g k (Function.update (g k) i v)) = Function.update (uncurried g) (k, i) v := by
  funext q
  obtain ⟨k', i'⟩ := q
  by_cases hk : k' = k
  · subst hk
    by_cases hi : i' = i
    · subst hi
      simp [uncurried]
    · simp [uncurried, Function.update_of_ne hi, Function.update_of_ne (fun h : (k', i') = (k', i) => hi (Prod.ext_iff.mp h).2)]
  · simp [uncurried, Function.update_of_ne hk, Function.update_of_ne (fun h : (k', i') = (k, i) => hk (Prod.ext_iff.mp h).1)]

section Rows

variable [Fintype κ] [Fintype ι] [DecidableEq α]

lemma countAt_uncurried (g : κ → ι → α) (a : α) : countAt (uncurried g) a = ∑ k, countAt (g k) a := by
  simp only [countAt_eq_sum, uncurried]
  exact Fintype.sum_prod_type _

lemma countAt_uncurried_update [DecidableEq κ] (g : κ → ι → α) (k : κ) (row : ι → α) (a : α) :
    countAt (uncurried (Function.update g k row)) a + countAt (g k) a = countAt (uncurried g) a + countAt row a := by
  rw [countAt_uncurried, countAt_uncurried, ← Finset.add_sum_erase _ _ (Finset.mem_univ k),
    ← Finset.add_sum_erase _ (fun k => countAt (g k) a) (Finset.mem_univ k)]
  -- the other rows are the same
  have hrest : ∑ x ∈ Finset.univ.erase k, countAt (Function.update g k row x) a =
      ∑ x ∈ Finset.univ.erase k, countAt (g x) a := by
    refine Finset.sum_congr rfl fun x hx => ?_
    rw [Function.update_of_ne (Finset.ne_of_mem_erase hx)]
  rw [hrest, Function.update_self]
  omega

end Rows

end Xv6Net.Lib.Count
