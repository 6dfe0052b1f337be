import Mathlib.Data.Nat.ModEq

/-! A ring of `N` cells addressed by a counter taken `% N`, and `window buf a k`, the `k` cells from
position `a` on. A write at a cell past the window leaves it as it was; a write at the cell right after it
extends it by one. -/

namespace Xv6Net.Lib.Ring

variable {α : Type} (N : ℕ)

def window (buf : ℕ → α) (a : ℕ) : ℕ → List α
  | 0 => []
  | k + 1 => window buf a k ++ [buf ((a + k) % N)]

variable {N}

@[simp] lemma window_zero (buf : ℕ → α) (a : ℕ) : window N buf a 0 = [] := rfl

lemma window_succ (buf : ℕ → α) (a k : ℕ) : window N buf a (k + 1) = window N buf a k ++ [buf ((a + k) % N)] := rfl

@[simp] lemma window_length (buf : ℕ → α) (a : ℕ) : ∀ k, (window N buf a k).length = k
  | 0 => rfl
  | k + 1 => by rw [window_succ, List.length_append, window_length buf a k, List.length_singleton]

lemma window_congr {buf buf' : ℕ → α} {a b : ℕ} :
    ∀ k, (∀ i < k, buf ((a + i) % N) = buf' ((b + i) % N)) → window N buf a k = window N buf' b k
  | 0, _ => rfl
  | k + 1, h => by
    rw [window_succ, window_succ, window_congr k fun i hi => h i (by omega), h k (by omega)]

lemma window_mod {a b : ℕ} (h : a % N = b % N) (buf : ℕ → α) (k : ℕ) : window N buf a k = window N buf b k :=
  window_congr k fun _ _ => by rw [Nat.add_mod, h, ← Nat.add_mod]

lemma window_add (buf : ℕ → α) (a k : ℕ) : ∀ l, window N buf a (k + l) = window N buf a k ++ window N buf (a + k) l
  | 0 => by simp
  | l + 1 => by
    rw [← Nat.add_assoc, window_succ, window_add buf a k l, window_succ, List.append_assoc, Nat.add_assoc]

lemma window_succ_left (buf : ℕ → α) (a k : ℕ) : window N buf a (k + 1) = buf (a % N) :: window N buf (a + 1) k := by
  rw [Nat.add_comm k 1, window_add]
  rfl

section Write

variable {buf : ℕ → α} {a k : ℕ}

-- Two positions less than `N` apart are different cells.
lemma mod_ne_of_lt {i j : ℕ} (hij : i < j) (hj : j < N) : (a + i) % N ≠ (a + j) % N := fun h =>
  absurd (Nat.ModEq.eq_of_lt_of_lt (Nat.ModEq.add_left_cancel' a h) (by omega) hj) (by omega)

lemma window_update_of_le {j : ℕ} (hkj : k ≤ j) (hj : j < N) (x : α) :
    window N (Function.update buf ((a + j) % N) x) a k = window N buf a k :=
  window_congr k fun _ hi => Function.update_of_ne (mod_ne_of_lt (by omega) hj) _ _

lemma window_push (hk : k < N) (x : α) :
    window N (Function.update buf ((a + k) % N) x) a (k + 1) = window N buf a k ++ [x] := by
  rw [window_succ, window_update_of_le le_rfl hk, Function.update_self]

end Write

end Xv6Net.Lib.Ring
