import Mathlib.Data.Nat.Bitwise

namespace Xv6Net.Lib.Bits

lemma and_two_pow_sub_two_pow {x n k : ℕ} (hk : k ≤ n) (hx : x < 2 ^ n) :
    x &&& (2 ^ n - 2 ^ k) = x / 2 ^ k * 2 ^ k := by
  have hm : 2 ^ n - 2 ^ k = 2 ^ k * (2 ^ (n - k) - 1) := by
    rw [Nat.mul_sub, mul_one, ← pow_add, Nat.add_sub_cancel' hk]
  have hpos : 0 < 2 ^ k := Nat.two_pow_pos k
  -- the low `k` bits are cleared, the bits above them kept
  have hlo : (x &&& (2 ^ n - 2 ^ k)) % 2 ^ k = 0 := by
    rw [Nat.and_mod_two_pow, hm, Nat.mul_mod_right, Nat.and_zero]
  have hhi : (x &&& (2 ^ n - 2 ^ k)) / 2 ^ k = x / 2 ^ k := by
    have hlt : x / 2 ^ k < 2 ^ (n - k) := by
      rw [Nat.div_lt_iff_lt_mul hpos, ← pow_add, Nat.sub_add_cancel hk]
      exact hx
    rw [Nat.and_div_two_pow, hm, Nat.mul_div_cancel_left _ hpos, Nat.and_two_pow_sub_one_eq_mod,
      Nat.mod_eq_of_lt hlt]
  have h := Nat.div_add_mod (x &&& (2 ^ n - 2 ^ k)) (2 ^ k)
  rw [hlo, hhi, add_zero, mul_comm] at h
  exact h.symm

end Xv6Net.Lib.Bits
