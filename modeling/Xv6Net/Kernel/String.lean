import Xv6Net.Lib.Bytes

/-! `memmove` of `string.c` over byte memory: it copies down from the ends when the source starts
below the destination and reaches into it, and up from the starts otherwise. Pointers are 32-bit,
so every pointer sum is taken modulo `2^32`. -/

namespace Xv6Net.Kernel.String

open Xv6Net.Lib.Bytes

/-- `s += n; d += n; while(n-- > 0) *--d = *--s;` -/
def copyDown (s d : ℕ) : ℕ → Mem → Mem
  | 0, m => m
  | n + 1, m => copyDown s d n (Function.update m ((d + n) % 2 ^ 32) (m ((s + n) % 2 ^ 32)))

/-- `while(n-- > 0) *d++ = *s++;` -/
def copyUp : ℕ → ℕ → ℕ → Mem → Mem
  | 0, _, _, m => m
  | n + 1, s, d, m => copyUp n ((s + 1) % 2 ^ 32) ((d + 1) % 2 ^ 32) (Function.update m d (m s))

/-- `memmove(dst, src, n)`. -/
def memmove (m : Mem) (dst src n : ℕ) : Mem :=
  if src < dst ∧ (src + n) % 2 ^ 32 > dst then copyDown src dst n m else copyUp n src dst m

lemma copyDown_apply {s d : ℕ} (hsd : s ≤ d) : ∀ {n : ℕ} (m : Mem), d + n ≤ 2 ^ 32 → ∀ a,
    copyDown s d n m a = if d ≤ a ∧ a < d + n then m (s + (a - d)) else m a
  | 0, m, _, a => by simp [copyDown]
  | n + 1, m, hd, a => by
    rw [copyDown, copyDown_apply hsd _ (by omega), Nat.mod_eq_of_lt (by omega : d + n < 2 ^ 32),
      Nat.mod_eq_of_lt (by omega : s + n < 2 ^ 32)]
    by_cases ha : a = d + n
    · subst ha
      simp
    · by_cases hin : d ≤ a ∧ a < d + n
      · rw [if_pos hin, if_pos (by omega), Function.update_of_ne (by omega)]
      · rw [if_neg hin, if_neg (by omega), Function.update_of_ne ha]

lemma copyUp_apply : ∀ {n s d : ℕ} (m : Mem), d ≤ s ∨ s + n ≤ d → s + n ≤ 2 ^ 32 → d + n ≤ 2 ^ 32 →
    ∀ a, copyUp n s d m a = if d ≤ a ∧ a < d + n then m (s + (a - d)) else m a
  | 0, _, _, m, _, _, _, a => by simp [copyUp]
  | 1, s, d, m, _, _, _, a => by
    by_cases ha : a = d
    · subst ha
      simp [copyUp]
    · rw [copyUp, copyUp, if_neg (by omega), Function.update_of_ne ha]
  | n + 2, s, d, m, hsd, hs, hd, a => by
    rw [copyUp, Nat.mod_eq_of_lt (by omega : s + 1 < 2 ^ 32), Nat.mod_eq_of_lt (by omega : d + 1 < 2 ^ 32),
      copyUp_apply _ (by omega) (by omega) (by omega)]
    by_cases ha : a = d
    · subst ha
      simp
    · by_cases hin : d + 1 ≤ a ∧ a < d + 1 + (n + 1)
      · -- the source byte lies past `d`, which is the only byte written so far
        rw [if_pos hin, if_pos (by omega), Function.update_of_ne (by omega)]
        congr 1
        omega
      · rw [if_neg hin, if_neg (by omega), Function.update_of_ne ha]

lemma copyDown_frame (s : ℕ) {d : ℕ} : ∀ {n : ℕ} (m : Mem), d + n ≤ 2 ^ 32 → ∀ a, a < d ∨ d + n ≤ a →
    copyDown s d n m a = m a
  | 0, _, _, _, _ => rfl
  | n + 1, m, hd, a, ha => by
    rw [copyDown, copyDown_frame s _ (by omega) a (by omega), Nat.mod_eq_of_lt (by omega : d + n < 2 ^ 32),
      Function.update_of_ne (by omega)]

lemma copyUp_frame : ∀ {n s d : ℕ} (m : Mem), d + n ≤ 2 ^ 32 → ∀ a, a < d ∨ d + n ≤ a → copyUp n s d m a = m a
  | 0, _, _, _, _, _, _ => rfl
  | n + 1, s, d, m, hd, a, ha => by
    rw [copyUp]
    rcases Nat.lt_or_ge (d + 1) (2 ^ 32) with h | h
    · rw [Nat.mod_eq_of_lt h, copyUp_frame _ (by omega) a (by omega), Function.update_of_ne (by omega)]
    · -- `d` is the last address, so this byte was the last one
      obtain rfl : n = 0 := by omega
      rw [copyUp, Function.update_of_ne (by omega)]

lemma memmove_frame (m : Mem) {dst : ℕ} (src : ℕ) {n : ℕ} (hd : dst + n ≤ 2 ^ 32) :
    ∀ a, a < dst ∨ dst + n ≤ a → memmove m dst src n a = m a := by
  intro a ha
  unfold memmove
  split_ifs
  · exact copyDown_frame src m hd a ha
  · exact copyUp_frame m hd a ha

/-- `memmove` is overlap-safe: for ranges that lie in the 32-bit address space, in any relative
position, the destination ends up with the source's original bytes and nothing else changes. -/
theorem memmove_overlap_safe (m : Mem) (dst src n : ℕ) (hs : src + n ≤ 2 ^ 32) (hd : dst + n ≤ 2 ^ 32) :
    (∀ i < n, memmove m dst src n (dst + i) = m (src + i)) ∧
      ∀ a, a < dst ∨ dst + n ≤ a → memmove m dst src n a = m a := by
  -- both copies have the same effect, each under its own condition
  have key : ∀ a, memmove m dst src n a = if dst ≤ a ∧ a < dst + n then m (src + (a - dst)) else m a := by
    intro a
    unfold memmove
    by_cases hc : src < dst ∧ (src + n) % 2 ^ 32 > dst
    · rw [if_pos hc]
      exact copyDown_apply (Nat.le_of_lt hc.1) m hd a
    · -- below `2^32` the sum does not wrap, so `src < dst` leaves the destination past the source
      rw [if_neg hc]
      refine copyUp_apply m ?_ hs hd a
      by_cases hlt : src < dst
      · have : src + n < 2 ^ 32 := by omega
        rw [Nat.mod_eq_of_lt this] at hc
        omega
      · omega
  refine ⟨fun i hi => ?_, fun a ha => ?_⟩
  · rw [key, if_pos (by omega)]
    congr 1
    omega
  · rw [key, if_neg (by omega)]

/-- `memmove(2, 0, 4)` over a memory holding each address's low byte: the ranges overlap and the
bytes move up by two. -/
theorem memmove_shift_up : 0 + 4 ≤ 2 ^ 32 ∧ 2 + 4 ≤ 2 ^ 32 ∧
    ∀ i < 4, memmove (fun a => UInt8.ofNat a) 2 0 4 (2 + i) = UInt8.ofNat (0 + i) :=
  ⟨by decide, by decide, (memmove_overlap_safe _ 2 0 4 (by decide) (by decide)).1⟩

end Xv6Net.Kernel.String
