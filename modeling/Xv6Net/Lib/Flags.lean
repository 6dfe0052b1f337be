import Mathlib

/-! Flags kept over a run of events. A flag that each event sets, clears or leaves alone ends as
the last event that touches it left it; a flag that events toggle ends as the parity of their
number. A 32-bit register of such flags is read one bit at a time, and two registers with the same
bits are equal. -/

namespace Xv6Net.Lib.Flags

section Runs

variable {α : Type}

/-- What the last event that touches the flag made of it, `false` when no event touches it. -/
def lastSet (touches sets : α → Bool) (l : List α) : Bool :=
  match l.reverse.find? touches with
  | some e => sets e
  | none => false

@[simp] lemma lastSet_nil (touches sets : α → Bool) : lastSet touches sets [] = false := rfl

lemma lastSet_append_singleton (touches sets : α → Bool) (l : List α) (e : α) :
    lastSet touches sets (l ++ [e]) = if touches e then sets e else lastSet touches sets l := by
  unfold lastSet
  rw [List.reverse_append, List.reverse_singleton, List.singleton_append, List.find?_cons]
  cases touches e <;> rfl

/-- Whether an odd number of the events toggle the flag. -/
def toggled (toggles : α → Bool) (l : List α) : Bool := l.countP toggles % 2 = 1

@[simp] lemma toggled_nil (toggles : α → Bool) : toggled toggles [] = false := rfl

lemma toggled_append_singleton (toggles : α → Bool) (l : List α) (e : α) :
    toggled toggles (l ++ [e]) = (toggled toggles l ^^ toggles e) := by
  unfold toggled
  rw [List.countP_append, List.countP_singleton]
  rcases Nat.mod_two_eq_zero_or_one (l.countP toggles) with h | h <;> cases toggles e <;> simp [Nat.add_mod, h]

end Runs

section Register

/-- Bit `i` of a 32-bit register. -/
def bit (x : UInt32) (i : ℕ) : Bool := x.toBitVec.getLsbD i

@[simp] lemma bit_or (x y : UInt32) (i : ℕ) : bit (x ||| y) i = (bit x i || bit y i) := by
  simp [bit]

@[simp] lemma bit_and (x y : UInt32) (i : ℕ) : bit (x &&& y) i = (bit x i && bit y i) := by
  simp [bit]

@[simp] lemma bit_xor (x y : UInt32) (i : ℕ) : bit (x ^^^ y) i = (bit x i ^^ bit y i) := by
  simp [bit]

@[simp] lemma bit_zero (i : ℕ) : bit 0 i = false := by
  simp [bit]

lemma bit_not (x : UInt32) {i : ℕ} (hi : i < 32) : bit (~~~x) i = !bit x i := by
  simp only [bit, UInt32.toBitVec_not, BitVec.getLsbD_not, hi, decide_true, Bool.true_and]

lemma bit_of_twoPow {m : UInt32} {k : ℕ} (hm : m.toBitVec = BitVec.twoPow 32 k) (hk : k < 32) (i : ℕ) :
    bit m i = decide (k = i) := by
  rw [bit, hm, BitVec.getLsbD_twoPow]
  simp [hk]

lemma and_ne_zero_iff {x m : UInt32} {k : ℕ} (hm : m.toBitVec = BitVec.twoPow 32 k) (hk : k < 32) :
    x &&& m ≠ 0 ↔ bit x k = true := by
  have hm' : m.toNat = 2 ^ k := by
    rw [← UInt32.toNat_toBitVec, hm, BitVec.toNat_twoPow, Nat.mod_eq_of_lt (Nat.pow_lt_pow_right (by norm_num) hk)]
  rw [Ne, ← UInt32.toNat_inj, UInt32.toNat_and, hm', Nat.and_two_pow, bit, ← BitVec.testBit_toNat,
    UInt32.toNat_toBitVec]
  cases x.toNat.testBit k <;> simp

lemma ext_bit {x y : UInt32} (h : ∀ i < 32, bit x i = bit y i) : x = y :=
  UInt32.toBitVec_inj.mp (BitVec.eq_of_getLsbD_eq h)

end Register

end Xv6Net.Lib.Flags
