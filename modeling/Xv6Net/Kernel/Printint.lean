import Mathlib.Data.Nat.Digits.Lemmas

/-! `printint` of `console.c` and of `printf.c`: the characters each one sends out, one by one
from the end of its buffer. The two differ only in the case of their hex digits and in where the
characters go. -/

namespace Xv6Net.Kernel.Printint

/-- `do{ buf[i++] = digits[x % base]; }while((x /= base) != 0);` on at most `fuel` rounds: the
digits of `x` go into `buf` least significant first. -/
def digitLoop (digits : List Char) (base : ℕ) : ℕ → ℕ → List Char → List Char
  | 0, _, buf => buf
  | fuel + 1, x, buf =>
    let buf := buf ++ [digits.getD (x % base) '\x00']
    if x / base ≠ 0 then digitLoop digits base fuel (x / base) buf else buf

/-- The buffer of `printint(xx, base, sign)`: `-xx` and `xx` read as `uint`, its digits, and `'-'`
last for a negative number printed signed. 32 rounds are enough for any base of at least 2. -/
def printintBuf (digits : List Char) (xx : Int32) (base : ℕ) (sign : Bool) : List Char :=
  let neg := sign && decide (xx < 0)
  let x := (if neg then -xx else xx).toUInt32.toNat
  let buf := digitLoop digits base 32 x []
  if neg then buf ++ ['-'] else buf

/-- `while(--i >= 0) consputc(buf[i]);`: the buffer from its end. -/
def printintWith (digits : List Char) (xx : Int32) (base : ℕ) (sign : Bool) : List Char :=
  (printintBuf digits xx base sign).reverse

def consoleDigits : List Char := "0123456789abcdef".toList
def printfDigits : List Char := "0123456789ABCDEF".toList

namespace Console

/-- `printint` of `console.c`: the characters it passes to `consputc`. -/
def printint (xx : Int32) (base : ℕ) (sign : Bool) : List Char := printintWith consoleDigits xx base sign

end Console

namespace Printf

/-- `printint` of `printf.c`: the `putc(fd, c)` calls it makes. -/
def printint (fd : ℕ) (xx : Int32) (base : ℕ) (sgn : Bool) : List (ℕ × Char) :=
  (printintWith printfDigits xx base sgn).map (fd, ·)

end Printf

/-! ### The digits -/

/-- The shortest digit string of `x` in base `base`, most significant digit first: one digit for
`0`, and otherwise `Nat.digits`, whose most significant digit is not 0. -/
def digitString (digits : List Char) (base x : ℕ) : List Char :=
  if x = 0 then [digits.getD 0 '\x00'] else ((Nat.digits base x).map fun d => digits.getD d '\x00').reverse

section Digits

variable {digits : List Char} {base : ℕ}

lemma digitLoop_eq (hb : 2 ≤ base) : ∀ {fuel x : ℕ} (buf : List Char), x < base ^ (fuel + 1) →
    digitLoop digits base (fuel + 1) x buf = buf ++ (digitString digits base x).reverse
  | fuel, 0, buf, _ => by
    simp [digitLoop, digitString, Nat.zero_div]
  | 0, x + 1, buf, hx => by
    -- one digit: the number is below the base
    have hlt : x + 1 < base := by simpa using hx
    rw [digitLoop, if_neg (by rw [Nat.div_eq_of_lt hlt]; simp), digitString, if_neg (by omega),
      Nat.digits_def' (by omega) (by omega), Nat.div_eq_of_lt hlt, Nat.mod_eq_of_lt hlt]
    simp
  | fuel + 1, x + 1, buf, hx => by
    by_cases hq : (x + 1) / base = 0
    · have hlt : x + 1 < base := by
        rcases Nat.lt_or_ge (x + 1) base with h | h
        · exact h
        · exact absurd hq (Nat.pos_iff_ne_zero.mp (Nat.div_pos h (by omega)))
      rw [digitLoop, if_neg (fun h => h hq), digitString, if_neg (by omega),
        Nat.digits_def' (by omega) (by omega), Nat.div_eq_of_lt hlt, Nat.mod_eq_of_lt hlt]
      simp
    · have hx' : (x + 1) / base < base ^ (fuel + 1) := by
        rw [Nat.div_lt_iff_lt_mul (by omega), ← Nat.pow_succ]
        exact hx
      rw [digitLoop, if_pos hq, digitLoop_eq hb _ hx', digitString, digitString, if_neg hq, if_neg (by omega),
        Nat.digits_def' (b := base) (by omega) (by omega : 0 < x + 1)]
      simp

lemma length_digitString (hb : 2 ≤ base) {x k : ℕ} (hk : 0 < k) (hx : x < base ^ k) :
    (digitString digits base x).length ≤ k := by
  unfold digitString
  split_ifs with h
  · simp only [List.length_singleton]
    omega
  · simpa using (Nat.digits_length_le_iff (by omega) x).mpr hx

end Digits

/-! ### The value printed -/

lemma natAbs_of_neg {xx : Int32} (h : xx < 0) : (-xx).toUInt32.toNat = xx.toInt.natAbs := by
  rw [← UInt32.toNat_toBitVec, Int32.toBitVec_toUInt32, Int32.toBitVec_neg, BitVec.toNat_neg,
    ← Int32.toInt_toBitVec, BitVec.toInt_eq_toNat_cond]
  rw [Int32.lt_iff_toInt_lt, ← Int32.toInt_toBitVec, BitVec.toInt_eq_toNat_cond] at h
  have := xx.toBitVec.isLt
  have h0 : Int32.toInt 0 = 0 := rfl
  split_ifs at h ⊢ <;> omega

lemma natAbs_of_nonneg {xx : Int32} (h : ¬ xx < 0) : xx.toUInt32.toNat = xx.toInt.natAbs := by
  rw [← UInt32.toNat_toBitVec, Int32.toBitVec_toUInt32, ← Int32.toInt_toBitVec, BitVec.toInt_eq_toNat_cond]
  rw [Int32.lt_iff_toInt_lt, ← Int32.toInt_toBitVec, BitVec.toInt_eq_toNat_cond] at h
  have := xx.toBitVec.isLt
  have h0 : Int32.toInt 0 = 0 := rfl
  split_ifs at h ⊢ <;> omega

lemma natAbs_le (xx : Int32) : xx.toInt.natAbs ≤ 2 ^ 31 := by
  have := xx.toInt_lt
  have := xx.le_toInt
  omega

lemma printintBuf_signed (digits : List Char) {base : ℕ} (hb : 2 ≤ base) (xx : Int32) :
    printintBuf digits xx base true =
      (digitString digits base xx.toInt.natAbs).reverse ++ if xx < 0 then ['-'] else [] := by
  have hx : xx.toInt.natAbs < base ^ 32 :=
    Nat.lt_of_le_of_lt (natAbs_le xx) (Nat.lt_of_lt_of_le (by norm_num) (Nat.pow_le_pow_left hb 32))
  unfold printintBuf
  by_cases h : xx < 0
  · simp only [h, decide_true, Bool.and_self, if_true]
    rw [natAbs_of_neg h, digitLoop_eq hb _ hx, List.nil_append]
  · simp only [h, decide_false, Bool.and_false, if_false, Bool.false_eq_true]
    rw [natAbs_of_nonneg h, digitLoop_eq hb _ hx, List.nil_append, List.append_nil]

lemma printintBuf_unsigned (digits : List Char) {base : ℕ} (hb : 2 ≤ base) (xx : Int32) :
    printintBuf digits xx base false = (digitString digits base xx.toUInt32.toNat).reverse := by
  have hx : xx.toUInt32.toNat < base ^ 32 :=
    Nat.lt_of_lt_of_le xx.toUInt32.toNat_lt (Nat.pow_le_pow_left hb 32)
  unfold printintBuf
  simp only [Bool.false_and, if_false, Bool.false_eq_true]
  rw [digitLoop_eq hb _ hx, List.nil_append]

lemma printintWith_signed (digits : List Char) {base : ℕ} (hb : 2 ≤ base) (xx : Int32) :
    printintWith digits xx base true =
      (if xx < 0 then ['-'] else []) ++ digitString digits base xx.toInt.natAbs := by
  unfold printintWith
  rw [printintBuf_signed digits hb, List.reverse_append, List.reverse_reverse]
  split_ifs <;> rfl

lemma printintWith_unsigned (digits : List Char) {base : ℕ} (hb : 2 ≤ base) (xx : Int32) :
    printintWith digits xx base false = digitString digits base xx.toUInt32.toNat := by
  unfold printintWith
  rw [printintBuf_unsigned digits hb, List.reverse_reverse]

/-- Both `printint`s print the shortest digit string: in base 10 signed, with `'-'` exactly for a
negative number, `INT_MIN` included; in base 16 unsigned, of the number read as `uint`. Neither
fills more than 11 of the 16 bytes of `buf`. -/
theorem printint_exact (xx : Int32) :
    Console.printint xx 10 true = (if xx < 0 then ['-'] else []) ++ digitString consoleDigits 10 xx.toInt.natAbs ∧
    Console.printint xx 16 false = digitString consoleDigits 16 xx.toUInt32.toNat ∧
    (∀ fd, Printf.printint fd xx 10 true =
      ((if xx < 0 then ['-'] else []) ++ digitString printfDigits 10 xx.toInt.natAbs).map (fd, ·)) ∧
    (∀ fd, Printf.printint fd xx 16 false = (digitString printfDigits 16 xx.toUInt32.toNat).map (fd, ·)) ∧
    ∀ digits, (printintBuf digits xx 10 true).length ≤ 11 ∧ (printintBuf digits xx 16 false).length ≤ 11 := by
  refine ⟨printintWith_signed _ (by norm_num) xx, printintWith_unsigned _ (by norm_num) xx,
    fun fd => by rw [Printf.printint, printintWith_signed _ (by norm_num) xx],
    fun fd => by rw [Printf.printint, printintWith_unsigned _ (by norm_num) xx], fun digits => ⟨?_, ?_⟩⟩
  · -- at most 10 digits for `|xx| ≤ 2^31`, and the sign
    have hd : (digitString digits 10 xx.toInt.natAbs).length ≤ 10 :=
      length_digitString (by norm_num) (by norm_num) (Nat.lt_of_le_of_lt (natAbs_le xx) (by norm_num))
    rw [printintBuf_signed digits (by norm_num), List.length_append, List.length_reverse]
    split_ifs <;> simp only [List.length_singleton, List.length_nil] <;> omega
  · have hd : (digitString digits 16 xx.toUInt32.toNat).length ≤ 8 :=
      length_digitString (by norm_num) (by norm_num) (Nat.lt_of_lt_of_le xx.toUInt32.toNat_lt (by norm_num))
    rw [printintBuf_unsigned digits (by norm_num), List.length_reverse]
    omega

example : Console.printint (-2147483648) 10 true = "-2147483648".toList := by decide

end Xv6Net.Kernel.Printint
