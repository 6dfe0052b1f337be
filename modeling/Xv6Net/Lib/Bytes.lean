import Mathlib

/-! Byte-addressed memories with reads and writes of byte strings, and the little-endian
encoding of naturals in a fixed number of bytes. -/

namespace Xv6Net.Lib.Bytes

abbrev Mem := ℕ → UInt8

namespace Mem

def write (m : Mem) (a : ℕ) (bs : List UInt8) : Mem :=
  fun x => if a ≤ x ∧ x < a + bs.length then bs.getD (x - a) 0 else m x

def read (m : Mem) (a n : ℕ) : List UInt8 :=
  (List.range n).map fun i => m (a + i)

@[simp] lemma read_length (m : Mem) (a n : ℕ) : (m.read a n).length = n := by
  simp [read]

@[simp] lemma read_zero (m : Mem) (a : ℕ) : m.read a 0 = [] := rfl

lemma read_succ (m : Mem) (a n : ℕ) : m.read a (n + 1) = m a :: m.read (a + 1) n := by
  simp only [read, List.range_succ_eq_map, List.map_cons, List.map_map, Nat.add_zero, Function.comp_def]
  congr 2
  funext i
  congr 1
  omega

lemma read_add (m : Mem) (a n k : ℕ) : m.read a (n + k) = m.read a n ++ m.read (a + n) k := by
  induction n generalizing a with
  | zero => simp
  | succ n ih =>
    rw [Nat.add_right_comm, read_succ, read_succ, ih, List.cons_append,
      show a + (n + 1) = a + 1 + n by omega]

lemma read_congr {m m' : Mem} {a n : ℕ} (h : ∀ i < n, m (a + i) = m' (a + i)) :
    m.read a n = m'.read a n := by
  simp only [read]
  apply List.map_congr_left
  intro i hi
  exact h i (List.mem_range.mp hi)

lemma read_ext {m : Mem} {a : ℕ} {bs : List UInt8} (h : ∀ i (hi : i < bs.length), m (a + i) = bs[i]) :
    m.read a bs.length = bs := by
  apply List.ext_getElem (by simp)
  intro i hi _
  simp only [read, List.getElem_map, List.getElem_range]
  exact h i (by simpa using hi)

lemma write_apply_of_lt (m : Mem) (bs : List UInt8) {a x : ℕ} (h : x < a) : m.write a bs x = m x := by
  simp only [write]
  rw [if_neg (by omega)]

lemma write_apply_of_ge (m : Mem) (bs : List UInt8) {a x : ℕ} (h : a + bs.length ≤ x) :
    m.write a bs x = m x := by
  simp only [write]
  rw [if_neg (by omega)]

lemma write_apply_add (m : Mem) (a : ℕ) (bs : List UInt8) {i : ℕ} (h : i < bs.length) :
    m.write a bs (a + i) = bs[i] := by
  simp only [write]
  rw [if_pos (by omega), Nat.add_sub_cancel_left, List.getD_eq_getElem _ _ h]

lemma write_nil (m : Mem) (a : ℕ) : m.write a [] = m := by
  funext x
  simp [write]

lemma read_write_self (m : Mem) (a : ℕ) (bs : List UInt8) : (m.write a bs).read a bs.length = bs :=
  read_ext fun _ hi => write_apply_add m a bs hi

lemma read_write_of_disjoint (m : Mem) (bs : List UInt8) {a b n : ℕ} (h : b + n ≤ a ∨ a + bs.length ≤ b) :
    (m.write a bs).read b n = m.read b n := by
  apply read_congr
  intro i hi
  rcases h with h | h
  · exact write_apply_of_lt m bs (by omega)
  · exact write_apply_of_ge m bs (by omega)

lemma read_write_inner (m : Mem) (a : ℕ) (bs : List UInt8) {i n : ℕ} (h : i + n ≤ bs.length) :
    (m.write a bs).read (a + i) n = (bs.drop i).take n := by
  have hl : ((bs.drop i).take n).length = n := by simp; omega
  conv_lhs => rw [← hl]
  apply read_ext
  intro j hj
  rw [Nat.add_assoc, write_apply_add m a bs (by simp at hj; omega)]
  simp

lemma write_append (m : Mem) (a : ℕ) (bs cs : List UInt8) {b : ℕ} (hb : b = a + bs.length) :
    (m.write a bs).write b cs = m.write a (bs ++ cs) := by
  subst hb
  funext x
  simp only [write, List.length_append]
  by_cases h1 : a + bs.length ≤ x ∧ x < a + bs.length + cs.length
  · rw [if_pos h1, if_pos (by omega), List.getD_append_right _ _ _ _ (by omega), Nat.sub_sub]
  · rw [if_neg h1]
    by_cases h2 : a ≤ x ∧ x < a + bs.length
    · rw [if_pos h2, if_pos (by omega), List.getD_append _ _ _ _ (by omega)]
    · rw [if_neg h2, if_neg (by omega)]

end Mem

def leBytes : ℕ → ℕ → List UInt8
  | 0, _ => []
  | w + 1, v => UInt8.ofNat (v % 256) :: leBytes w (v / 256)

def ofLeBytes : List UInt8 → ℕ
  | [] => 0
  | b :: bs => b.toNat + 256 * ofLeBytes bs

@[simp] lemma leBytes_length (w v : ℕ) : (leBytes w v).length = w := by
  induction w generalizing v with
  | zero => rfl
  | succ w ih => simp [leBytes, ih]

lemma ofLeBytes_leBytes (w v : ℕ) : ofLeBytes (leBytes w v) = v % 256 ^ w := by
  induction w generalizing v with
  | zero => simp [leBytes, ofLeBytes, Nat.mod_one]
  | succ w ih =>
    have hb : (UInt8.ofNat (v % 256)).toNat = v % 256 := by
      simp only [UInt8.toNat_ofNat']
      omega
    rw [leBytes, ofLeBytes, ih, hb, pow_succ', Nat.mod_mul]

lemma ofLeBytes_leBytes_of_lt {w v : ℕ} (h : v < 256 ^ w) : ofLeBytes (leBytes w v) = v := by
  rw [ofLeBytes_leBytes, Nat.mod_eq_of_lt h]

lemma leBytes_succ_add {w b : ℕ} (v : ℕ) (hb : b < 256) :
    leBytes (w + 1) (b + 256 * v) = UInt8.ofNat b :: leBytes w v := by
  have hmod : (b + 256 * v) % 256 = b := by omega
  have hdiv : (b + 256 * v) / 256 = v := by omega
  rw [leBytes, hmod, hdiv]

def signed (v : UInt32) : ℤ := if v.toNat < 2 ^ 31 then v.toNat else (v.toNat : ℤ) - 2 ^ 32

lemma signed_ofNat {n : ℕ} (h : n < 2 ^ 31) : signed (UInt32.ofNat n) = n := by
  have hn : (UInt32.ofNat n).toNat = n := by rw [UInt32.toNat_ofNat']; omega
  rw [signed, hn, if_pos h]

namespace Mem

def ofList (bs : List UInt8) : Mem := fun a => bs.getD a 0

def store16 (m : Mem) (a : ℕ) (v : UInt16) : Mem := m.write a (leBytes 2 v.toNat)

def store32 (m : Mem) (a : ℕ) (v : UInt32) : Mem := m.write a (leBytes 4 v.toNat)

def load16 (m : Mem) (a : ℕ) : UInt16 := UInt16.ofNat (ofLeBytes (m.read a 2))

def load32 (m : Mem) (a : ℕ) : UInt32 := UInt32.ofNat (ofLeBytes (m.read a 4))

lemma load16_eq_of_read (m : Mem) (a : ℕ) {b0 b1 : UInt8} (h : m.read a 2 = [b0, b1]) :
    m.load16 a = UInt16.ofNat (b0.toNat + 256 * b1.toNat) := by
  rw [load16, h, ofLeBytes, ofLeBytes, ofLeBytes, Nat.mul_zero, Nat.add_zero]

lemma load32_store32_self (m : Mem) (a : ℕ) (v : UInt32) : (m.store32 a v).load32 a = v := by
  have h := read_write_self m a (leBytes 4 v.toNat)
  rw [leBytes_length] at h
  rw [load32, store32, h, ofLeBytes_leBytes_of_lt (by simpa using v.toNat_lt), UInt32.ofNat_toNat]

lemma load32_store32_of_disjoint (m : Mem) (v : UInt32) {a b : ℕ} (h : b + 4 ≤ a ∨ a + 4 ≤ b) :
    (m.store32 a v).load32 b = m.load32 b := by
  rw [load32, store32, read_write_of_disjoint m _ (by simpa using h), load32]

lemma load32_write_of_disjoint (m : Mem) (bs : List UInt8) {a b : ℕ} (h : b + 4 ≤ a ∨ a + bs.length ≤ b) :
    (m.write a bs).load32 b = m.load32 b := by
  rw [load32, read_write_of_disjoint m _ h, load32]

lemma load16_write_inner (m : Mem) (a : ℕ) (bs : List UInt8) {i : ℕ} (h : i + 2 ≤ bs.length) :
    (m.write a bs).load16 (a + i) = UInt16.ofNat (ofLeBytes ((bs.drop i).take 2)) := by
  rw [load16, read_write_inner m a bs h]

lemma load32_write_inner (m : Mem) (a : ℕ) (bs : List UInt8) {i : ℕ} (h : i + 4 ≤ bs.length) :
    (m.write a bs).load32 (a + i) = UInt32.ofNat (ofLeBytes ((bs.drop i).take 4)) := by
  rw [load32, read_write_inner m a bs h]

lemma ofList_write_length (l bs : List UInt8) : (ofList l).write l.length bs = ofList (l ++ bs) := by
  funext x
  simp only [write, ofList]
  by_cases h : l.length ≤ x ∧ x < l.length + bs.length
  · rw [if_pos h, List.getD_append_right _ _ _ _ h.1]
  · rw [if_neg h]
    by_cases hx : x < l.length
    · rw [List.getD_append _ _ _ _ hx]
    · rw [List.getD_append_right _ _ _ _ (by omega), List.getD_eq_default _ _ (by omega),
        List.getD_eq_default _ _ (by omega)]

lemma read_ofList (l : List UInt8) {o n : ℕ} (h : o + n ≤ l.length) : (ofList l).read o n = (l.drop o).take n := by
  apply List.ext_getElem (by simp; omega)
  intro i hi _
  rw [read_length] at hi
  simp [read, ofList, List.getD_eq_getElem?_getD, List.getElem?_eq_getElem (show o + i < l.length by omega)]

end Mem

end Xv6Net.Lib.Bytes
