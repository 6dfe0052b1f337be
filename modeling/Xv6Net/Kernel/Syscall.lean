import Xv6Net.Lib.Bytes

/-! System-call argument fetching of `syscall.c`. While a process runs, its user addresses are
kernel addresses, so the process is seen through the bytes of its memory and its size. -/

namespace Xv6Net.Kernel.Syscall

open Xv6Net.Lib.Bytes

structure Proc where
  mem : Mem
  sz : ℕ
  -- `tf->esp`, the saved user stack pointer
  esp : ℕ

def fetchint (p : Proc) (addr : ℕ) : Option UInt32 :=
  if addr ≥ p.sz ∨ addr + 4 > p.sz then none else some (p.mem.load32 addr)

-- The scan `for (s = *pp; s < ep; s++) if (*s == 0) return s - *pp;` with `ep - s` bytes left.
def strlenBelow (m : Mem) (s : ℕ) : ℕ → Option ℕ
  | 0 => none
  | k + 1 => if m s = 0 then some 0 else (strlenBelow m (s + 1) k).map (· + 1)

def fetchstr (p : Proc) (addr : ℕ) : Option (List UInt8) :=
  if addr ≥ p.sz then none else (strlenBelow p.mem addr (p.sz - addr)).map (p.mem.read addr)

def argint (p : Proc) (n : ℕ) : Option UInt32 := fetchint p ((p.esp + 4 + 4 * n) % 2 ^ 32)

def argptr (p : Proc) (n : ℕ) (size : ℤ) : Option ℕ :=
  match argint p n with
  | none => none
  | some i =>
    if size < 0 ∨ i.toNat ≥ p.sz ∨ (i.toNat + size.toNat) % 2 ^ 32 > p.sz then none else some i.toNat

def argstr (p : Proc) (n : ℕ) : Option (List UInt8) :=
  match argint p n with
  | none => none
  | some addr => fetchstr p addr.toNat

lemma strlenBelow_spec {m : Mem} {s k n : ℕ} (h : strlenBelow m s k = some n) :
    n < k ∧ m (s + n) = 0 ∧ ∀ i < n, m (s + i) ≠ 0 := by
  induction k generalizing s n with
  | zero => simp [strlenBelow] at h
  | succ k ih =>
    simp only [strlenBelow] at h
    split at h
    · obtain rfl := Option.some.inj h.symm
      exact ⟨by omega, by simpa using ‹m s = 0›, fun i hi => by omega⟩
    · obtain ⟨n', hn', rfl⟩ := Option.map_eq_some_iff.mp h
      obtain ⟨hlt, hz, hne⟩ := ih hn'
      refine ⟨by omega, by rw [← hz]; congr 1; omega, fun i hi => ?_⟩
      cases i with
      | zero => simpa using ‹¬ m s = 0›
      | succ i =>
        have := hne i (by omega)
        rwa [show s + 1 + i = s + (i + 1) by omega] at this

lemma fetchstr_spec {p : Proc} {addr : ℕ} {str : List UInt8} (h : fetchstr p addr = some str) :
    addr + str.length < p.sz ∧ p.mem (addr + str.length) = 0 ∧ 0 ∉ str ∧ p.mem.read addr str.length = str := by
  simp only [fetchstr] at h
  split at h
  · cases h
  · obtain ⟨n, hn, rfl⟩ := Option.map_eq_some_iff.mp h
    obtain ⟨hlt, hz, hne⟩ := strlenBelow_spec hn
    refine ⟨by simp; omega, by simpa using hz, fun hmem => ?_, by simp⟩
    obtain ⟨i, hi, hi0⟩ := List.getElem_of_mem hmem
    simp only [Mem.read, List.getElem_map, List.getElem_range] at hi0
    exact hne i (by simpa using hi) hi0

-- The `uint` sum `(uint)i + size` cannot wrap for a process below 2^31 and an `int` size.

lemma strlenBelow_of_read {m : Mem} {s : List UInt8} {a k : ℕ} (hs : 0 ∉ s) (hk : s.length < k)
    (hr : m.read a (s.length + 1) = s ++ [0]) : strlenBelow m a k = some s.length := by
  induction s generalizing a k with
  | nil =>
    obtain ⟨k, rfl⟩ := Nat.exists_eq_add_one_of_ne_zero (Nat.ne_zero_of_lt hk)
    have h0 : m a = 0 := by simpa [Mem.read_succ] using hr
    simp [strlenBelow, h0]
  | cons b s ih =>
    obtain ⟨k, rfl⟩ := Nat.exists_eq_add_one_of_ne_zero (Nat.ne_zero_of_lt hk)
    rw [List.length_cons, Mem.read_succ, List.cons_append, List.cons.injEq] at hr
    have hb : m a ≠ 0 := by
      rw [hr.1]
      exact fun h => hs (h ▸ List.mem_cons_self)
    rw [strlenBelow, if_neg hb, ih (fun h => hs (List.mem_cons_of_mem b h)) (by simpa using hk) hr.2]
    rfl

lemma fetchstr_of_read {p : Proc} {a : ℕ} {s : List UInt8} (hs : 0 ∉ s) (hlt : a + s.length < p.sz)
    (hr : p.mem.read a (s.length + 1) = s ++ [0]) : fetchstr p a = some s := by
  have hpre : p.mem.read a s.length = s := by
    rw [Mem.read_add] at hr
    exact List.append_inj_left hr (by simp)
  rw [fetchstr, if_neg (by omega), strlenBelow_of_read hs (by omega) hr, Option.map_some, hpre]

end Xv6Net.Kernel.Syscall
