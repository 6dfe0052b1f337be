import Mathlib
import Xv6Net.Kernel.Syscall
import Xv6Net.Kernel.Vm
import Xv6Net.Lib.Bits

/-! The user stack that `exec` (exec.c) builds, and the argument vector that `sys_exec` (sysfile.c)
reads from the calling process. `exec` allocates two pages above the program, makes the lower one
inaccessible to user mode, pushes the argument strings below the top of the upper one, each
word-aligned, and below them the array `ustack`: a fake return address, `argc`, the address of
`argv`, the string addresses and a null pointer. The new image is seen as its bytes and its size,
as `syscall.c` sees a process. `exec_passes_argv`: the argument vector `sys_exec` hands to `exec` is
the one `sys_exec` reads back from the new image at `argv`. -/

namespace Xv6Net.Kernel.Exec

open Xv6Net.Lib.Bytes Xv6Net.Lib.Bits Xv6Net.Kernel.Syscall Xv6Net.Kernel.Vm

def MAXARG : ℕ := 32

/-- `copyout(pgdir, va, p, len)` into the image `exec` builds, seen from user mode: below `sz` every
page is mapped for the user but the guard page that `clearpteu` left under the stack page, and
nothing is mapped for the user at or above `sz`. The copy succeeds when no byte of it falls in the
guard page or at or above `sz`; what a failing copy wrote is dropped with the image. -/
def copyoutUser (sz va : ℕ) (bs : List UInt8) (m : Mem) : Option Mem :=
  if bs.length = 0 ∨ va + bs.length ≤ sz ∧ (va + bs.length ≤ sz - 2 * PGSIZE.toNat ∨ sz - PGSIZE.toNat ≤ va) then
    some (m.write va bs)
  else none

/-- The loop `for(argc = 0; argv[argc]; argc++)` of `exec` with `sp` and the image's memory: each
string with its NUL goes below `sp`, word-aligned, and its address into `ustack[3+argc]`. -/
def pushArgs (sz : ℕ) : List (List UInt8) → ℕ → UInt32 → Mem → Option (List UInt32 × UInt32 × Mem)
  | [], _, sp, m => some ([], sp, m)
  | s :: argv, argc, sp, m =>
    if argc ≥ MAXARG then none
    else
      let sp := (sp - UInt32.ofNat (s.length + 1)) &&& ~~~3
      match copyoutUser sz sp.toNat (s ++ [0]) m with
      | none => none
      | some m =>
        match pushArgs sz argv (argc + 1) sp m with
        | none => none
        | some (ptrs, sp', m) => some (sp :: ptrs, sp', m)

def wordBytes (ws : List UInt32) : List UInt8 := ws.flatMap fun w => leBytes 4 w.toNat

/-- The stack part of `exec`, from `sp = sz` at the top of the stack page: the `esp` of the new
image and its memory, or `none` where `exec` goes to `bad`. -/
def execStack (sz : ℕ) (argv : List (List UInt8)) (m : Mem) : Option (UInt32 × Mem) :=
  match pushArgs sz argv 0 (UInt32.ofNat sz) m with
  | none => none
  | some (ptrs, sp, m) =>
    let argc := ptrs.length
    -- the fake return PC, `argc`, the `argv` pointer, then `argv` itself
    let ustack : List UInt32 := [0xffffffff, UInt32.ofNat argc, sp - UInt32.ofNat ((argc + 1) * 4)] ++ ptrs ++ [0]
    let sp := sp - UInt32.ofNat ((3 + argc + 1) * 4)
    (copyoutUser sz sp.toNat (wordBytes ustack) m).map fun m => (sp, m)

/-- The loop of `sys_exec` from `argv[i]` on, with `n` entries of its `argv` left: the strings up
to the null pointer, or `none` where it returns -1. -/
def fetchArgv (p : Proc) (uargv : UInt32) : ℕ → ℕ → Option (List (List UInt8))
  | _, 0 => none
  | i, n + 1 =>
    match fetchint p (uargv + 4 * UInt32.ofNat i).toNat with
    | none => none
    | some uarg =>
      if uarg = 0 then some []
      else
        match fetchstr p uarg.toNat with
        | none => none
        | some s => (fetchArgv p uargv (i + 1) n).map (s :: ·)

def sysExecArgv (p : Proc) (uargv : UInt32) : Option (List (List UInt8)) := fetchArgv p uargv 0 MAXARG

/-! ### Stack pointer arithmetic -/

lemma sub_ofNat_toNat {sp : UInt32} {d : ℕ} (h : d ≤ sp.toNat) : (sp - UInt32.ofNat d).toNat = sp.toNat - d := by
  have hlt := sp.toNat_lt
  have hd : d < 2 ^ 32 := lt_of_le_of_lt h hlt
  rw [UInt32.toNat_sub, UInt32.toNat_ofNat_of_lt' hd]
  omega

lemma alignDown_toNat (x : UInt32) : (x &&& ~~~3).toNat = x.toNat / 4 * 4 := by
  rw [UInt32.toNat_and, show (~~~(3 : UInt32)).toNat = 2 ^ 32 - 2 ^ 2 by decide]
  exact and_two_pow_sub_two_pow (by norm_num) x.toNat_lt

lemma alignDown_sub {sp : UInt32} {d : ℕ} (hd : d ≤ 2 ^ 31)
    (h : ((sp - UInt32.ofNat d) &&& ~~~3).toNat + d ≤ 2 ^ 31) :
    d ≤ sp.toNat ∧ ((sp - UInt32.ofNat d) &&& ~~~3).toNat = (sp.toNat - d) / 4 * 4 := by
  have hsub : (sp - UInt32.ofNat d).toNat = (2 ^ 32 - d + sp.toNat) % 2 ^ 32 := by
    rw [UInt32.toNat_sub, UInt32.toNat_ofNat_of_lt' (lt_of_le_of_lt hd (by norm_num) : d < 2 ^ 32)]
  rw [alignDown_toNat, hsub] at h ⊢
  have := sp.toNat_lt
  -- a wrapped difference would lie above `2^31`
  have hle : d ≤ sp.toNat := by
    by_contra hlt
    rw [Nat.mod_eq_of_lt (by omega)] at h
    omega
  refine ⟨hle, ?_⟩
  rw [show (2 ^ 32 - d + sp.toNat) % 2 ^ 32 = sp.toNat - d by omega]

lemma alignDown_sub_of_dvd {sp : UInt32} {d : ℕ} (h4 : sp.toNat % 4 = 0) (hd : d ≤ sp.toNat) :
    ((sp - UInt32.ofNat d) &&& ~~~3).toNat = sp.toNat - (d + 3) / 4 * 4 := by
  rw [alignDown_toNat, sub_ofNat_toNat hd]
  omega

/-! ### The words of `ustack` -/

@[simp] lemma wordBytes_length (ws : List UInt32) : (wordBytes ws).length = 4 * ws.length := by
  induction ws with
  | nil => rfl
  | cons w ws ih =>
    simp only [wordBytes, List.flatMap_cons, List.length_append, leBytes_length] at ih ⊢
    rw [ih, List.length_cons]
    ring

lemma wordBytes_chunk : ∀ (ws : List UInt32) (j : ℕ) (hj : j < ws.length),
    ((wordBytes ws).drop (4 * j)).take 4 = leBytes 4 ws[j].toNat
  | [], _, hj => absurd hj (Nat.not_lt_zero _)
  | w :: ws, 0, _ => by
    simp only [wordBytes, List.flatMap_cons, Nat.mul_zero, List.drop_zero, List.getElem_cons_zero]
    rw [List.take_append_of_le_length (by simp), List.take_of_length_le (by simp)]
  | w :: ws, j + 1, hj => by
    simp only [wordBytes, List.flatMap_cons, List.getElem_cons_succ]
    rw [show 4 * (j + 1) = 4 + 4 * j by ring, ← List.drop_drop, List.drop_left' (leBytes_length 4 _)]
    exact wordBytes_chunk ws j (by simpa using hj)

lemma load32_wordBytes (m : Mem) (a : ℕ) (ws : List UInt32) {j : ℕ} (hj : j < ws.length) :
    (m.write a (wordBytes ws)).load32 (a + 4 * j) = ws[j] := by
  rw [Mem.load32_write_inner m a _ (by simp; omega), wordBytes_chunk ws j hj,
    ofLeBytes_leBytes_of_lt (by simpa using ws[j].toNat_lt), UInt32.ofNat_toNat]

/-! ### The loop that pushes the strings -/

lemma copyoutUser_eq_some {sz va : ℕ} {bs : List UInt8} {m m' : Mem} (h : copyoutUser sz va bs m = some m') :
    m' = m.write va bs ∧ (bs.length = 0 ∨ va + bs.length ≤ sz ∧
      (va + bs.length ≤ sz - 2 * PGSIZE.toNat ∨ sz - PGSIZE.toNat ≤ va)) := by
  unfold copyoutUser at h
  split at h
  · exact ⟨(Option.some.inj h).symm, ‹_›⟩
  · cases h

lemma copyoutUser_isSome {sz va : ℕ} {bs : List UInt8} {m : Mem} :
    (copyoutUser sz va bs m).isSome ↔ bs.length = 0 ∨ va + bs.length ≤ sz ∧
      (va + bs.length ≤ sz - 2 * PGSIZE.toNat ∨ sz - PGSIZE.toNat ≤ va) := by
  unfold copyoutUser
  split <;> simp_all

lemma pushArgs_cons {sz : ℕ} {s : List UInt8} {argv : List (List UInt8)} {argc : ℕ} {sp : UInt32} {m : Mem} :
    pushArgs sz (s :: argv) argc sp m =
      if argc ≥ MAXARG then none
      else (copyoutUser sz ((sp - UInt32.ofNat (s.length + 1)) &&& ~~~3).toNat (s ++ [0]) m).bind fun m1 =>
        (pushArgs sz argv (argc + 1) ((sp - UInt32.ofNat (s.length + 1)) &&& ~~~3) m1).map fun r =>
          (((sp - UInt32.ofNat (s.length + 1)) &&& ~~~3) :: r.1, r.2) := by
  rw [pushArgs]
  split
  · rfl
  dsimp only
  split
  · rename_i hc
    rw [hc, Option.bind_none]
  · rename_i m1 hc
    rw [hc, Option.bind_some]
    split <;> rename_i hr <;> rw [hr] <;> rfl

lemma push_string_bounds {sz d : ℕ} {sp : UInt32} (hsz : sz ≤ 2 ^ 31) (hd : 0 < d)
    (hsp : sz - PGSIZE.toNat ≤ sp.toNat)
    (h : ((sp - UInt32.ofNat d) &&& ~~~3).toNat + d ≤ sz ∧
      (((sp - UInt32.ofNat d) &&& ~~~3).toNat + d ≤ sz - 2 * PGSIZE.toNat ∨
        sz - PGSIZE.toNat ≤ ((sp - UInt32.ofNat d) &&& ~~~3).toNat)) :
    sz - PGSIZE.toNat ≤ ((sp - UInt32.ofNat d) &&& ~~~3).toNat ∧
      ((sp - UInt32.ofNat d) &&& ~~~3).toNat + d ≤ sp.toNat := by
  obtain ⟨hle, heq⟩ := @alignDown_sub sp d (by omega) (by omega)
  have hP : PGSIZE.toNat = 4096 := rfl
  rw [heq] at h ⊢
  omega

lemma push_block_bounds {sz k : ℕ} {sp : UInt32} (hsz : sz ≤ 2 ^ 31) (hk : 0 < k)
    (hsp : sz - PGSIZE.toNat ≤ sp.toNat)
    (h : (sp - UInt32.ofNat k).toNat + k ≤ sz ∧
      ((sp - UInt32.ofNat k).toNat + k ≤ sz - 2 * PGSIZE.toNat ∨ sz - PGSIZE.toNat ≤ (sp - UInt32.ofNat k).toNat)) :
    k ≤ sp.toNat ∧ (sp - UInt32.ofNat k).toNat = sp.toNat - k ∧ sz - PGSIZE.toNat ≤ sp.toNat - k := by
  have hlt := sp.toNat_lt
  -- a wrapped difference would lie above `2^31`
  have hle : k ≤ sp.toNat := by
    by_contra hgt
    rw [UInt32.toNat_sub, UInt32.toNat_ofNat_of_lt' (by omega : k < 2 ^ 32), Nat.mod_eq_of_lt (by omega)] at h
    omega
  have hP : PGSIZE.toNat = 4096 := rfl
  rw [sub_ofNat_toNat hle] at h ⊢
  exact ⟨hle, rfl, by omega⟩

def StringsAt (m : Mem) (lo hi : ℕ) : List UInt32 → List (List UInt8) → Prop :=
  List.Forall₂ fun ptr s => lo ≤ ptr.toNat ∧ ptr.toNat + (s.length + 1) ≤ hi ∧
    m.read ptr.toNat (s.length + 1) = s ++ [0]

lemma StringsAt.mono {m : Mem} {lo lo' hi hi' : ℕ} {ptrs : List UInt32} {argv : List (List UInt8)}
    (h : StringsAt m lo hi ptrs argv) (hlo : lo' ≤ lo) (hhi : hi ≤ hi') : StringsAt m lo' hi' ptrs argv :=
  List.Forall₂.imp (fun _ _ h => ⟨by omega, by omega, h.2.2⟩) h

lemma StringsAt.frame {m m' : Mem} {lo hi : ℕ} {ptrs : List UInt32} {argv : List (List UInt8)}
    (h : StringsAt m lo hi ptrs argv) (hm : ∀ a, lo ≤ a → a < hi → m' a = m a) : StringsAt m' lo hi ptrs argv :=
  List.Forall₂.imp (fun ptr s h => ⟨h.1, h.2.1, by
    rw [← h.2.2]
    exact Mem.read_congr fun i hi => hm _ (by omega) (by omega)⟩) h

lemma pushArgs_spec {sz : ℕ} (hsz : sz ≤ 2 ^ 31) {argv : List (List UInt8)} {argc : ℕ} {sp sp' : UInt32}
    {m m' : Mem} {ptrs : List UInt32} (hsp : sz - PGSIZE.toNat ≤ sp.toNat) (hargc : argc ≤ MAXARG)
    (h : pushArgs sz argv argc sp m = some (ptrs, sp', m')) :
    sz - PGSIZE.toNat ≤ sp'.toNat ∧ sp'.toNat ≤ sp.toNat ∧ argc + ptrs.length ≤ MAXARG ∧
      StringsAt m' sp'.toNat sp.toNat ptrs argv ∧ ∀ a, (a < sp'.toNat ∨ sp.toNat ≤ a) → m' a = m a := by
  induction argv generalizing argc sp m ptrs with
  | nil =>
    simp only [pushArgs, Option.some.injEq, Prod.mk.injEq] at h
    obtain ⟨rfl, rfl, rfl⟩ := h
    exact ⟨hsp, le_rfl, by simpa using hargc, List.Forall₂.nil, fun _ _ => rfl⟩
  | cons s argv ih =>
    simp only [pushArgs] at h
    split at h
    · cases h
    split at h
    · cases h
    rename_i hmax m1 hcopy
    split at h
    · cases h
    rename_i ptrs' sp1 m2 hrest
    simp only [Option.some.injEq, Prod.mk.injEq] at h
    obtain ⟨rfl, rfl, rfl⟩ := h
    obtain ⟨rfl, hfit⟩ := copyoutUser_eq_some hcopy
    rw [List.length_append, List.length_singleton] at hfit
    obtain ⟨hlo, hhi⟩ := push_string_bounds (d := s.length + 1) hsz (by omega) hsp (hfit.resolve_left (by omega))
    obtain ⟨hlo', hle', hcnt, hstr, hframe⟩ := ih hlo (by omega) hrest
    set sp0 := (sp - UInt32.ofNat (s.length + 1)) &&& ~~~3
    refine ⟨hlo', by omega, by simp only [List.length_cons]; omega,
      List.Forall₂.cons ⟨hle', hhi, ?_⟩ (hstr.mono le_rfl (by omega)), fun a ha => ?_⟩
    · -- the later strings went below this one
      have hw := Mem.read_write_self m sp0.toNat (s ++ [0])
      rw [List.length_append, List.length_singleton] at hw
      rw [Mem.read_congr fun i _ => hframe _ (Or.inr (by omega)), hw]
    · rw [hframe a (by omega)]
      rcases ha with ha | ha
      · exact Mem.write_apply_of_lt _ _ (by omega)
      · exact Mem.write_apply_of_ge _ _ (by rw [List.length_append, List.length_singleton]; omega)

/-! ### The stack `exec` hands to the new image -/

lemma execStack_spec {sz : ℕ} (hsz : sz ≤ 2 ^ 31) {argv : List (List UInt8)} {m m' : Mem} {sp : UInt32}
    (h : execStack sz argv m = some (sp, m')) :
    ∃ (ptrs : List UInt32) (m1 : Mem), ptrs.length ≤ MAXARG ∧ sz - PGSIZE.toNat ≤ sp.toNat ∧
      sp.toNat + 4 * (ptrs.length + 4) ≤ sz ∧ StringsAt m1 (sp.toNat + 4 * (ptrs.length + 4)) sz ptrs argv ∧
      m' = m1.write sp.toNat (wordBytes ([0xffffffff, UInt32.ofNat ptrs.length, sp + 12] ++ ptrs ++ [0])) ∧
      ∀ a, (a < sz - PGSIZE.toNat ∨ sz ≤ a) → m1 a = m a := by
  unfold execStack at h
  split at h
  · cases h
  rename_i ptrs sp1 m1 hpush
  obtain ⟨m2, hcopy, hm⟩ := Option.map_eq_some_iff.mp h
  simp only [Prod.mk.injEq] at hm
  obtain ⟨rfl, rfl⟩ := hm
  have htop : (UInt32.ofNat sz).toNat = sz := UInt32.toNat_ofNat_of_lt' (lt_of_le_of_lt hsz (by norm_num) : sz < 2 ^ 32)
  obtain ⟨hlo, hle, hcnt, hstr, hframe⟩ :=
    pushArgs_spec hsz (show sz - PGSIZE.toNat ≤ (UInt32.ofNat sz).toNat by omega) (Nat.zero_le _) hpush
  rw [htop] at hle hstr hframe
  obtain ⟨rfl, hfit⟩ := copyoutUser_eq_some hcopy
  have hk : (wordBytes ([0xffffffff, UInt32.ofNat ptrs.length, sp1 - UInt32.ofNat ((ptrs.length + 1) * 4)] ++
      ptrs ++ [0])).length = (3 + ptrs.length + 1) * 4 := by
    simp only [wordBytes_length, List.length_append, List.length_cons, List.length_nil]
    ring
  rw [hk] at hfit
  obtain ⟨hk4, hsub, hlo2⟩ := push_block_bounds hsz (by omega) hlo (hfit.resolve_left (by omega))
  -- the `argv` pointer `exec` stores is the new `esp` plus the three words before it
  have hargv : sp1 - UInt32.ofNat ((3 + ptrs.length + 1) * 4) + 12 = sp1 - UInt32.ofNat ((ptrs.length + 1) * 4) := by
    rw [show (3 + ptrs.length + 1) * 4 = (ptrs.length + 1) * 4 + 12 by ring, UInt32.ofNat_add]
    grind
  have hend : (sp1 - UInt32.ofNat ((3 + ptrs.length + 1) * 4)).toNat + 4 * (ptrs.length + 4) = sp1.toNat := by
    omega
  refine ⟨ptrs, m1, by omega, by omega, by omega, hend ▸ hstr, by rw [hargv], fun a ha => hframe a (by omega)⟩

lemma fetchArgv_spec {p : Proc} {uargv : UInt32} {i n : ℕ} {argv : List (List UInt8)}
    (h : fetchArgv p uargv i n = some argv) : argv.length < n ∧ ∀ s ∈ argv, 0 ∉ s := by
  induction n generalizing i argv with
  | zero => simp [fetchArgv] at h
  | succ n ih =>
    simp only [fetchArgv] at h
    split at h
    · cases h
    split at h
    · cases h
      simp
    split at h
    · cases h
    rename_i s hs
    obtain ⟨rest, hrest, rfl⟩ := Option.map_eq_some_iff.mp h
    obtain ⟨hlen, hnul⟩ := ih hrest
    exact ⟨by simp only [List.length_cons]; omega, List.forall_mem_cons.mpr ⟨(fetchstr_spec hs).2.2.1, hnul⟩⟩

lemma fetchArgv_of_words {p : Proc} {uargv : UInt32} {ptrs : List UInt32} {argv : List (List UInt8)}
    (hs : List.Forall₂ (fun ptr s => ptr ≠ 0 ∧ fetchstr p ptr.toNat = some s) ptrs argv) {i n : ℕ}
    (hn : ptrs.length < n)
    (hw : ∀ j (hj : j < ptrs.length), fetchint p (uargv + 4 * UInt32.ofNat (i + j)).toNat = some ptrs[j])
    (hz : fetchint p (uargv + 4 * UInt32.ofNat (i + ptrs.length)).toNat = some 0) :
    fetchArgv p uargv i n = some argv := by
  induction hs generalizing i n with
  | nil =>
    obtain ⟨n, rfl⟩ := Nat.exists_eq_add_one_of_ne_zero (Nat.ne_zero_of_lt hn)
    rw [List.length_nil, Nat.add_zero] at hz
    rw [fetchArgv, hz]
    simp
  | @cons ptr s ptrs argv hps _ ih =>
    obtain ⟨n, rfl⟩ := Nat.exists_eq_add_one_of_ne_zero (Nat.ne_zero_of_lt hn)
    have h0 := hw 0 (by simp)
    rw [Nat.add_zero, List.getElem_cons_zero] at h0
    -- the rest of the array, one entry further on
    have hrest : fetchArgv p uargv (i + 1) n = some argv := by
      refine ih (by simpa using hn) (fun j hj => ?_) ?_
      · rw [show i + 1 + j = i + (j + 1) by omega]
        exact hw (j + 1) (by simpa using hj)
      · rw [show i + 1 + ptrs.length = i + (ptr :: ptrs).length by simp; omega]
        exact hz
    rw [fetchArgv, h0]
    simp [hps.1, hps.2, hrest]

lemma fetchstr_of_stringsAt {m : Mem} {lo hi sz esp : ℕ} {ptrs : List UInt32} {argv : List (List UInt8)}
    (h : StringsAt m lo hi ptrs argv) (hlo : 0 < lo) (hhi : hi ≤ sz) (hnul : ∀ s ∈ argv, 0 ∉ s) :
    List.Forall₂ (fun ptr s => ptr ≠ 0 ∧ fetchstr ⟨m, sz, esp⟩ ptr.toNat = some s) ptrs argv := by
  induction h with
  | nil => exact List.Forall₂.nil
  | @cons ptr s ptrs argv hps _ ih =>
    rw [List.forall_mem_cons] at hnul
    refine List.Forall₂.cons ⟨fun h0 => ?_, fetchstr_of_read hnul.1 (by simp only; omega) hps.2.2⟩ (ih hnul.2)
    rw [h0, UInt32.toNat_zero] at hps
    omega

lemma fetchint_wordBytes {m : Mem} {sz a esp : ℕ} {ws : List UInt32} (hfit : a + 4 * ws.length ≤ sz) {j : ℕ}
    (hj : j < ws.length) : fetchint ⟨m.write a (wordBytes ws), sz, esp⟩ (a + 4 * j) = some ws[j] := by
  simp only [fetchint]
  rw [if_neg (by omega), load32_wordBytes m a ws hj]

lemma argvSlot_toNat {sp : UInt32} {j : ℕ} (h : sp.toNat + 12 + 4 * j < 2 ^ 32) :
    (sp + 12 + 4 * UInt32.ofNat j).toNat = sp.toNat + 4 * (3 + j) := by
  have hj : j < 2 ^ 32 := by omega
  simp only [UInt32.toNat_add, UInt32.toNat_mul, UInt32.toNat_ofNat_of_lt' hj]
  simp
  omega

lemma execStack_argv {sz : ℕ} (hsz : sz ≤ 2 ^ 31) {argv : List (List UInt8)} {m m' : Mem} {sp : UInt32}
    (hnul : ∀ s ∈ argv, 0 ∉ s) (hlen : argv.length < MAXARG) (h : execStack sz argv m = some (sp, m')) :
    sysExecArgv ⟨m', sz, sp.toNat⟩ (sp + 12) = some argv ∧
      fetchint ⟨m', sz, sp.toNat⟩ sp.toNat = some 0xffffffff ∧
      fetchint ⟨m', sz, sp.toNat⟩ (sp.toNat + 4) = some (UInt32.ofNat argv.length) ∧
      fetchint ⟨m', sz, sp.toNat⟩ (sp.toNat + 8) = some (sp + 12) ∧
      ∀ a, (a < sz - PGSIZE.toNat ∨ sz ≤ a) → m' a = m a := by
  obtain ⟨ptrs, m1, hcnt, hlo, hfit, hstr, rfl, hframe⟩ := execStack_spec hsz h
  have hl : ptrs.length = argv.length := hstr.length_eq
  -- the strings lie above `ustack`, untouched by it
  have hstr' : StringsAt (m1.write sp.toNat (wordBytes ([0xffffffff, UInt32.ofNat ptrs.length, sp + 12] ++ ptrs ++ [0])))
      (sp.toNat + 4 * (ptrs.length + 4)) sz ptrs argv :=
    hstr.frame fun a ha _ => Mem.write_apply_of_ge _ _ (by simp only [wordBytes_length]; simp; omega)
  have hfit' : sp.toNat + 4 * ([0xffffffff, UInt32.ofNat ptrs.length, sp + 12] ++ ptrs ++ [0]).length ≤ sz := by
    simp only [List.length_append, List.length_cons, List.length_nil]
    omega
  refine ⟨?_, by simpa using fetchint_wordBytes hfit' (j := 0) (by simp),
    by simpa [hl] using fetchint_wordBytes hfit' (j := 1) (by simp), by simpa using fetchint_wordBytes hfit' (j := 2) (by simp),
    fun a ha => ?_⟩
  · refine fetchArgv_of_words (fetchstr_of_stringsAt hstr' (by omega) le_rfl hnul) (by unfold MAXARG at *; omega)
      (fun j hj => ?_) ?_
    · rw [Nat.zero_add, argvSlot_toNat (by omega), fetchint_wordBytes hfit' (by simp; omega)]
      simp only [List.cons_append, List.nil_append, Nat.add_comm 3 j, List.getElem_cons_succ]
      rw [List.getElem_append_left hj]
    · rw [Nat.zero_add, argvSlot_toNat (by omega), fetchint_wordBytes hfit' (by simp; omega)]
      simp only [List.cons_append, List.nil_append, Nat.add_comm 3, List.getElem_cons_succ]
      simp
  · rcases ha with ha | ha
    · rw [Mem.write_apply_of_lt _ _ (by omega), hframe a (Or.inl ha)]
    · rw [Mem.write_apply_of_ge _ _ (by simp only [wordBytes_length] at hfit' ⊢; omega), hframe a (Or.inr ha)]

/-! ### What fits in the stack page -/

-- Each string with its NUL, rounded up to a word as `(sp - (strlen + 1)) & ~3` takes it from an
-- aligned `sp`.
def stackUse (argv : List (List UInt8)) : ℕ := (argv.map fun s => (s.length + 1 + 3) / 4 * 4).sum

@[simp] lemma stackUse_nil : stackUse [] = 0 := rfl

@[simp] lemma stackUse_cons (s : List UInt8) (argv : List (List UInt8)) :
    stackUse (s :: argv) = (s.length + 1 + 3) / 4 * 4 + stackUse argv := by
  simp [stackUse]

lemma push_string_iff {sz d : ℕ} {sp : UInt32} (hsz : sz ≤ 2 ^ 31) (hd : 0 < d)
    (hsp : sz - PGSIZE.toNat ≤ sp.toNat) (hsp' : sp.toNat ≤ sz) (h4 : sp.toNat % 4 = 0) :
    (((sp - UInt32.ofNat d) &&& ~~~3).toNat + d ≤ sz ∧
      (((sp - UInt32.ofNat d) &&& ~~~3).toNat + d ≤ sz - 2 * PGSIZE.toNat ∨
        sz - PGSIZE.toNat ≤ ((sp - UInt32.ofNat d) &&& ~~~3).toNat)) ↔
      (d + 3) / 4 * 4 ≤ sp.toNat - (sz - PGSIZE.toNat) := by
  constructor
  · intro h
    obtain ⟨hlo, hhi⟩ := push_string_bounds hsz hd hsp h
    have hle := (@alignDown_sub sp d (by omega) (by omega)).1
    rw [alignDown_sub_of_dvd h4 hle] at hlo
    omega
  · intro h
    rw [alignDown_sub_of_dvd h4 (by omega)]
    omega

lemma push_block_iff {sz k : ℕ} {sp : UInt32} (hsz : sz ≤ 2 ^ 31) (hk : 0 < k)
    (hsp : sz - PGSIZE.toNat ≤ sp.toNat) (hsp' : sp.toNat ≤ sz) :
    ((sp - UInt32.ofNat k).toNat + k ≤ sz ∧
      ((sp - UInt32.ofNat k).toNat + k ≤ sz - 2 * PGSIZE.toNat ∨ sz - PGSIZE.toNat ≤ (sp - UInt32.ofNat k).toNat)) ↔
      k ≤ sp.toNat - (sz - PGSIZE.toNat) := by
  constructor
  · intro h
    obtain ⟨hle, -, hlo⟩ := push_block_bounds hsz hk hsp h
    omega
  · intro h
    rw [sub_ofNat_toNat (by omega)]
    omega

lemma pushArgs_sp_eq {sz : ℕ} (hsz : sz ≤ 2 ^ 31) {argv : List (List UInt8)} {argc : ℕ} {sp sp' : UInt32}
    {m m' : Mem} {ptrs : List UInt32} (hsp : sz - PGSIZE.toNat ≤ sp.toNat) (h4 : sp.toNat % 4 = 0)
    (h : pushArgs sz argv argc sp m = some (ptrs, sp', m')) : sp'.toNat = sp.toNat - stackUse argv := by
  induction argv generalizing argc sp m ptrs with
  | nil =>
    simp only [pushArgs, Option.some.injEq, Prod.mk.injEq] at h
    rw [← h.2.1, stackUse_nil, Nat.sub_zero]
  | cons s argv ih =>
    rw [pushArgs_cons] at h
    split at h
    · cases h
    obtain ⟨m1, hc, h⟩ := Option.bind_eq_some_iff.mp h
    obtain ⟨⟨ptrs', sp2, m2⟩, hr, he⟩ := Option.map_eq_some_iff.mp h
    simp only [Prod.mk.injEq] at he
    obtain ⟨-, rfl, rfl⟩ := he
    obtain ⟨-, hfit⟩ := copyoutUser_eq_some hc
    rw [List.length_append, List.length_singleton] at hfit
    obtain ⟨hlo, hhi⟩ := push_string_bounds (d := s.length + 1) hsz (by omega) hsp (hfit.resolve_left (by omega))
    have hsp1 := alignDown_sub_of_dvd (d := s.length + 1) h4 (by omega)
    rw [ih (by omega) (by omega) hr, hsp1, stackUse_cons]
    omega

lemma pushArgs_isSome {sz : ℕ} (hsz : sz ≤ 2 ^ 31) {argv : List (List UInt8)} {argc : ℕ} {sp : UInt32} {m : Mem}
    (hsp : sz - PGSIZE.toNat ≤ sp.toNat) (hsp' : sp.toNat ≤ sz) (h4 : sp.toNat % 4 = 0) (hargc : argc ≤ MAXARG) :
    (pushArgs sz argv argc sp m).isSome ↔
      argc + argv.length ≤ MAXARG ∧ stackUse argv ≤ sp.toNat - (sz - PGSIZE.toNat) := by
  induction argv generalizing argc sp m with
  | nil => simp [pushArgs, hargc]
  | cons s argv ih =>
    rw [pushArgs_cons, stackUse_cons, List.length_cons]
    split
    · simp only [Option.isSome_none, Bool.false_eq_true, false_iff]
      omega
    have hstep := push_string_iff (d := s.length + 1) hsz (by omega) hsp hsp' h4
    have hcopy := @copyoutUser_isSome sz ((sp - UInt32.ofNat (s.length + 1)) &&& ~~~3).toNat (s ++ [0]) m
    rw [List.length_append, List.length_singleton, hstep] at hcopy
    cases hc : copyoutUser sz ((sp - UInt32.ofNat (s.length + 1)) &&& ~~~3).toNat (s ++ [0]) m with
    | none =>
      rw [hc] at hcopy
      simp only [Option.bind_none, Option.isSome_none, Bool.false_eq_true, false_iff] at hcopy ⊢
      omega
    | some m1 =>
      rw [hc] at hcopy
      simp only [Option.isSome_some, true_iff] at hcopy
      -- the rest goes on from the rounded-down `sp`
      have hsp1 := alignDown_sub_of_dvd (d := s.length + 1) h4 (by omega)
      rw [Option.bind_some, Option.isSome_map, ih (by omega) (by omega) (by omega) (by omega), hsp1]
      omega

theorem exec_stack_fits {sz : ℕ} {argv : List (List UInt8)} {m : Mem} (hsz : sz ≤ 2 ^ 31)
    (hP : PGSIZE.toNat ≤ sz) (h4 : sz % 4 = 0) :
    (execStack sz argv m).isSome ↔ argv.length ≤ MAXARG ∧ stackUse argv + 4 * (argv.length + 4) ≤ PGSIZE.toNat := by
  have htop : (UInt32.ofNat sz).toNat = sz := UInt32.toNat_ofNat_of_lt' (lt_of_le_of_lt hsz (by norm_num) : sz < 2 ^ 32)
  have hpush := @pushArgs_isSome sz hsz argv 0 (UInt32.ofNat sz) m (by omega) (by omega) (by omega) (Nat.zero_le _)
  rw [htop, Nat.zero_add] at hpush
  unfold execStack
  split
  · rename_i hp
    rw [hp] at hpush
    simp only [Option.isSome_none, Bool.false_eq_true, false_iff, not_and] at hpush ⊢
    omega
  · rename_i ptrs sp1 m1 hp
    obtain ⟨hlo, -, -, hstr, -⟩ := pushArgs_spec hsz (show sz - PGSIZE.toNat ≤ (UInt32.ofNat sz).toNat by omega) (Nat.zero_le _) hp
    have hsp1 := pushArgs_sp_eq hsz (show sz - PGSIZE.toNat ≤ (UInt32.ofNat sz).toNat by omega) (by omega) hp
    have hl : ptrs.length = argv.length := hstr.length_eq
    have hfit := hpush.mp (by rw [hp]; rfl)
    rw [htop] at hsp1
    -- the words of `ustack` still fit under the strings
    rw [Option.isSome_map, copyoutUser_isSome, wordBytes_length]
    simp only [List.length_append, List.length_cons, List.length_nil]
    rw [show 4 * (0 + 1 + 1 + 1 + ptrs.length + (0 + 1)) = (3 + ptrs.length + 1) * 4 by ring,
      push_block_iff hsz (by omega) hlo (by omega)]
    omega

-- One string of 4075 bytes takes, with its NUL and the five words of `ustack`, the whole page.
theorem page_long_argument_fits : (execStack (3 * 4096) [List.replicate 4075 1] (fun _ => 0)).isSome :=
  (exec_stack_fits (by norm_num) (by decide) (by norm_num)).mpr ⟨by decide, by rw [stackUse_cons, List.length_replicate]; decide⟩

theorem exec_passes_argv {p : Proc} {uargv : UInt32} {argv : List (List UInt8)} {sz : ℕ} {m m' : Mem}
    {sp : UInt32} (hsz : sz ≤ 2 ^ 31) (hargv : sysExecArgv p uargv = some argv)
    (h : execStack sz argv m = some (sp, m')) :
    sysExecArgv ⟨m', sz, sp.toNat⟩ (sp + 12) = some argv ∧
      fetchint ⟨m', sz, sp.toNat⟩ sp.toNat = some 0xffffffff ∧
      fetchint ⟨m', sz, sp.toNat⟩ (sp.toNat + 4) = some (UInt32.ofNat argv.length) ∧
      fetchint ⟨m', sz, sp.toNat⟩ (sp.toNat + 8) = some (sp + 12) ∧
      ∀ a, (a < sz - PGSIZE.toNat ∨ sz ≤ a) → m' a = m a := by
  -- `sys_exec` only hands on what `exec` can push and read back
  obtain ⟨hlen, hnul⟩ := fetchArgv_spec hargv
  exact execStack_argv hsz hnul hlen h

theorem echo_hi_passes_argv : ∃ sp m', execStack (3 * 4096) [[104, 105]] (fun _ => 0) = some (sp, m') ∧
    sysExecArgv ⟨m', 3 * 4096, sp.toNat⟩ (sp + 12) = some [[104, 105]] := by
  obtain ⟨⟨sp, m'⟩, h⟩ : ∃ r, execStack (3 * 4096) [[104, 105]] (fun _ => 0) = some r :=
    Option.isSome_iff_exists.mp (by decide)
  have hargv : sysExecArgv ⟨Mem.ofList [8, 0, 0, 0, 0, 0, 0, 0, 104, 105, 0], 11, 0⟩ 0 = some [[104, 105]] := by
    decide
  exact ⟨sp, m', h, (exec_passes_argv (by norm_num) hargv h).1⟩

end Xv6Net.Kernel.Exec
