import Xv6Net.Kernel.Vm

/-! What `copyout` and `growproc` do to a process's page table: `copyout` through an address with
no page table, and `growproc` shrinking a process to size zero. -/

namespace Xv6Net.Kernel.UserMem

open Xv6Net.Lib.Bytes Xv6Net.Kernel.Vm

structure UProc where
  pgdir : UInt32
  sz : UInt32

def growproc (kend : UInt32) (p : UProc) (n : ℤ) (st : Phys) : Except String (ℤ × UProc × Phys) :=
  if n > 0 then do
    let (sz, st) ← allocuvm kend p.pgdir p.sz (p.sz + UInt32.ofInt n) st
    if sz = 0 then pure (-1, p, st) else pure (0, { p with sz := sz }, st)
  else if n < 0 then do
    let (sz, st) ← deallocuvm kend p.pgdir p.sz (p.sz + UInt32.ofInt n) st
    if sz = 0 then pure (-1, p, st) else pure (0, { p with sz := sz }, st)
  else pure (0, p, st)

lemma PDX_PGROUNDDOWN (a : UInt32) : PDX (PGROUNDDOWN a) = PDX a := by
  simp only [PDX, PGROUNDDOWN, PGSIZE]
  apply UInt32.toBitVec_inj.mp
  simp only [UInt32.toBitVec_and, UInt32.toBitVec_shiftRight, UInt32.toBitVec_not, UInt32.toBitVec_ofNat,
    UInt32.toBitVec_sub]
  ext i hi
  simp only [BitVec.getElem_and]
  interval_cases i <;> simp_all

@[simp] lemma Phys.load_store_self (st : Phys) (a v : UInt32) : (st.store a v).load a = v :=
  Mem.load32_store32_self _ _ _

lemma Phys.load_store_of_disjoint (st : Phys) {a b : UInt32} (v : UInt32) (h : b.toNat + 4 ≤ a.toNat ∨ a.toNat + 4 ≤ b.toNat) :
    (st.store a v).load b = st.load b :=
  Mem.load32_store32_of_disjoint _ _ h

lemma Phys.load_memset_of_disjoint (st : Phys) {a b : UInt32} (c : UInt8)
    (h : b.toNat + 4 ≤ a.toNat ∨ a.toNat + 4096 ≤ b.toNat) : (st.memset a c).load b = st.load b :=
  Mem.load32_write_of_disjoint _ _ (by rw [List.length_replicate]; exact h)

lemma walkpgdir_of_not_present {pgdir va : UInt32} {st : Phys} (h : st.load (pgdir + 4 * PDX va) &&& PTE_P = 0) :
    walkpgdir pgdir va false st = none := by
  simp only [walkpgdir]
  rw [if_neg (not_not.mpr h)]
  rfl

lemma walkpgdir_of_present {pgdir va : UInt32} {st : Phys} (alloc : Bool) (h : st.load (pgdir + 4 * PDX va) &&& PTE_P ≠ 0) :
    walkpgdir pgdir va alloc st = some (PTE_ADDR (st.load (pgdir + 4 * PDX va)) + 4 * PTX va, st) := by
  simp only [walkpgdir]
  rw [if_pos h]

section Shrink

variable (kend : UInt32)

lemma kfree_ok {v : UInt32} (st : Phys) (h : ¬(v % PGSIZE ≠ 0 ∨ v < kend ∨ v ≥ PHYSTOP)) :
    kfree kend v st = .ok { st.memset v 1 with free := v :: st.free } := by
  rw [kfree, if_neg h]

lemma deallocLoop_present {pgdir oldsz a pte : UInt32} {st st₁ : Phys} (fuel : ℕ) (ha : a < oldsz)
    (hwalk : walkpgdir pgdir a false st = some (pte, st)) (hp : st.load pte &&& PTE_P ≠ 0)
    (hpa : PTE_ADDR (st.load pte) ≠ 0) (hk : kfree kend (PTE_ADDR (st.load pte)) st = .ok st₁) :
    deallocLoop kend pgdir oldsz (fuel + 1) a st = deallocLoop kend pgdir oldsz fuel (a + PGSIZE) (st₁.store pte 0) := by
  rw [deallocLoop, if_pos ha, hwalk]
  dsimp only
  rw [if_pos hp, if_neg hpa, hk]
  rfl

lemma deallocLoop_done {pgdir oldsz a : UInt32} (fuel : ℕ) (st : Phys) (ha : ¬ a < oldsz) :
    deallocLoop kend pgdir oldsz fuel a st = .ok st := by
  cases fuel <;> simp [deallocLoop, ha]

lemma walkpgdir_zero {pgdir : UInt32} {st : Phys} (h : st.load pgdir &&& PTE_P ≠ 0) :
    walkpgdir pgdir 0 false st = some (PTE_ADDR (st.load pgdir), st) := by
  have hslot : pgdir + 4 * PDX 0 = pgdir := by simp [show PDX 0 = 0 by decide]
  rw [walkpgdir_of_present false (by rwa [hslot]), hslot, show PTX 0 = 0 by decide]
  simp

lemma copyuvmLoop_not_present {pgdir sz d pte : UInt32} {st : Phys} (fuel : ℕ) (hsz : 0 < sz)
    (hwalk : walkpgdir pgdir 0 false st = some (pte, st)) (hp : st.load pte &&& PTE_P = 0) :
    copyuvmLoop kend pgdir sz d (fuel + 1) 0 st = .error "copyuvm: page not present" := by
  rw [copyuvmLoop, if_pos hsz, hwalk]
  dsimp only
  rw [if_pos hp]

theorem growproc_shrink_keeps_sz (pgdir : UInt32) (st : Phys)
    (hpde : st.load pgdir &&& PTE_P ≠ 0)
    (hpte : st.load (PTE_ADDR (st.load pgdir)) &&& PTE_P ≠ 0)
    (hpa : PTE_ADDR (st.load (PTE_ADDR (st.load pgdir))) ≠ 0 ∧
      ¬(PTE_ADDR (st.load (PTE_ADDR (st.load pgdir))) % PGSIZE ≠ 0 ∨
        PTE_ADDR (st.load (PTE_ADDR (st.load pgdir))) < kend ∨ PTE_ADDR (st.load (PTE_ADDR (st.load pgdir))) ≥ PHYSTOP))
    (hpd : pgdir.toNat + 4 ≤ (PTE_ADDR (st.load (PTE_ADDR (st.load pgdir)))).toNat ∨
      (PTE_ADDR (st.load (PTE_ADDR (st.load pgdir)))).toNat + 4096 ≤ pgdir.toNat)
    (hpt : pgdir.toNat + 4 ≤ (PTE_ADDR (st.load pgdir)).toNat ∨ (PTE_ADDR (st.load pgdir)).toNat + 4 ≤ pgdir.toNat) :
    ∃ st', growproc kend ⟨pgdir, PGSIZE⟩ (-4096) st = .ok (-1, ⟨pgdir, PGSIZE⟩, st') ∧
      walkpgdir pgdir 0 false st' = some (PTE_ADDR (st.load pgdir), st') ∧
      st'.load (PTE_ADDR (st.load pgdir)) &&& PTE_P = 0 ∧
      ∀ d fuel, copyuvmLoop kend pgdir PGSIZE d (fuel + 1) 0 st' = .error "copyuvm: page not present" := by
  have hwalk := walkpgdir_zero hpde
  set pte := PTE_ADDR (st.load pgdir)
  set pa := PTE_ADDR (st.load pte)
  set st₂ := { st.memset pa 1 with free := pa :: st.free }.store pte 0
  have hdealloc : deallocuvm kend pgdir PGSIZE 0 st = .ok (0, st₂) := by
    rw [deallocuvm, if_neg (by decide), show PGROUNDUP 0 = 0 by decide]
    dsimp only
    rw [show (PGSIZE - 0).toNat / PGSIZE.toNat + 1 = 1 + 1 by decide, deallocLoop_present kend 1 (by decide) hwalk hpte hpa.1 (kfree_ok kend st hpa.2),
      deallocLoop_done kend 1 _ (by decide)]
    rfl
  have hload : st₂.load pgdir = st.load pgdir := by
    rw [Phys.load_store_of_disjoint _ _ hpt]
    exact Phys.load_memset_of_disjoint st 1 hpd
  have hwalk₂ : walkpgdir pgdir 0 false st₂ = some (pte, st₂) := by
    rw [walkpgdir_zero (by rwa [hload]), hload]
  have hcleared : st₂.load pte &&& PTE_P = 0 := by simp [st₂]
  refine ⟨st₂, ?_, hwalk₂, hcleared, fun d fuel => copyuvmLoop_not_present kend fuel (by decide) hwalk₂ hcleared⟩
  rw [growproc, if_neg (by decide), if_pos (by decide), show (PGSIZE : UInt32) + UInt32.ofInt (-4096) = 0 by decide,
    hdealloc]
  rfl

lemma ofInt_toNat (x : UInt32) : UInt32.ofInt (x.toNat : ℤ) = x := by
  rw [UInt32.ofInt, Int.emod_eq_of_lt (by positivity) (by have := x.toNat_lt; omega), Int.toNat_natCast,
    UInt32.ofNat_toNat]

lemma kfree_free {v : UInt32} {st st' : Phys} (h : kfree kend v st = .ok st') : st'.free = v :: st.free := by
  unfold kfree at h
  split_ifs at h
  cases h
  rfl

lemma walkpgdir_state {pgdir va pte : UInt32} {st st' : Phys} (h : walkpgdir pgdir va false st = some (pte, st')) :
    st' = st := by
  by_cases hp : st.load (pgdir + 4 * PDX va) &&& PTE_P ≠ 0
  · rw [walkpgdir_of_present false hp] at h
    cases h
    rfl
  · rw [walkpgdir_of_not_present (not_not.mp hp)] at h
    cases h

lemma deallocLoop_free {pgdir oldsz : UInt32} : ∀ fuel a {st st' : Phys},
    deallocLoop kend pgdir oldsz fuel a st = .ok st' → ∃ l, st'.free = l ++ st.free
  | 0, _, st, st', h => by
    cases h
    exact ⟨[], rfl⟩
  | fuel + 1, a, st, st', h => by
    unfold deallocLoop at h
    split_ifs at h with ha
    · split at h
      · exact deallocLoop_free fuel _ h
      · rename_i pte st₁ hw
        cases walkpgdir_state hw
        by_cases hp : st.load pte &&& PTE_P ≠ 0
        · rw [if_pos hp] at h
          dsimp only at h
          by_cases hpa : PTE_ADDR (st.load pte) = 0
          · rw [if_pos hpa] at h
            cases h
          · rw [if_neg hpa] at h
            cases hk : kfree kend (PTE_ADDR (st.load pte)) st with
            | error e =>
              rw [hk] at h
              cases h
            | ok st₂ =>
              rw [hk] at h
              obtain ⟨l, hl⟩ := deallocLoop_free fuel _ h
              refine ⟨l ++ [PTE_ADDR (st.load pte)], ?_⟩
              rw [hl, show (st₂.store pte 0).free = st₂.free from rfl, kfree_free kend hk, List.append_assoc]
              rfl
        · rw [if_neg hp] at h
          exact deallocLoop_free fuel _ h
    · cases h
      exact ⟨[], rfl⟩

lemma deallocuvm_to_zero {pgdir sz : UInt32} (st : Phys) (h : 0 < sz) :
    deallocuvm kend pgdir sz 0 st = (deallocLoop kend pgdir sz (sz.toNat / PGSIZE.toNat + 1) 0 st).map fun st => (0, st) := by
  rw [deallocuvm, if_neg (show ¬ 0 ≥ sz from fun h0 => UInt32.not_lt.mpr h0 h)]
  dsimp only
  rw [show PGROUNDUP 0 = 0 by decide, UInt32.sub_zero]
  cases deallocLoop kend pgdir sz (sz.toNat / PGSIZE.toNat + 1) 0 st <;> rfl

/-- `growproc(-sz)`: `deallocuvm` frees page 0, which the call did not map, and returns the new size
`0`, which `growproc` takes for failure. Unless a later page makes `kfree` panic, the call returns
`-1` with `p` as it was and the page pushed onto the free list. -/
theorem growproc_fail_frees_page (p : UProc) (st : Phys) (hsz : 0 < p.sz)
    (hpde : st.load p.pgdir &&& PTE_P ≠ 0) (hpte : st.load (PTE_ADDR (st.load p.pgdir)) &&& PTE_P ≠ 0)
    (hpa : PTE_ADDR (st.load (PTE_ADDR (st.load p.pgdir))) ≠ 0 ∧
      ¬(PTE_ADDR (st.load (PTE_ADDR (st.load p.pgdir))) % PGSIZE ≠ 0 ∨
        PTE_ADDR (st.load (PTE_ADDR (st.load p.pgdir))) < kend ∨ PTE_ADDR (st.load (PTE_ADDR (st.load p.pgdir))) ≥ PHYSTOP)) :
    (∃ e, growproc kend p (-(p.sz.toNat : ℤ)) st = .error e) ∨
      ∃ st' l, growproc kend p (-(p.sz.toNat : ℤ)) st = .ok (-1, p, st') ∧
        st'.free = l ++ PTE_ADDR (st.load (PTE_ADDR (st.load p.pgdir))) :: st.free := by
  have hpos : 0 < p.sz.toNat := hsz
  have hn : p.sz + UInt32.ofInt (-(p.sz.toNat : ℤ)) = 0 := by
    rw [UInt32.ofInt_neg, ofInt_toNat]
    exact UInt32.add_right_neg _
  -- the first round frees page 0
  have hfirst := deallocLoop_present kend (p.sz.toNat / PGSIZE.toNat) hsz (walkpgdir_zero hpde) hpte hpa.1
    (kfree_ok kend st hpa.2)
  have hgrow : growproc kend p (-(p.sz.toNat : ℤ)) st =
      (deallocuvm kend p.pgdir p.sz 0 st >>= fun r => if r.1 = 0 then pure (-1, p, r.2) else pure (0, { p with sz := r.1 }, r.2)) := by
    rw [growproc, if_neg (by omega), if_pos (by omega), hn]
  rw [hgrow, deallocuvm_to_zero kend st hsz, hfirst]
  cases hd : deallocLoop kend p.pgdir p.sz (p.sz.toNat / PGSIZE.toNat) (0 + PGSIZE) _ with
  | error e => exact .inl ⟨e, rfl⟩
  | ok st' =>
    obtain ⟨l, hl⟩ := deallocLoop_free kend _ _ hd
    exact .inr ⟨st', l, rfl, hl⟩

end Shrink

def onePage : Phys := ⟨(Mem.store32 (fun _ => 0) 0x1000 0x2007).store32 0x2000 0x3007, []⟩

theorem growproc_shrink_keeps_sz_onePage :
    (onePage.load 0x1000 &&& PTE_P ≠ 0 ∧
      onePage.load (PTE_ADDR (onePage.load 0x1000)) &&& PTE_P ≠ 0 ∧
      (PTE_ADDR (onePage.load (PTE_ADDR (onePage.load 0x1000))) ≠ 0 ∧
        ¬(PTE_ADDR (onePage.load (PTE_ADDR (onePage.load 0x1000))) % PGSIZE ≠ 0 ∨
          PTE_ADDR (onePage.load (PTE_ADDR (onePage.load 0x1000))) < 0x3000 ∨
          PTE_ADDR (onePage.load (PTE_ADDR (onePage.load 0x1000))) ≥ PHYSTOP)) ∧
      ((0x1000 : UInt32).toNat + 4 ≤ (PTE_ADDR (onePage.load (PTE_ADDR (onePage.load 0x1000)))).toNat ∨
        (PTE_ADDR (onePage.load (PTE_ADDR (onePage.load 0x1000)))).toNat + 4096 ≤ (0x1000 : UInt32).toNat) ∧
      ((0x1000 : UInt32).toNat + 4 ≤ (PTE_ADDR (onePage.load 0x1000)).toNat ∨
        (PTE_ADDR (onePage.load 0x1000)).toNat + 4 ≤ (0x1000 : UInt32).toNat)) ∧
    ∃ st', growproc 0x3000 ⟨0x1000, PGSIZE⟩ (-4096) onePage = .ok (-1, ⟨0x1000, PGSIZE⟩, st') ∧
      walkpgdir 0x1000 0 false st' = some (PTE_ADDR (onePage.load 0x1000), st') ∧
      st'.load (PTE_ADDR (onePage.load 0x1000)) &&& PTE_P = 0 ∧
      ∀ d fuel, copyuvmLoop 0x3000 0x1000 PGSIZE d (fuel + 1) 0 st' = .error "copyuvm: page not present" :=
  have h : onePage.load 0x1000 &&& PTE_P ≠ 0 ∧
      onePage.load (PTE_ADDR (onePage.load 0x1000)) &&& PTE_P ≠ 0 ∧
      (PTE_ADDR (onePage.load (PTE_ADDR (onePage.load 0x1000))) ≠ 0 ∧
        ¬(PTE_ADDR (onePage.load (PTE_ADDR (onePage.load 0x1000))) % PGSIZE ≠ 0 ∨
          PTE_ADDR (onePage.load (PTE_ADDR (onePage.load 0x1000))) < 0x3000 ∨
          PTE_ADDR (onePage.load (PTE_ADDR (onePage.load 0x1000))) ≥ PHYSTOP)) ∧
      ((0x1000 : UInt32).toNat + 4 ≤ (PTE_ADDR (onePage.load (PTE_ADDR (onePage.load 0x1000)))).toNat ∨
        (PTE_ADDR (onePage.load (PTE_ADDR (onePage.load 0x1000)))).toNat + 4096 ≤ (0x1000 : UInt32).toNat) ∧
      ((0x1000 : UInt32).toNat + 4 ≤ (PTE_ADDR (onePage.load 0x1000)).toNat ∨
        (PTE_ADDR (onePage.load 0x1000)).toNat + 4 ≤ (0x1000 : UInt32).toNat) := by
    decide +kernel
  ⟨h, growproc_shrink_keeps_sz 0x3000 0x1000 onePage h.1 h.2.1 h.2.2.1 h.2.2.2.1 h.2.2.2.2⟩

theorem growproc_fail_frees_page_onePage :
    (0 < (⟨0x1000, PGSIZE⟩ : UProc).sz ∧ onePage.load 0x1000 &&& PTE_P ≠ 0 ∧
      onePage.load (PTE_ADDR (onePage.load 0x1000)) &&& PTE_P ≠ 0 ∧
      (PTE_ADDR (onePage.load (PTE_ADDR (onePage.load 0x1000))) ≠ 0 ∧
        ¬(PTE_ADDR (onePage.load (PTE_ADDR (onePage.load 0x1000))) % PGSIZE ≠ 0 ∨
          PTE_ADDR (onePage.load (PTE_ADDR (onePage.load 0x1000))) < 0x3000 ∨
          PTE_ADDR (onePage.load (PTE_ADDR (onePage.load 0x1000))) ≥ PHYSTOP))) ∧
    ((∃ e, growproc 0x3000 ⟨0x1000, PGSIZE⟩ (-(PGSIZE.toNat : ℤ)) onePage = .error e) ∨
      ∃ st' l, growproc 0x3000 ⟨0x1000, PGSIZE⟩ (-(PGSIZE.toNat : ℤ)) onePage = .ok (-1, ⟨0x1000, PGSIZE⟩, st') ∧
        st'.free = l ++ PTE_ADDR (onePage.load (PTE_ADDR (onePage.load 0x1000))) :: onePage.free) :=
  have h : 0 < (⟨0x1000, PGSIZE⟩ : UProc).sz ∧ onePage.load 0x1000 &&& PTE_P ≠ 0 ∧
      onePage.load (PTE_ADDR (onePage.load 0x1000)) &&& PTE_P ≠ 0 ∧
      (PTE_ADDR (onePage.load (PTE_ADDR (onePage.load 0x1000))) ≠ 0 ∧
        ¬(PTE_ADDR (onePage.load (PTE_ADDR (onePage.load 0x1000))) % PGSIZE ≠ 0 ∨
          PTE_ADDR (onePage.load (PTE_ADDR (onePage.load 0x1000))) < 0x3000 ∨
          PTE_ADDR (onePage.load (PTE_ADDR (onePage.load 0x1000))) ≥ PHYSTOP)) := by
    decide +kernel
  ⟨h, growproc_fail_frees_page 0x3000 ⟨0x1000, PGSIZE⟩ onePage h.1 h.2.1 h.2.2.1 h.2.2.2⟩

end Xv6Net.Kernel.UserMem
