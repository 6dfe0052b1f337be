import Xv6Net.Kernel.UserMem

/-! `deallocuvm` over a page directory whose pages all came from `kalloc`: it frees the frame of
every present PTE of a page in `[PGROUNDUP(newsz), oldsz)` once, clears those PTEs and no other,
and passes a missing page table in one round. -/

namespace Xv6Net.Kernel.Dealloc

open Xv6Net.Lib.Bytes Xv6Net.Kernel.Vm Xv6Net.Kernel.UserMem

section Arith

lemma and_pageMask {x : ℕ} (hx : x < 2 ^ 32) : x &&& 0xFFFFF000 = x / 4096 * 4096 := by
  have hlo : (x &&& 0xFFFFF000) % 2 ^ 12 = 0 := by
    rw [Nat.and_mod_two_pow]
    simp
  have hhi : (x &&& 0xFFFFF000) / 2 ^ 12 = x / 2 ^ 12 := by
    rw [Nat.and_div_two_pow, show 0xFFFFF000 / 2 ^ 12 = 2 ^ 20 - 1 by norm_num, Nat.and_two_pow_sub_one_eq_mod,
      Nat.mod_eq_of_lt (by omega)]
  have := Nat.div_add_mod (x &&& 0xFFFFF000) (2 ^ 12)
  omega

lemma PDX_toNat (va : UInt32) : (PDX va).toNat = va.toNat / 2 ^ 22 := by
  have := va.toNat_lt
  simp only [PDX, UInt32.toNat_and, UInt32.toNat_shiftRight, Nat.shiftRight_eq_div_pow]
  rw [show (22 : UInt32).toNat % 32 = 22 by decide, show (0x3FF : UInt32).toNat = 2 ^ 10 - 1 by decide,
    Nat.and_two_pow_sub_one_eq_mod, Nat.mod_eq_of_lt (by omega)]

lemma PTX_toNat (va : UInt32) : (PTX va).toNat = va.toNat / 4096 % 1024 := by
  simp only [PTX, UInt32.toNat_and, UInt32.toNat_shiftRight, Nat.shiftRight_eq_div_pow]
  rw [show (12 : UInt32).toNat % 32 = 12 by decide, show (0x3FF : UInt32).toNat = 2 ^ 10 - 1 by decide,
    Nat.and_two_pow_sub_one_eq_mod]

lemma PGROUNDDOWN_toNat (va : UInt32) : (PGROUNDDOWN va).toNat = va.toNat / 4096 * 4096 := by
  simp only [PGROUNDDOWN, PGSIZE, UInt32.toNat_and]
  rw [show (~~~(4096 - 1) : UInt32).toNat = 0xFFFFF000 by decide]
  exact and_pageMask va.toNat_lt

lemma PTE_ADDR_toNat (w : UInt32) : (PTE_ADDR w).toNat = w.toNat / 4096 * 4096 := by
  simp only [PTE_ADDR, UInt32.toNat_and]
  rw [show (~~~0xFFF : UInt32).toNat = 0xFFFFF000 by decide]
  exact and_pageMask w.toNat_lt

lemma PGROUNDUP_toNat {sz : UInt32} (h : sz.toNat + 4095 < 2 ^ 32) :
    (PGROUNDUP sz).toNat = (sz.toNat + 4095) / 4096 * 4096 := by
  have hs : (sz + PGSIZE - 1).toNat = sz.toNat + 4095 := by
    rw [UInt32.toNat_sub, UInt32.toNat_add]
    simp only [PGSIZE, UInt32.reduceToNat]
    omega
  simp only [PGROUNDUP, UInt32.toNat_and, hs]
  rw [show (~~~(PGSIZE - 1) : UInt32).toNat = 0xFFFFF000 by decide]
  exact and_pageMask h

lemma PGADDR_next_toNat {a : UInt32} (ha : a.toNat < 2 ^ 31) :
    (PGADDR (PDX a + 1) 0 0 - PGSIZE + PGSIZE).toNat = (a.toNat / 2 ^ 22 + 1) * 2 ^ 22 := by
  have hd : (PDX a + 1).toNat = a.toNat / 2 ^ 22 + 1 := by
    rw [UInt32.toNat_add, PDX_toNat, show (1 : UInt32).toNat = 1 from rfl, Nat.mod_eq_of_lt (by omega)]
  rw [UInt32.sub_add_cancel]
  simp only [PGADDR, UInt32.toNat_or, UInt32.toNat_shiftLeft, hd, Nat.shiftLeft_eq]
  rw [show (22 : UInt32).toNat % 32 = 22 by decide]
  simp
  omega

lemma add_PGSIZE_toNat {a : UInt32} (ha : a.toNat + 4096 < 2 ^ 32) : (a + PGSIZE).toNat = a.toNat + 4096 := by
  rw [UInt32.toNat_add, show PGSIZE.toNat = 4096 from rfl, Nat.mod_eq_of_lt ha]

lemma slot_toNat {t i : UInt32} (ht : t.toNat % 4096 = 0) (hi : i.toNat < 1024) :
    (t + 4 * i).toNat = t.toNat + 4 * i.toNat := by
  have := t.toNat_lt
  rw [UInt32.toNat_add, UInt32.toNat_mul, show (4 : UInt32).toNat = 4 from rfl, Nat.mod_eq_of_lt (by omega),
    Nat.mod_eq_of_lt (by omega)]

lemma slots_disjoint {P Q i j : ℕ} (hP : P % 4096 = 0) (hQ : Q % 4096 = 0) (hi : i < 1024) (hj : j < 1024)
    (h : P ≠ Q ∨ i ≠ j) : P + 4 * i + 4 ≤ Q + 4 * j ∨ Q + 4 * j + 4 ≤ P + 4 * i := by
  omega

lemma slot_page_disjoint {P F i : ℕ} (hP : P % 4096 = 0) (hF : F % 4096 = 0) (hi : i < 1024) (h : P ≠ F) :
    P + 4 * i + 4 ≤ F ∨ F + 4096 ≤ P + 4 * i := by
  omega

end Arith

/-- `pgdir[PDX(va)]`. -/
def pde (st : Phys) (pgdir va : UInt32) : UInt32 := st.load (pgdir + 4 * PDX va)

/-- The page table of `va`, if its directory entry is present. -/
def tableOf (st : Phys) (pgdir va : UInt32) : Option UInt32 :=
  if pde st pgdir va &&& PTE_P ≠ 0 then some (PTE_ADDR (pde st pgdir va)) else none

/-- `walkpgdir(pgdir, va, 0)`: the address of the PTE of `va`. -/
def pteOf (st : Phys) (pgdir va : UInt32) : Option UInt32 := (tableOf st pgdir va).map (· + 4 * PTX va)

/-- The frame the page of `va` maps, if its PTE is present. -/
def frameOf (st : Phys) (pgdir va : UInt32) : Option UInt32 :=
  (pteOf st pgdir va).bind fun p => if st.load p &&& PTE_P ≠ 0 then some (PTE_ADDR (st.load p)) else none

section Views

variable {st : Phys} {pgdir va : UInt32}

lemma walkpgdir_eq (st : Phys) (pgdir va : UInt32) :
    walkpgdir pgdir va false st = (pteOf st pgdir va).map (·, st) := by
  unfold pteOf tableOf
  by_cases h : pde st pgdir va &&& PTE_P ≠ 0
  · rw [if_pos h, walkpgdir_of_present false h]
    rfl
  · rw [if_neg h, walkpgdir_of_not_present (not_not.mp h)]
    rfl

lemma tableOf_aligned {t : UInt32} (h : tableOf st pgdir va = some t) : t.toNat % 4096 = 0 := by
  unfold tableOf at h
  split_ifs at h
  cases h
  rw [PTE_ADDR_toNat]
  exact Nat.mul_mod_left _ _

lemma tableOf_congr {va' : UInt32} (h : PDX va = PDX va') : tableOf st pgdir va = tableOf st pgdir va' := by
  unfold tableOf pde
  rw [h]

lemma pteOf_eq_some {p : UInt32} : pteOf st pgdir va = some p ↔ ∃ t, tableOf st pgdir va = some t ∧ t + 4 * PTX va = p :=
  Option.map_eq_some_iff

lemma pteOf_eq_none : pteOf st pgdir va = none ↔ tableOf st pgdir va = none :=
  Option.map_eq_none_iff

lemma slot_PTX_toNat {t : UInt32} (h : tableOf st pgdir va = some t) :
    (t + 4 * PTX va).toNat = t.toNat + 4 * (va.toNat / 4096 % 1024) := by
  rw [slot_toNat (tableOf_aligned h) (by rw [PTX_toNat]; omega), PTX_toNat]

lemma PDX_eq_of_page {va' : UInt32} (h : PGROUNDDOWN va = PGROUNDDOWN va') : PDX va = PDX va' := by
  rw [← PDX_PGROUNDDOWN va, h, PDX_PGROUNDDOWN]

lemma PTX_eq_of_page {va' : UInt32} (h : PGROUNDDOWN va = PGROUNDDOWN va') : PTX va = PTX va' := by
  have h' := congrArg UInt32.toNat h
  rw [PGROUNDDOWN_toNat, PGROUNDDOWN_toNat] at h'
  apply UInt32.toNat_inj.mp
  rw [PTX_toNat, PTX_toNat]
  omega

lemma page_eq_of_PDX_PTX {va' : UInt32} (hd : PDX va = PDX va') (ht : PTX va = PTX va') :
    PGROUNDDOWN va = PGROUNDDOWN va' := by
  have hd' := congrArg UInt32.toNat hd
  have ht' := congrArg UInt32.toNat ht
  rw [PDX_toNat, PDX_toNat] at hd'
  rw [PTX_toNat, PTX_toNat] at ht'
  apply UInt32.toNat_inj.mp
  rw [PGROUNDDOWN_toNat, PGROUNDDOWN_toNat]
  omega

lemma pteOf_congr {va' : UInt32} (h : PGROUNDDOWN va = PGROUNDDOWN va') : pteOf st pgdir va = pteOf st pgdir va' := by
  rw [pteOf, pteOf, tableOf_congr (PDX_eq_of_page h), PTX_eq_of_page h]

lemma frameOf_congr {va' : UInt32} (h : PGROUNDDOWN va = PGROUNDDOWN va') :
    frameOf st pgdir va = frameOf st pgdir va' := by
  rw [frameOf, frameOf, pteOf_congr h]

lemma frameOf_of_pteOf {p : UInt32} (hp : pteOf st pgdir va = some p) :
    frameOf st pgdir va = if st.load p &&& PTE_P ≠ 0 then some (PTE_ADDR (st.load p)) else none := by
  rw [frameOf, hp, Option.bind_some]

end Views

section Layout

variable (kend : UInt32)

/-- A page directory as `setupkvm` and `allocuvm` build it from pages of `kalloc`: the directory and
the page tables of its present entries are distinct pages, and the present PTEs of user addresses map
distinct frames that `kfree` takes back, none of them the directory or a page table. -/
structure UserDir (st : Phys) (pgdir : UInt32) : Prop where
  dir_aligned : pgdir % PGSIZE = 0
  table_ne_dir : ∀ {va t}, tableOf st pgdir va = some t → t ≠ pgdir
  table_inj : ∀ {va va' t}, tableOf st pgdir va = some t → tableOf st pgdir va' = some t → PDX va = PDX va'
  frame_kalloc : ∀ {va f}, va < KERNBASE → frameOf st pgdir va = some f →
    f ≠ 0 ∧ f % PGSIZE = 0 ∧ kend ≤ f ∧ f < PHYSTOP
  frame_ne_dir : ∀ {va f}, va < KERNBASE → frameOf st pgdir va = some f → f ≠ pgdir
  frame_ne_table : ∀ {va va' f t}, va < KERNBASE → frameOf st pgdir va = some f → tableOf st pgdir va' = some t → f ≠ t
  frame_inj : ∀ {va va' f}, va < KERNBASE → va' < KERNBASE → frameOf st pgdir va = some f →
    frameOf st pgdir va' = some f → PGROUNDDOWN va = PGROUNDDOWN va'

end Layout

/-- The pages that start in `[lo, hi)`. -/
def InRange (lo hi : ℕ) (va : UInt32) : Prop := lo ≤ (PGROUNDDOWN va).toNat ∧ (PGROUNDDOWN va).toNat < hi

instance (lo hi : ℕ) (va : UInt32) : Decidable (InRange lo hi va) :=
  inferInstanceAs (Decidable (lo ≤ (PGROUNDDOWN va).toNat ∧ (PGROUNDDOWN va).toNat < hi))

/-- What `deallocuvm`'s loop has done to `st` once it has passed the pages in `[lo, hi)`: the
directory is as it was, the present PTEs of those pages read 0 and every other PTE is as it was,
and the free list has gained the frames of those PTEs, each once. -/
structure Freed (pgdir : UInt32) (st st₁ : Phys) (lo hi : ℕ) : Prop where
  pde_eq : ∀ va, pde st₁ pgdir va = pde st pgdir va
  pte_eq : ∀ {va p}, pteOf st pgdir va = some p →
    st₁.load p = if InRange lo hi va ∧ st.load p &&& PTE_P ≠ 0 then 0 else st.load p
  free_eq : ∃ l, st₁.free = l ++ st.free ∧ l.Nodup ∧
    ∀ f, f ∈ l ↔ ∃ va, InRange lo hi va ∧ frameOf st pgdir va = some f

section Freed

variable {pgdir : UInt32} {st st₁ : Phys} {lo hi : ℕ}

lemma Freed.start (h : hi ≤ lo) : Freed pgdir st st lo hi where
  pde_eq _ := rfl
  pte_eq {va} _ _ := by
    rw [if_neg (fun hr => by unfold InRange at hr; omega)]
  free_eq := ⟨[], rfl, List.nodup_nil, fun f => ⟨fun hf => absurd hf List.not_mem_nil,
    fun ⟨va, hr, _⟩ => by unfold InRange at hr; omega⟩⟩

lemma Freed.pteOf_eq (hF : Freed pgdir st st₁ lo hi) (va : UInt32) : pteOf st₁ pgdir va = pteOf st pgdir va := by
  unfold pteOf tableOf
  rw [hF.pde_eq]

lemma Freed.extend {hi' : ℕ} (hF : Freed pgdir st st₁ lo hi) (hle : hi ≤ hi')
    (hnone : ∀ va, InRange hi hi' va → frameOf st pgdir va = none) : Freed pgdir st st₁ lo hi' where
  pde_eq := hF.pde_eq
  pte_eq {va p} hp := by
    rw [hF.pte_eq hp]
    by_cases hin : InRange hi hi' va
    · have hnp : ¬ (st.load p &&& PTE_P ≠ 0) := fun hpres => by
        have := hnone va hin
        rw [frameOf_of_pteOf hp, if_pos hpres] at this
        cases this
      rw [if_neg (fun h => hnp h.2), if_neg (fun h => hnp h.2)]
    · have hiff : InRange lo hi' va ↔ InRange lo hi va := by
        unfold InRange at hin ⊢
        omega
      simp only [hiff]
  free_eq := by
    obtain ⟨l, hl, hnd, hmem⟩ := hF.free_eq
    refine ⟨l, hl, hnd, fun f => (hmem f).trans ⟨fun ⟨va, hr, hf⟩ => ⟨va, ?_, hf⟩, fun ⟨va, hr, hf⟩ => ⟨va, ?_, hf⟩⟩⟩
    · unfold InRange at hr ⊢
      omega
    · by_cases hin : InRange hi hi' va
      · rw [hnone va hin] at hf
        cases hf
      · unfold InRange at hr hin ⊢
        omega

lemma lt_KERNBASE {va : UInt32} (h : va.toNat < 2 ^ 31) : va < KERNBASE :=
  UInt32.lt_iff_toNat_lt.mpr h

lemma toNat_of_aligned {v : UInt32} (h : v % PGSIZE = 0) : v.toNat % 4096 = 0 := by
  have := congrArg UInt32.toNat h
  rwa [UInt32.toNat_mod] at this

lemma load_freed {f p q : UInt32} (hf : q.toNat + 4 ≤ f.toNat ∨ f.toNat + 4096 ≤ q.toNat)
    (hp : q.toNat + 4 ≤ p.toNat ∨ p.toNat + 4 ≤ q.toNat) :
    ({ st₁.memset f 1 with free := f :: st₁.free }.store p 0).load q = st₁.load q := by
  rw [Phys.load_store_of_disjoint _ _ hp]
  exact Phys.load_memset_of_disjoint st₁ 1 hf

variable (kend : UInt32)

lemma Freed.present {a p : UInt32} {hi' : ℕ} (hwf : UserDir kend st pgdir) (hF : Freed pgdir st st₁ lo a.toNat)
    (hal : a.toNat % 4096 = 0) (hlt : a.toNat < 2 ^ 31) (hp : pteOf st pgdir a = some p)
    (hpres : st.load p &&& PTE_P ≠ 0) (hnew : ∀ va, InRange lo hi' va ↔ InRange lo a.toNat va ∨ PGROUNDDOWN va = a) :
    Freed pgdir st ({ st₁.memset (PTE_ADDR (st.load p)) 1 with free := PTE_ADDR (st.load p) :: st₁.free }.store p 0)
      lo hi' := by
  set f := PTE_ADDR (st.load p) with hfdef
  have hf : frameOf st pgdir a = some f := by rw [frameOf_of_pteOf hp, if_pos hpres]
  have hfal : f.toNat % 4096 = 0 := toNat_of_aligned (hwf.frame_kalloc (lt_KERNBASE hlt) hf).2.1
  have hdal : pgdir.toNat % 4096 = 0 := toNat_of_aligned hwf.dir_aligned
  have hpg : PGROUNDDOWN a = a := UInt32.toNat_inj.mp (by rw [PGROUNDDOWN_toNat]; omega)
  obtain ⟨t, ht, rfl⟩ := pteOf_eq_some.mp hp
  have hpN := slot_PTX_toNat ht
  have htal := tableOf_aligned ht
  have hft : f.toNat ≠ t.toNat := fun h => hwf.frame_ne_table (lt_KERNBASE hlt) hf ht (UInt32.toNat_inj.mp h)
  refine ⟨fun va => ?_, fun {va q} hq => ?_, ?_⟩
  · -- the directory page is neither the frame nor the page table
    have hslot := slot_toNat (i := PDX va) hdal (by rw [PDX_toNat]; have := va.toNat_lt; omega)
    have hfd : f.toNat ≠ pgdir.toNat := fun h => hwf.frame_ne_dir (lt_KERNBASE hlt) hf (UInt32.toNat_inj.mp h)
    have htd : t.toNat ≠ pgdir.toNat := fun h => hwf.table_ne_dir ht (UInt32.toNat_inj.mp h)
    have hPDX : (PDX va).toNat < 1024 := by rw [PDX_toNat]; have := va.toNat_lt; omega
    rw [pde, load_freed (by rw [hslot]; exact slot_page_disjoint hdal hfal hPDX hfd.symm)
      (by rw [hslot, hpN]; exact slots_disjoint hdal htal hPDX (by omega) (.inl htd.symm))]
    exact hF.pde_eq va
  · obtain ⟨t', ht', rfl⟩ := pteOf_eq_some.mp hq
    have hqN := slot_PTX_toNat ht'
    by_cases hva : PGROUNDDOWN va = a
    · -- the cleared PTE itself
      have hsame : t' + 4 * PTX va = t + 4 * PTX a := by
        have : pteOf st pgdir va = pteOf st pgdir a := pteOf_congr (hva.trans hpg.symm)
        rw [hq, hp] at this
        exact Option.some_inj.mp this
      rw [hsame, Phys.load_store_self, if_pos ⟨(hnew va).mpr (.inr hva), hpres⟩]
    · -- another PTE: in another page table, or in another slot of this one
      have hne : t'.toNat ≠ t.toNat ∨ va.toNat / 4096 % 1024 ≠ a.toNat / 4096 % 1024 := by
        by_cases htt : t'.toNat = t.toNat
        · have hdx := congrArg UInt32.toNat (hwf.table_inj ht' (UInt32.toNat_inj.mp htt ▸ ht))
          rw [PDX_toNat, PDX_toNat] at hdx
          refine .inr fun hx => hva (UInt32.toNat_inj.mp ?_)
          rw [PGROUNDDOWN_toNat]
          omega
        · exact .inl htt
      have hft' : f.toNat ≠ t'.toNat := fun h =>
        hwf.frame_ne_table (lt_KERNBASE hlt) hf ht' (UInt32.toNat_inj.mp h)
      have hiff : InRange lo hi' va ↔ InRange lo a.toNat va := by
        rw [hnew]
        exact or_iff_left hva
      rw [load_freed (by rw [hqN]; exact slot_page_disjoint (tableOf_aligned ht') hfal (by omega) hft'.symm)
        (by rw [hqN, hpN]; exact slots_disjoint (tableOf_aligned ht') htal (by omega) (by omega) hne),
        hF.pte_eq hq]
      simp only [hiff]
  · obtain ⟨l, hl, hnd, hmem⟩ := hF.free_eq
    -- `f` is the frame of page `a` alone, which the loop has not passed
    have hnot : f ∉ l := fun hfl => by
      obtain ⟨va, hr, hvf⟩ := (hmem f).mp hfl
      unfold InRange at hr
      have hvlt : va.toNat < 2 ^ 31 := by rw [PGROUNDDOWN_toNat] at hr; omega
      have := congrArg UInt32.toNat (hwf.frame_inj (lt_KERNBASE hvlt) (lt_KERNBASE hlt) hvf hf)
      rw [hpg] at this
      omega
    refine ⟨f :: l, by rw [List.cons_append, ← hl]; rfl, List.nodup_cons.mpr ⟨hnot, hnd⟩, fun g => ?_⟩
    rw [List.mem_cons, hmem g]
    constructor
    · rintro (rfl | ⟨va, hr, hvg⟩)
      · exact ⟨a, (hnew a).mpr (.inr hpg), hf⟩
      · exact ⟨va, (hnew va).mpr (.inl hr), hvg⟩
    · rintro ⟨va, hr, hvg⟩
      rcases (hnew va).mp hr with hr | hva
      · exact .inr ⟨va, hr, hvg⟩
      · rw [frameOf_congr (hva.trans hpg.symm), hf] at hvg
        exact .inl (Option.some_inj.mp hvg).symm

lemma Freed.result {P : UInt32 → Prop} [DecidablePred P] (hF : Freed pgdir st st₁ lo hi)
    (hP : ∀ va, P va ↔ InRange lo hi va) :
    (∃ l, st₁.free = l ++ st.free ∧ l.Nodup ∧ ∀ f, f ∈ l ↔ ∃ va, P va ∧ frameOf st pgdir va = some f) ∧
      ∀ va, pteOf st₁ pgdir va = pteOf st pgdir va ∧ ∀ p, pteOf st pgdir va = some p →
        st₁.load p = if P va ∧ st.load p &&& PTE_P ≠ 0 then 0 else st.load p := by
  obtain ⟨l, hl, hnd, hmem⟩ := hF.free_eq
  refine ⟨⟨l, hl, hnd, fun f => by simp only [hmem, hP]⟩, fun va => ⟨hF.pteOf_eq va, fun p hp => ?_⟩⟩
  rw [hF.pte_eq hp]
  simp only [hP]

end Freed

section Loop

variable (kend : UInt32) {pgdir oldsz : UInt32} {st : Phys} {lo : ℕ}

lemma kfree_accepts {f : UInt32} (h : f % PGSIZE = 0 ∧ kend ≤ f ∧ f < PHYSTOP) :
    ¬(f % PGSIZE ≠ 0 ∨ f < kend ∨ f ≥ PHYSTOP) := by
  obtain ⟨hal, hk, hp⟩ := h
  rintro (h | h | h)
  · exact h hal
  · exact UInt32.not_lt.mpr hk h
  · exact UInt32.not_le.mpr hp h

lemma deallocLoop_skip {a : UInt32} {st₁ : Phys} (fuel : ℕ) (ha : a < oldsz) (hw : pteOf st₁ pgdir a = none) :
    deallocLoop kend pgdir oldsz (fuel + 1) a st₁ =
      deallocLoop kend pgdir oldsz fuel (PGADDR (PDX a + 1) 0 0 - PGSIZE + PGSIZE) st₁ := by
  rw [deallocLoop, if_pos ha, walkpgdir_eq, hw]
  rfl

lemma deallocLoop_absent {a p : UInt32} {st₁ : Phys} (fuel : ℕ) (ha : a < oldsz) (hw : pteOf st₁ pgdir a = some p)
    (hnp : ¬ (st₁.load p &&& PTE_P ≠ 0)) :
    deallocLoop kend pgdir oldsz (fuel + 1) a st₁ = deallocLoop kend pgdir oldsz fuel (a + PGSIZE) st₁ := by
  rw [deallocLoop, if_pos ha, walkpgdir_eq, hw]
  dsimp only [Option.map_some]
  rw [if_neg hnp]

/-- With fuel for every page left, the loop from the page `a` returns, having passed every page
below `oldsz`. The measure is the pages left: a round moves `a` on by a page, or to the next
page-directory boundary. -/
lemma deallocLoop_freed (hwf : UserDir kend st pgdir) (hold : oldsz.toNat ≤ 2 ^ 31) (fuel : ℕ) :
    ∀ (a : UInt32) (st₁ : Phys), a.toNat % 4096 = 0 → lo ≤ a.toNat → oldsz.toNat ≤ a.toNat + 4096 * fuel →
      Freed pgdir st st₁ lo (min a.toNat oldsz.toNat) →
      ∃ st', deallocLoop kend pgdir oldsz fuel a st₁ = .ok st' ∧ Freed pgdir st st' lo oldsz.toNat := by
  induction fuel with
  | zero =>
    intro a st₁ _ _ hfuel hF
    exact ⟨st₁, rfl, by rwa [Nat.min_eq_right (by omega)] at hF⟩
  | succ fuel ih =>
    intro a st₁ hal hlo hfuel hF
    by_cases ha : a < oldsz
    · have haN : a.toNat < oldsz.toNat := UInt32.lt_iff_toNat_lt.mp ha
      rw [Nat.min_eq_left (Nat.le_of_lt haN)] at hF
      have hstep := add_PGSIZE_toNat (a := a) (by omega)
      -- the pages the next round adds are `a`'s page alone
      have hone : ∀ va, InRange a.toNat (min (a + PGSIZE).toNat oldsz.toNat) va → PGROUNDDOWN va = a := by
        intro va hr
        unfold InRange at hr
        rw [PGROUNDDOWN_toNat] at hr
        apply UInt32.toNat_inj.mp
        rw [PGROUNDDOWN_toNat]
        omega
      cases hp : pteOf st pgdir a with
      | none =>
        -- no page table: every page up to the next directory boundary has none either
        have hnext := PGADDR_next_toNat (a := a) (by omega)
        rw [deallocLoop_skip kend fuel ha (by rw [hF.pteOf_eq, hp])]
        refine ih _ st₁ (by rw [hnext]; omega) (by rw [hnext]; omega) (by rw [hnext]; omega)
          (hF.extend (by omega) fun va hr => ?_)
        unfold InRange at hr
        rw [PGROUNDDOWN_toNat, hnext] at hr
        have hdx : PDX va = PDX a := UInt32.toNat_inj.mp (by rw [PDX_toNat, PDX_toNat]; omega)
        rw [frameOf, pteOf_eq_none.mpr ((tableOf_congr hdx).trans (pteOf_eq_none.mp hp))]
        rfl
      | some p =>
        -- the loop has not passed `a`, so its PTE is as it was
        have hunv : st₁.load p = st.load p := by
          rw [hF.pte_eq hp, if_neg fun h => by unfold InRange at h; rw [PGROUNDDOWN_toNat] at h; omega]
        by_cases hpres : st.load p &&& PTE_P ≠ 0
        · have hf : frameOf st pgdir a = some (PTE_ADDR (st.load p)) := by rw [frameOf_of_pteOf hp, if_pos hpres]
          obtain ⟨hf0, hok⟩ := hwf.frame_kalloc (lt_KERNBASE (by omega)) hf
          have hk : kfree kend (PTE_ADDR (st₁.load p)) st₁ =
              .ok { st₁.memset (PTE_ADDR (st.load p)) 1 with free := PTE_ADDR (st.load p) :: st₁.free } := by
            rw [hunv]
            exact kfree_ok kend st₁ (kfree_accepts kend hok)
          rw [deallocLoop_present kend fuel ha (by rw [walkpgdir_eq, hF.pteOf_eq, hp]; rfl) (by rwa [hunv])
            (by rwa [hunv]) hk]
          refine ih _ _ (by rw [hstep]; omega) (by rw [hstep]; omega) (by rw [hstep]; omega)
            (hF.present kend hwf hal (by omega) hp hpres fun va => ?_)
          constructor
          · intro hr
            by_cases hin : InRange lo a.toNat va
            · exact .inl hin
            · exact .inr (hone va (by unfold InRange at hr hin ⊢; omega))
          · rintro (hr | hva)
            · unfold InRange at hr ⊢
              omega
            · have := congrArg UInt32.toNat hva
              unfold InRange
              omega
        · rw [deallocLoop_absent kend fuel ha (by rw [hF.pteOf_eq, hp]) (by rwa [hunv])]
          refine ih _ _ (by rw [hstep]; omega) (by rw [hstep]; omega) (by rw [hstep]; omega)
            (hF.extend (by omega) fun va hr => ?_)
          have hpg : PGROUNDDOWN a = a := UInt32.toNat_inj.mp (by rw [PGROUNDDOWN_toNat]; omega)
          rw [frameOf_congr ((hone va hr).trans hpg.symm), frameOf_of_pteOf hp, if_neg hpres]
    · have haN : oldsz.toNat ≤ a.toNat := UInt32.le_iff_toNat_le.mp (UInt32.not_lt.mp ha)
      rw [Nat.min_eq_right haN] at hF
      exact ⟨st₁, deallocLoop_done kend _ st₁ ha, hF⟩

end Loop

/-- The pages `deallocuvm(pgdir, oldsz, newsz)` frees: those from `PGROUNDUP(newsz)` below `oldsz`. -/
def Shrunk (oldsz newsz va : UInt32) : Prop :=
  newsz < oldsz ∧ PGROUNDUP newsz ≤ PGROUNDDOWN va ∧ PGROUNDDOWN va < oldsz

instance (oldsz newsz va : UInt32) : Decidable (Shrunk oldsz newsz va) :=
  inferInstanceAs (Decidable (newsz < oldsz ∧ PGROUNDUP newsz ≤ PGROUNDDOWN va ∧ PGROUNDDOWN va < oldsz))

section Dealloc

variable (kend : UInt32)

/-- `deallocuvm(pgdir, oldsz, newsz)` below `KERNBASE` returns, with `newsz` (or `oldsz` if `newsz`
is not smaller). It has pushed onto the free list, once each, exactly the frames of the present
PTEs of the pages in `[PGROUNDUP(newsz), oldsz)`; those PTEs read 0, the page tables are where they
were, and every other PTE is as it was. -/
theorem deallocuvm_frees_range (pgdir oldsz newsz : UInt32) (st : Phys) (hwf : UserDir kend st pgdir)
    (hold : oldsz ≤ KERNBASE) :
    ∃ st', deallocuvm kend pgdir oldsz newsz st = .ok (if newsz ≥ oldsz then oldsz else newsz, st') ∧
      (∃ l, st'.free = l ++ st.free ∧ l.Nodup ∧
        ∀ f, f ∈ l ↔ ∃ va, Shrunk oldsz newsz va ∧ frameOf st pgdir va = some f) ∧
      ∀ va, pteOf st' pgdir va = pteOf st pgdir va ∧ ∀ p, pteOf st pgdir va = some p →
        st'.load p = if Shrunk oldsz newsz va ∧ st.load p &&& PTE_P ≠ 0 then 0 else st.load p := by
  have holdN : oldsz.toNat ≤ 2 ^ 31 := UInt32.le_iff_toNat_le.mp hold
  by_cases hns : newsz ≥ oldsz
  · -- nothing to free
    refine ⟨st, by rw [deallocuvm, if_pos hns, if_pos hns], (Freed.start (le_refl 0)).result fun va => ?_⟩
    exact ⟨fun h => absurd h.1 (UInt32.not_lt.mpr hns), fun h => absurd h.2 (by omega)⟩
  · have hnsN : newsz.toNat < oldsz.toNat := UInt32.lt_iff_toNat_lt.mp (UInt32.not_le.mp hns)
    have hup : (PGROUNDUP newsz).toNat = (newsz.toNat + 4095) / 4096 * 4096 := PGROUNDUP_toNat (by omega)
    -- the loop runs at most one round for each page from `PGROUNDUP(newsz)` to `oldsz`
    have hfuel : oldsz.toNat ≤ (PGROUNDUP newsz).toNat + 4096 * ((oldsz - PGROUNDUP newsz).toNat / PGSIZE.toNat + 1) := by
      rcases Nat.lt_or_ge oldsz.toNat (PGROUNDUP newsz).toNat with h | h
      · exact Nat.le_trans (Nat.le_of_lt h) (Nat.le_add_right _ _)
      · rw [UInt32.toNat_sub_of_le _ _ (UInt32.le_iff_toNat_le.mpr h), show PGSIZE.toNat = 4096 from rfl]
        clear hup hnsN holdN
        omega
    obtain ⟨st', hloop, hF⟩ := deallocLoop_freed kend hwf holdN _ (PGROUNDUP newsz) st (by rw [hup]; omega) le_rfl hfuel
      (Freed.start (Nat.min_le_left _ _))
    refine ⟨st', ?_, hF.result fun va => ?_⟩
    · rw [deallocuvm, if_neg hns, if_neg hns]
      dsimp only
      rw [hloop]
      rfl
    · simp only [Shrunk, InRange, UInt32.le_iff_toNat_le, UInt32.lt_iff_toNat_lt]
      omega

lemma onePage_load {q : UInt32} (hq : q.toNat % 4 = 0) :
    onePage.load q = if q = 0x1000 then 0x2007 else if q = 0x2000 then 0x3007 else 0 := by
  by_cases h1 : q = 0x1000
  · subst h1
    decide +kernel
  by_cases h2 : q = 0x2000
  · subst h2
    decide +kernel
  rw [if_neg h1, if_neg h2]
  have h1' : q.toNat ≠ 0x1000 := fun h => h1 (UInt32.toNat_inj.mp h)
  have h2' : q.toNat ≠ 0x2000 := fun h => h2 (UInt32.toNat_inj.mp h)
  show Mem.load32 ((Mem.store32 (fun _ => 0) 0x1000 0x2007).store32 0x2000 0x3007) q.toNat = 0
  rw [Mem.load32_store32_of_disjoint _ _ (by omega), Mem.load32_store32_of_disjoint _ _ (by omega)]
  rfl

lemma onePage_slot {t i : UInt32} (ht : t = 0x1000 ∨ t = 0x2000) (hi : i.toNat < 1024) :
    onePage.load (t + 4 * i) = if i = 0 then onePage.load t else 0 := by
  have htN : t.toNat = 0x1000 ∨ t.toNat = 0x2000 := by rcases ht with rfl | rfl <;> decide
  have hslot := slot_toNat (t := t) (i := i) (by omega) hi
  by_cases h0 : i = 0
  · rw [h0, if_pos rfl, show (4 : UInt32) * 0 = 0 from rfl, UInt32.add_zero]
  · have h0' : i.toNat ≠ 0 := fun h => h0 (UInt32.toNat_inj.mp h)
    have hne : ∀ q : UInt32, q.toNat ≠ t.toNat + 4 * i.toNat → t + 4 * i ≠ q := fun q hq h => hq (by rw [← h, hslot])
    rw [onePage_load (by omega), if_neg (hne 0x1000 (by rw [show (0x1000 : UInt32).toNat = 0x1000 from rfl]; omega)),
      if_neg (hne 0x2000 (by rw [show (0x2000 : UInt32).toNat = 0x2000 from rfl]; omega)), if_neg h0]

lemma onePage_tableOf (va : UInt32) : tableOf onePage 0x1000 va = if PDX va = 0 then some 0x2000 else none := by
  have hk : (PDX va).toNat < 1024 := by rw [PDX_toNat]; have := va.toNat_lt; omega
  unfold tableOf pde
  rw [onePage_slot (.inl rfl) hk]
  by_cases h0 : PDX va = 0
  · rw [if_pos h0, if_pos h0]
    decide +kernel
  · rw [if_neg h0, if_neg h0]
    decide

lemma onePage_frameOf (va : UInt32) :
    frameOf onePage 0x1000 va = if PDX va = 0 ∧ PTX va = 0 then some 0x3000 else none := by
  by_cases h0 : PDX va = 0
  · have hk : (PTX va).toNat < 1024 := by rw [PTX_toNat]; omega
    have hp : pteOf onePage 0x1000 va = some (0x2000 + 4 * PTX va) := by
      rw [pteOf, onePage_tableOf, if_pos h0]
      rfl
    rw [frameOf_of_pteOf hp, onePage_slot (.inr rfl) hk]
    by_cases h1 : PTX va = 0
    · rw [if_pos h1, if_pos (And.intro h0 h1)]
      decide +kernel
    · rw [if_neg h1, if_neg (show ¬(PDX va = 0 ∧ PTX va = 0) from fun h => h1 h.2)]
      decide
  · rw [frameOf, pteOf, onePage_tableOf, if_neg h0, if_neg fun h => h0 h.1]
    rfl

lemma onePage_userDir : UserDir 0x3000 onePage 0x1000 where
  dir_aligned := by decide
  table_ne_dir {va t} h := by
    rw [onePage_tableOf] at h
    split_ifs at h
    cases h
    decide
  table_inj {va va' t} h h' := by
    rw [onePage_tableOf] at h h'
    split_ifs at h h' with h0 h0'
    rw [h0, h0']
  frame_kalloc {va f} _ h := by
    rw [onePage_frameOf] at h
    split_ifs at h
    cases h
    decide
  frame_ne_dir {va f} _ h := by
    rw [onePage_frameOf] at h
    split_ifs at h
    cases h
    decide
  frame_ne_table {va va' f t} _ h ht := by
    rw [onePage_frameOf] at h
    rw [onePage_tableOf] at ht
    split_ifs at h ht
    cases h
    cases ht
    decide
  frame_inj {va va' f} _ _ h h' := by
    rw [onePage_frameOf] at h h'
    split_ifs at h h' with h0 h0'
    exact page_eq_of_PDX_PTX (h0.1.trans h0'.1.symm) (h0.2.trans h0'.2.symm)

theorem deallocuvm_frees_onePage : UserDir 0x3000 onePage 0x1000 ∧ PGSIZE ≤ KERNBASE ∧
    ∃ st', deallocuvm 0x3000 0x1000 PGSIZE 0 onePage = .ok (0, st') ∧ 0x3000 ∈ st'.free ∧ st'.load 0x2000 = 0 := by
  obtain ⟨st', h, ⟨l, hl, -, hmem⟩, hpte⟩ :=
    deallocuvm_frees_range 0x3000 0x1000 PGSIZE 0 onePage onePage_userDir (by decide)
  have h0 : Shrunk PGSIZE 0 0 := by decide
  have hf0 : frameOf onePage 0x1000 0 = some 0x3000 := by rw [onePage_frameOf]; rfl
  have hp0 : pteOf onePage 0x1000 0 = some 0x2000 := by rw [pteOf, onePage_tableOf]; rfl
  refine ⟨onePage_userDir, by decide, st', by rwa [if_neg (by decide)] at h, ?_, ?_⟩
  · rw [hl]
    exact List.mem_append_left _ ((hmem _).mpr ⟨0, h0, hf0⟩)
  · rw [(hpte 0).2 0x2000 hp0, if_pos ⟨h0, by decide +kernel⟩]

end Dealloc

end Xv6Net.Kernel.Dealloc
