import Xv6Net.Lib.Bits

/-! `pci_enable_device` of `pci.c`: the probe of the base-address registers. The device answers
configuration reads with any values: `rd n` is the `n`-th read, where read 0 is the command
register that `pci_enable_device` prints. Configuration writes only reach the device. -/

namespace Xv6Net.Kernel.Pci

open Xv6Net.Lib.Bits

def PCI_MAPREG_START : UInt32 := 0x10
def PCI_MAPREG_NUM (offset : UInt32) : UInt32 := (offset - PCI_MAPREG_START) / 4

def PCI_MAPREG_TYPE_MASK : UInt32 := 0x00000001
def PCI_MAPREG_TYPE (mr : UInt32) : UInt32 := mr &&& PCI_MAPREG_TYPE_MASK
def PCI_MAPREG_TYPE_MEM : UInt32 := 0x00000000

def PCI_MAPREG_MEM_TYPE_MASK : UInt32 := 0x00000006
def PCI_MAPREG_MEM_TYPE (mr : UInt32) : UInt32 := mr &&& PCI_MAPREG_MEM_TYPE_MASK
def PCI_MAPREG_MEM_TYPE_64BIT : UInt32 := 0x00000004

/-- `PCI_MAPREG_MEM_ADDR` and `PCI_MAPREG_IO_ADDR`: the address bits of a register. -/
def mapregAddr (mask mr : UInt32) : UInt32 := mr &&& mask

/-- `PCI_MAPREG_MEM_SIZE` and `PCI_MAPREG_IO_SIZE`: `x & -x` of the address bits. -/
def mapregSize (mask mr : UInt32) : UInt32 := mapregAddr mask mr &&& -mapregAddr mask mr

def PCI_MAPREG_MEM_ADDR_MASK : UInt32 := 0xfffffff0
def PCI_MAPREG_MEM_ADDR (mr : UInt32) : UInt32 := mapregAddr PCI_MAPREG_MEM_ADDR_MASK mr
def PCI_MAPREG_MEM_SIZE (mr : UInt32) : UInt32 := mapregSize PCI_MAPREG_MEM_ADDR_MASK mr

def PCI_MAPREG_IO_ADDR_MASK : UInt32 := 0xfffffffc
def PCI_MAPREG_IO_ADDR (mr : UInt32) : UInt32 := mapregAddr PCI_MAPREG_IO_ADDR_MASK mr
def PCI_MAPREG_IO_SIZE (mr : UInt32) : UInt32 := mapregSize PCI_MAPREG_IO_ADDR_MASK mr

/-- `reg_base[6]` and `reg_size[6]` of `struct pci_func`, indexed past their end as C would. -/
structure PciFunc where
  regBase : ℕ → UInt32
  regSize : ℕ → UInt32

/-- A BAR from its original value `oldv` and the value `rv` read back after writing all ones:
`bar_width`, `base` and `size`. -/
def decodeBar (oldv rv : UInt32) : UInt32 × UInt32 × UInt32 :=
  if PCI_MAPREG_TYPE rv = PCI_MAPREG_TYPE_MEM then
    (if PCI_MAPREG_MEM_TYPE rv = PCI_MAPREG_MEM_TYPE_64BIT then 8 else 4,
      PCI_MAPREG_MEM_ADDR oldv, PCI_MAPREG_MEM_SIZE rv)
  else (4, PCI_MAPREG_IO_ADDR oldv, PCI_MAPREG_IO_SIZE rv)

/-- One round of the loop: the register's offset and the two values read for it. -/
structure Probe where
  bar : UInt32
  oldv : UInt32
  rv : UInt32

/-- The value read back marks a 64-bit memory BAR, whose upper half is the next register. -/
def Is64 (rv : UInt32) : Prop :=
  PCI_MAPREG_TYPE rv = PCI_MAPREG_TYPE_MEM ∧ PCI_MAPREG_MEM_TYPE rv = PCI_MAPREG_MEM_TYPE_64BIT

instance (rv : UInt32) : Decidable (Is64 rv) :=
  inferInstanceAs (Decidable (PCI_MAPREG_TYPE rv = PCI_MAPREG_TYPE_MEM ∧
    PCI_MAPREG_MEM_TYPE rv = PCI_MAPREG_MEM_TYPE_64BIT))

/-- How far a round moves `bar`, and the registers after it. -/
def roundWidth (p : Probe) : UInt32 := if p.rv = 0 then 4 else (decodeBar p.oldv p.rv).1

def roundRegs (f : PciFunc) (p : Probe) : PciFunc :=
  if p.rv = 0 then f
  else ⟨Function.update f.regBase (PCI_MAPREG_NUM p.bar).toNat (decodeBar p.oldv p.rv).2.1,
    Function.update f.regSize (PCI_MAPREG_NUM p.bar).toNat (decodeBar p.oldv p.rv).2.2⟩

section Decode

lemma Is64.ne_zero {rv : UInt32} (h : Is64 rv) : rv ≠ 0 := by
  rintro rfl
  exact absurd h.2 (by decide)

lemma roundWidth_toNat (p : Probe) : (roundWidth p).toNat = if Is64 p.rv then 8 else 4 := by
  unfold roundWidth
  by_cases h0 : p.rv = 0
  · rw [if_pos h0, if_neg fun h => Is64.ne_zero h h0]
    rfl
  · rw [if_neg h0]
    unfold decodeBar
    by_cases h64 : Is64 p.rv
    · rw [if_pos h64, if_pos h64.1, if_pos h64.2]
      rfl
    · rw [if_neg h64]
      split_ifs with h1 h2
      · exact absurd ⟨h1, h2⟩ h64
      · rfl
      · rfl

lemma PCI_MAPREG_NUM_toNat {b : UInt32} (h : 0x10 ≤ b.toNat) : (PCI_MAPREG_NUM b).toNat = (b.toNat - 0x10) / 4 := by
  rw [PCI_MAPREG_NUM, UInt32.toNat_div,
    UInt32.toNat_sub_of_le _ _ (UInt32.le_iff_toNat_le.mpr (show PCI_MAPREG_START.toNat ≤ b.toNat from h))]
  rfl

end Decode

/-- What the loop from the register at `bar` does, read off its rounds `ps`: they stay between
`bar` and `PCI_MAPREG_END`, at most one for each register; they reach every register except the
upper half of a 64-bit BAR, and never that one; each register they decode holds its base and size
at its index, and every other index keeps what it held. -/
structure Probed (bar : ℕ) (f f' : PciFunc) (ps : List Probe) : Prop where
  length_le : ps.length ≤ (0x28 - bar) / 4
  mem_range : ∀ p ∈ ps, bar ≤ p.bar.toNat ∧ p.bar.toNat < 0x28 ∧ p.bar.toNat % 4 = 0
  skips : ∀ p ∈ ps, Is64 p.rv → ∀ q ∈ ps, q.bar.toNat ≠ p.bar.toNat + 4
  covers : ∀ b, bar ≤ b → b < 0x28 → b % 4 = 0 →
    (∃ p ∈ ps, p.bar.toNat = b) ∨ ∃ p ∈ ps, Is64 p.rv ∧ b = p.bar.toNat + 4
  written : ∀ p ∈ ps, p.rv ≠ 0 → f'.regBase (PCI_MAPREG_NUM p.bar).toNat = (decodeBar p.oldv p.rv).2.1 ∧
    f'.regSize (PCI_MAPREG_NUM p.bar).toNat = (decodeBar p.oldv p.rv).2.2
  frame : ∀ i, (∀ p ∈ ps, p.rv ≠ 0 → (PCI_MAPREG_NUM p.bar).toNat ≠ i) →
    f'.regBase i = f.regBase i ∧ f'.regSize i = f.regSize i

section Probed

variable {f f' : PciFunc}

lemma Probed.done {bar : ℕ} (h : 0x28 ≤ bar) : Probed bar f f [] where
  length_le := Nat.zero_le _
  mem_range _ hp := absurd hp List.not_mem_nil
  skips _ hp := absurd hp List.not_mem_nil
  covers _ hb hlt _ := absurd (Nat.lt_of_lt_of_le hlt h) (Nat.not_lt.mpr hb)
  written _ hp := absurd hp List.not_mem_nil
  frame _ _ := ⟨rfl, rfl⟩

lemma Probed.cons {p : Probe} {ps : List Probe} (h16 : 0x10 ≤ p.bar.toNat) (hb : p.bar.toNat < 0x28)
    (hal : p.bar.toNat % 4 = 0) (hP : Probed (p.bar.toNat + (roundWidth p).toNat) (roundRegs f p) f' ps) :
    Probed p.bar.toNat f f' (p :: ps) := by
  have hw := roundWidth_toNat p
  have hrest : ∀ q ∈ ps, p.bar.toNat + (roundWidth p).toNat ≤ q.bar.toNat := fun q hq => (hP.mem_range q hq).1
  -- later rounds decode other registers than this one
  have hidx : ∀ q ∈ ps, (PCI_MAPREG_NUM q.bar).toNat ≠ (PCI_MAPREG_NUM p.bar).toNat := fun q hq => by
    have := hrest q hq
    have := (hP.mem_range q hq).2.2
    rw [PCI_MAPREG_NUM_toNat h16, PCI_MAPREG_NUM_toNat (by split_ifs at hw <;> omega)]
    split_ifs at hw <;> omega
  refine ⟨?_, ?_, ?_, ?_, ?_, ?_⟩
  · rw [List.length_cons]
    have := hP.length_le
    split_ifs at hw <;> omega
  · intro q hq
    rcases List.mem_cons.mp hq with rfl | hq
    · exact ⟨le_rfl, hb, hal⟩
    · have := hP.mem_range q hq
      exact ⟨by omega, this.2⟩
  · intro r hr h64 q hq
    rcases List.mem_cons.mp hr with hrp | hr
    · -- the upper half of `p` lies below every later round
      subst hrp
      rcases List.mem_cons.mp hq with hqp | hq
      · rw [hqp]
        omega
      · have := hrest q hq
        rw [if_pos h64] at hw
        omega
    · rcases List.mem_cons.mp hq with hqp | hq
      · have := hrest r hr
        rw [hqp]
        omega
      · exact hP.skips r hr h64 q hq
  · intro b hlo hlt hb4
    by_cases hbp : b = p.bar.toNat
    · exact .inl ⟨p, List.mem_cons_self, hbp.symm⟩
    by_cases h64 : Is64 p.rv ∧ b = p.bar.toNat + 4
    · exact .inr ⟨p, List.mem_cons_self, h64⟩
    · rcases hP.covers b (by split_ifs at hw <;> simp_all <;> omega) hlt hb4 with ⟨q, hq, hqb⟩ | ⟨q, hq, hqb⟩
      · exact .inl ⟨q, List.mem_cons_of_mem _ hq, hqb⟩
      · exact .inr ⟨q, List.mem_cons_of_mem _ hq, hqb⟩
  · intro q hq h0
    rcases List.mem_cons.mp hq with rfl | hq
    · obtain ⟨hbase, hsize⟩ := hP.frame _ fun q hq _ => hidx q hq
      rw [hbase, hsize]
      simp only [roundRegs, if_neg h0, Function.update_self, and_self]
    · exact hP.written q hq h0
  · intro i hi
    obtain ⟨hbase, hsize⟩ := hP.frame i fun q hq h0 => hi q (List.mem_cons_of_mem _ hq) h0
    rw [hbase, hsize]
    by_cases h0 : p.rv = 0
    · simp only [roundRegs, if_pos h0, and_self]
    · have hne := hi p List.mem_cons_self h0
      simp only [roundRegs, if_neg h0, Function.update_of_ne hne.symm, and_self]

end Probed

end Xv6Net.Kernel.Pci
