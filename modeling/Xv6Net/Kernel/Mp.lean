import Xv6Net.Lib.Bytes

/-! `mpinit` of `mp.c`: the walk over the entries of the MP configuration table that `mpconfig`
accepted. The table is read from the byte image `m` of memory at the address `mp->physaddr` gives.
Each entry starts with its type byte; the walk steps over processors, I/O APICs, buses and
interrupt sources, and on any other type sets `ismp = 0` and leaves the `switch`, not the loop, so
it reads the same entry again. -/

namespace Xv6Net.Kernel.Mp

open Xv6Net.Lib.Bytes

def NCPU : ℕ := 8

def MPPROC : UInt8 := 0x00
def MPBUS : UInt8 := 0x01
def MPIOAPIC : UInt8 := 0x02
def MPIOINTR : UInt8 := 0x03
def MPLINTR : UInt8 := 0x04

-- Field offsets of `struct mpconf` and its size, in the i386 layout.
namespace Mpconf

def length : ℕ := 4
def version : ℕ := 6
def sizeof : ℕ := 44

end Mpconf

-- `sizeof(struct mpproc)` and `sizeof(struct mpioapic)`; `apicid` and `apicno` are byte 1 of each.
def sizeofMpproc : ℕ := 20
def sizeofMpioapic : ℕ := 8

/-- `sum(addr, len)`: an `int` sum returned as a `uchar`. -/
def sum (m : Mem) (addr len : ℕ) : UInt8 := UInt8.ofNat ((m.read addr len).map UInt8.toNat).sum

/-- `mpconfig` once `mpsearch` found `mp`: the table at `mp->physaddr`, if it has the signature,
one of the two versions and bytes summing to 0. -/
def mpconfig (m : Mem) (physaddr : ℕ) : Option ℕ :=
  if physaddr = 0 then none
  else if m.read physaddr 4 ≠ [0x50, 0x43, 0x4D, 0x50] then none
  else if m (physaddr + Mpconf.version) ≠ 1 ∧ m (physaddr + Mpconf.version) ≠ 4 then none
  else if sum m physaddr (m.load16 (physaddr + Mpconf.length)).toNat ≠ 0 then none
  else some physaddr

/-- What the loop records: `ncpu` and the `apicid` of `cpus[0..ncpu)`, `ioapicid`, and `ismp`. -/
structure MpState where
  ncpu : ℕ
  apicids : List UInt8
  ioapicid : UInt8
  ismp : Bool

/-- One round of the loop at the entry `p`: where `p` goes next, and what is recorded. -/
def mpEntry (m : Mem) (p : ℕ) (st : MpState) : ℕ × MpState :=
  let t := m p
  if t = MPPROC then
    (p + sizeofMpproc,
      if st.ncpu < NCPU then { st with apicids := st.apicids ++ [m (p + 1)], ncpu := st.ncpu + 1 } else st)
  else if t = MPIOAPIC then (p + sizeofMpioapic, { st with ioapicid := m (p + 1) })
  else if t = MPBUS ∨ t = MPIOINTR ∨ t = MPLINTR then (p + 8, st)
  else (p, { st with ismp := false })

/-- `for(p = (uchar*)(conf+1), e = (uchar*)conf + conf->length; p < e; )`, for at most `fuel`
rounds; `none` when the rounds run out. -/
def mpLoop (m : Mem) (e : ℕ) : ℕ → ℕ → MpState → Option MpState
  | 0, _, _ => none
  | fuel + 1, p, st => if p < e then mpLoop m e fuel (mpEntry m p st).1 (mpEntry m p st).2 else some st

/-- `mpinit` up to its `imcrp` check: `none` if the loop has not ended within `fuel` rounds. -/
def mpinit (m : Mem) (physaddr fuel : ℕ) : Option (Except String MpState) :=
  match mpconfig m physaddr with
  | none => some (.error "Expect to run on an SMP")
  | some conf =>
    (mpLoop m (conf + (m.load16 (conf + Mpconf.length)).toNat) fuel (conf + Mpconf.sizeof) ⟨0, [], 0, true⟩).map
      fun st => if st.ismp then .ok st else .error "Didn't find a suitable machine"

/-- An entry type the `switch` has a case for. -/
def Known (t : UInt8) : Prop := t = MPPROC ∨ t = MPIOAPIC ∨ t = MPBUS ∨ t = MPIOINTR ∨ t = MPLINTR

instance (t : UInt8) : Decidable (Known t) := inferInstanceAs (Decidable (_ ∨ _))

variable {m : Mem} {e : ℕ}

lemma mpEntry_unknown {p : ℕ} (st : MpState) (h : ¬ Known (m p)) : (mpEntry m p st).1 = p := by
  simp only [Known, not_or] at h
  simp [mpEntry, h.1, h.2.1, h.2.2.1, h.2.2.2.1, h.2.2.2.2]

/-- The entries the walk from `p` visits, one round at a time. -/
inductive Reaches (m : Mem) (e : ℕ) : ℕ → ℕ → Prop
  | refl (p : ℕ) : Reaches m e p p
  | step {p q : ℕ} (st : MpState) : p < e → Known (m p) → Reaches m e (mpEntry m p st).1 q → Reaches m e p q

/-- At an entry of unknown type the loop reads the same entry again and again. -/
theorem mpLoop_stuck {p : ℕ} (hp : p < e) (ht : ¬ Known (m p)) : ∀ fuel st, mpLoop m e fuel p st = none := by
  intro fuel
  induction fuel with
  | zero => intro st; rfl
  | succ fuel ih =>
    intro st
    rw [mpLoop, if_pos hp, mpEntry_unknown st ht]
    exact ih _

/-- A walk that reaches an entry of unknown type never ends. The walk does not depend on what it
recorded, so the state the loop carries does not matter. -/
theorem mpLoop_diverges {p q : ℕ} (hr : Reaches m e p q) (hq : q < e) (ht : ¬ Known (m q)) :
    ∀ fuel st, mpLoop m e fuel p st = none := by
  induction hr with
  | refl p => exact mpLoop_stuck hq ht
  | @step p q' st₀ hp hk _ ih =>
    intro fuel st
    cases fuel with
    | zero => rfl
    | succ fuel =>
      rw [mpLoop, if_pos hp]
      have hnext : (mpEntry m p st).1 = (mpEntry m p st₀).1 := by
        dsimp only [mpEntry]
        split_ifs <;> rfl
      rw [hnext]
      exact ih hq ht fuel _

/-- A table that passes `mpconfig`'s checks and whose walk meets an entry of a type outside
`mp.h`'s five: `mpinit` never leaves its loop. -/
theorem mpinit_loops_on_unknown_entry {physaddr q : ℕ} (hc : mpconfig m physaddr = some physaddr)
    (hr : Reaches m (physaddr + (m.load16 (physaddr + Mpconf.length)).toNat) (physaddr + Mpconf.sizeof) q)
    (hq : q < physaddr + (m.load16 (physaddr + Mpconf.length)).toNat) (ht : ¬ Known (m q)) (fuel : ℕ) :
    mpinit m physaddr fuel = none := by
  rw [mpinit, hc]
  simp only [mpLoop_diverges hr hq ht, Option.map_none]

/-- A 45-byte table at address 16: "PCMP", length 45, version 1, checksum byte 0x9D, and one entry
of type 5. -/
def unknownEntryTable : Mem :=
  Mem.ofList (List.replicate 16 0 ++ [0x50, 0x43, 0x4D, 0x50, 0x2D, 0x00, 0x01, 0x9D] ++ List.replicate 36 0 ++ [0x05])

theorem mpinit_loops_on_unknown_entry_sample :
    mpconfig unknownEntryTable 16 = some 16 ∧ mpinit unknownEntryTable 16 1000 = none :=
  ⟨by decide, mpinit_loops_on_unknown_entry (q := 60) (by decide) (.refl _) (by decide) (by decide) 1000⟩

end Xv6Net.Kernel.Mp
