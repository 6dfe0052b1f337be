import Xv6Net.Lib.Bytes

/-! `readseg` and `readsect` of `bootmain.c`: the boot loader copies the kernel image from the
disk into physical memory, one 512-byte sector at a time. Disks are byte-addressed, sector `s` at
`512 * s`; the kernel image starts at sector 1 of drive 0. Pointers and `uint`s are 32-bit, and the
copy loop runs on `fuel` rounds at most. -/

namespace Xv6Net.Kernel.Bootmain

open Xv6Net.Lib.Bytes

def SECTSIZE : ℕ := 512

/-- `readsect(dst, offset)`: the four `outb`s give the drive the low 28 bits of `offset` as the
sector, and bit 28 as the drive; `insl` stores the sector at `dst`. -/
def readsect (disk : ℕ → Mem) (m : Mem) (dst offset : ℕ) : Mem :=
  m.write dst ((disk (offset / 2 ^ 28 % 2)).read (SECTSIZE * (offset % 2 ^ 28)) SECTSIZE)

/-- `for(; pa < epa; pa += SECTSIZE, offset++) readsect(pa, offset);`: the memory, and the sectors
read in order. -/
def readsegLoop (disk : ℕ → Mem) (epa : ℕ) : ℕ → ℕ → ℕ → Mem → Option (Mem × List ℕ)
  | 0, _, _, _ => none
  | fuel + 1, pa, offset, m =>
    if pa < epa then
      (readsegLoop disk epa fuel ((pa + SECTSIZE) % 2 ^ 32) ((offset + 1) % 2 ^ 32)
        (readsect disk m pa offset)).map fun r => (r.1, offset :: r.2)
    else some (m, [])

/-- `readseg(pa, count, offset)`: `pa` rounded down to the sector of `offset`, and `offset` turned
into the sector after the boot sector. -/
def readseg (disk : ℕ → Mem) (m : Mem) (pa count offset fuel : ℕ) : Option (Mem × List ℕ) :=
  let epa := (pa + count) % 2 ^ 32
  let pa := (pa + 2 ^ 32 - offset % SECTSIZE) % 2 ^ 32
  let offset := offset / SECTSIZE + 1
  readsegLoop disk epa fuel pa offset m

lemma readsegLoop_eq (disk : ℕ → Mem) {epa k p s fuel : ℕ} (m : Mem)
    (hp : p + SECTSIZE * k < 2 ^ 32) (hle : epa ≤ p + SECTSIZE * k) (hlt : p + SECTSIZE * k < epa + SECTSIZE)
    (hs : s + k < 2 ^ 28) (hf : k < fuel) :
    readsegLoop disk epa fuel p s m = some (fun a => if p ≤ a ∧ a < p + SECTSIZE * k then
      disk 0 (SECTSIZE * s + (a - p)) else m a, List.range' s k) := by
  -- `SECTSIZE` stays an atom for `omega`, which runs out of depth on `512 * k` below `2^32`
  have hS : 0 < SECTSIZE := by decide
  induction k generalizing p s fuel m with
  | zero =>
    obtain ⟨fuel, rfl⟩ : ∃ f, fuel = f + 1 := ⟨fuel - 1, by omega⟩
    rw [readsegLoop, if_neg (by omega)]
    refine congrArg some (Prod.ext (funext fun a => ?_) rfl)
    show m a = if p ≤ a ∧ a < p + SECTSIZE * 0 then disk 0 (SECTSIZE * s + (a - p)) else m a
    rw [if_neg (by omega)]
  | succ k ih =>
    obtain ⟨fuel, rfl⟩ : ∃ f, fuel = f + 1 := ⟨fuel - 1, by omega⟩
    rw [Nat.mul_succ] at hp hle hlt ⊢
    have hp' : (p + SECTSIZE) % 2 ^ 32 = p + SECTSIZE := Nat.mod_eq_of_lt (by omega)
    have hs' : (s + 1) % 2 ^ 32 = s + 1 := Nat.mod_eq_of_lt (by omega)
    rw [readsegLoop, if_pos (by omega), hp', hs', ih _ (by omega) (by omega) (by omega) (by omega) (by omega)]
    simp only [Option.map_some, List.range'_succ]
    refine congrArg some (Prod.ext (funext fun a => ?_) rfl)
    show (if p + SECTSIZE ≤ a ∧ a < p + SECTSIZE + SECTSIZE * k then _ else _) =
      if p ≤ a ∧ a < p + (SECTSIZE * k + SECTSIZE) then _ else _
    -- the first sector, then the rest after it
    by_cases ha : p ≤ a ∧ a < p + SECTSIZE
    · have hs0 : s < 2 ^ 28 := by omega
      rw [if_neg (by omega), if_pos (by omega), readsect, Nat.div_eq_of_lt hs0, Nat.mod_eq_of_lt hs0]
      obtain ⟨i, rfl⟩ : ∃ i, a = p + i := ⟨a - p, by omega⟩
      rw [Mem.write_apply_add _ _ _ (by simp; omega)]
      simp [Mem.read]
    · by_cases hb : p + SECTSIZE ≤ a ∧ a < p + SECTSIZE + SECTSIZE * k
      · rw [if_pos hb, if_pos (by omega), Nat.mul_succ]
        exact congrArg (disk 0) (by omega)
      · rw [if_neg hb, if_neg (by omega), readsect]
        rcases Nat.lt_or_ge a p with h | h
        · exact Mem.write_apply_of_lt _ _ h
        · exact Mem.write_apply_of_ge _ _ (by simp; omega)

/-- `readseg(pa, count, offset)` for a destination that does not wrap below 0 when rounded down to
its sector, nor past `2^32` with a sector to spare: it reads `⌈(count + offset % 512) / 512⌉`
sectors from sector `offset / 512 + 1` on, the bytes `[pa, pa + count)` are the image's bytes
`[offset, offset + count)`, and it writes nothing outside the whole sectors from `pa - offset % 512`. -/
theorem readseg_loads (disk : ℕ → Mem) (m : Mem) (pa count offset : ℕ) (hoff : offset < 2 ^ 32)
    (hlo : offset % SECTSIZE ≤ pa) (hhi : pa + count + SECTSIZE ≤ 2 ^ 32) (fuel : ℕ)
    (hf : (count + offset % SECTSIZE + SECTSIZE - 1) / SECTSIZE < fuel) :
    ∃ m', readseg disk m pa count offset fuel =
        some (m', List.range' (offset / SECTSIZE + 1) ((count + offset % SECTSIZE + SECTSIZE - 1) / SECTSIZE)) ∧
      (∀ i < count, m' (pa + i) = disk 0 (SECTSIZE + offset + i)) ∧
      ∀ a, a < pa - offset % SECTSIZE ∨
        pa - offset % SECTSIZE + SECTSIZE * ((count + offset % SECTSIZE + SECTSIZE - 1) / SECTSIZE) ≤ a → m' a = m a := by
  have hS : 0 < SECTSIZE := by decide
  -- the sectors cover the request and end within the last one
  have hcover := Nat.lt_mul_div_succ (count + offset % SECTSIZE + SECTSIZE - 1) hS
  have hwithin := Nat.mul_div_le (count + offset % SECTSIZE + SECTSIZE - 1) SECTSIZE
  rw [Nat.mul_succ] at hcover
  have hsec : offset / SECTSIZE + 1 + (count + offset % SECTSIZE + SECTSIZE - 1) / SECTSIZE < 2 ^ 28 := by
    unfold SECTSIZE at *
    omega
  have hepa : (pa + count) % 2 ^ 32 = pa + count := Nat.mod_eq_of_lt (by omega)
  have hstart : (pa + 2 ^ 32 - offset % SECTSIZE) % 2 ^ 32 = pa - offset % SECTSIZE := by
    rw [show pa + 2 ^ 32 - offset % SECTSIZE = pa - offset % SECTSIZE + 2 ^ 32 by omega, Nat.add_mod_right,
      Nat.mod_eq_of_lt (by omega)]
  refine ⟨fun a => if pa - offset % SECTSIZE ≤ a ∧
      a < pa - offset % SECTSIZE + SECTSIZE * ((count + offset % SECTSIZE + SECTSIZE - 1) / SECTSIZE) then
      disk 0 (SECTSIZE * (offset / SECTSIZE + 1) + (a - (pa - offset % SECTSIZE))) else m a,
    ?_, fun i hi => ?_, fun a ha => ?_⟩
  · rw [readseg, hepa, hstart, readsegLoop_eq disk m (by omega) (by omega) (by omega) hsec hf]
  · show (if _ then _ else _) = _
    have hdiv := Nat.div_add_mod offset SECTSIZE
    rw [if_pos (by omega), Nat.mul_succ]
    exact congrArg (disk 0) (by omega)
  · show (if _ then _ else _) = _
    rw [if_neg (by omega)]

/-- `bootmain`'s first call, `readseg(0x10000, 4096, 0)`: eight sectors from sector 1, and the ELF
header's page is the first page of the image. -/
theorem readseg_first_page : ∃ m', readseg (fun _ b => UInt8.ofNat b) (fun _ => 0) 0x10000 4096 0 9 =
    some (m', List.range' 1 8) ∧ ∀ i < 4096, m' (0x10000 + i) = UInt8.ofNat (512 + i) := by
  obtain ⟨m', h, hb, -⟩ := readseg_loads (fun _ b => UInt8.ofNat b) (fun _ => 0) 0x10000 4096 0
    (by decide) (by decide) (by decide) 9 (by decide)
  exact ⟨m', h.trans rfl, fun i hi => (hb i hi).trans rfl⟩

end Xv6Net.Kernel.Bootmain
