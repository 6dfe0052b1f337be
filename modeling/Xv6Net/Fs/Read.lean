import Xv6Net.Fs.Mkfs
import Xv6Net.Lib.Except

/-! The reading side of `fs.c`: `ilock`'s copy of a `dinode`, `readi`, `namecmp` and `dirlookup`.
`readi` reaches a block through `bmap`, which allocates for an unmapped index whoever calls it; an
inode whose blocks below its size are all mapped is read without a write to the cache or the log. -/

namespace Xv6Net.Fs.Read

open Xv6Net.Lib.Bytes Xv6Net.Lib.Except Xv6Net.Fs.Layout Xv6Net.Fs.Log Xv6Net.Fs.Blocks Xv6Net.Fs.Mkfs

section Read

variable (sb : Superblock) (devsw : ℕ → Option (ℕ → ℤ))

def dinodeAt (inum : ℕ) (s : FsState) : dinode := dinode.load (s.bread (IBLOCK inum sb)) (inum % IPB * 64)

-- `ilock` of an inode that is not `valid` yet copies the fields of its `dinode`.
def ilock (inum : ℕ) (s : FsState) : Except String Inode :=
  let d := dinodeAt sb inum s
  if d.type = 0 then .error "ilock: no type"
  else .ok ⟨inum, d.type, d.major, d.minor, d.nlink, d.size, fun i => if h : i < NDIRECT + 1 then d.addrs ⟨i, h⟩ else 0⟩

/-- The address `bmap` finds for block index `bn` without allocating, `0` for a hole. -/
def blockAddr (ip : Inode) (bn : ℕ) (s : FsState) : UInt32 :=
  if bn < NDIRECT then ip.addrs bn
  else if ip.addrs NDIRECT = 0 then 0
  else (s.bread (ip.addrs NDIRECT).toNat).load32 (4 * (bn - NDIRECT))

/-- The copy loop of `readi`, collecting the bytes copied to `dst`; as in `writeLoop`, `n` rounds
of fuel reach `tot = n`. -/
def readLoop (n : ℕ) : ℕ → ℕ → ℕ → List UInt8 → Inode → FsState → Except String (List UInt8 × Inode × FsState)
  | 0, _, _, dst, ip, s => .ok (dst, ip, s)
  | fuel + 1, tot, off, dst, ip, s =>
    if tot < n then do
      let (addr, ip, s) ← bmap sb ip (off / BSIZE) s
      let m := min (n - tot) (BSIZE - off % BSIZE)
      readLoop n fuel (tot + m) (off + m) (dst ++ (s.bread addr.toNat).read (off % BSIZE) m) ip s
    else .ok (dst, ip, s)

def readi (ip : Inode) (off n : ℕ) (s : FsState) : Except String (ℤ × List UInt8 × Inode × FsState) :=
  if ip.type = T_DEV then
    if ip.major.toNat ≥ NDEV then .ok (-1, [], ip, s)
    else match devsw ip.major.toNat with
      | some read => .ok (read n, [], ip, s)
      | none => .ok (-1, [], ip, s)
  else if off > ip.size.toNat ∨ (off + n) % 2 ^ 32 < off then .ok (-1, [], ip, s)
  else
    let n := if off + n > ip.size.toNat then ip.size.toNat - off else n
    do
      let (dst, ip, s) ← readLoop sb n n 0 off [] ip s
      pure (n, dst, ip, s)

/-- Every block index below `ceil(size / BSIZE)` is mapped. -/
def NoHoles (ip : Inode) (s : FsState) : Prop := ∀ bn, bn * BSIZE < ip.size.toNat → blockAddr ip bn s ≠ 0

theorem bmap_of_mapped {ip : Inode} {bn : ℕ} {s : FsState} {r : UInt32 × Inode × FsState}
    (hm : blockAddr ip bn s ≠ 0) (h : bmap sb ip bn s = .ok r) : r = (blockAddr ip bn s, ip, s) := by
  unfold bmap at h
  unfold blockAddr at hm ⊢
  by_cases hd : bn < NDIRECT
  · rw [if_pos hd] at hm h ⊢
    rw [if_neg hm] at h
    cases h
    rfl
  · rw [if_neg hd] at hm h ⊢
    have hi : ip.addrs NDIRECT ≠ 0 := fun h0 => hm (if_pos h0)
    rw [if_neg hi] at hm ⊢
    dsimp only at h
    by_cases hb : bn - NDIRECT < NINDIRECT
    · rw [if_pos hb, if_neg hi] at h
      dsimp only [pure, Except.pure, bind, Except.bind] at h
      rw [if_neg hm] at h
      cases h
      rfl
    · rw [if_neg hb] at h
      cases h

theorem readLoop_pure {ip : Inode} {s : FsState} (hm : NoHoles ip s) {n : ℕ} :
    ∀ fuel tot off dst {r : List UInt8 × Inode × FsState}, off + (n - tot) ≤ ip.size.toNat →
      readLoop sb n fuel tot off dst ip s = .ok r → r.2 = (ip, s)
  | 0, _, _, _, _, _, h => by cases h; rfl
  | fuel + 1, tot, off, dst, r, hle, h => by
    unfold readLoop at h
    split_ifs at h with ht
    · obtain ⟨⟨addr, ip', s'⟩, hb, h⟩ := bind_ok h
      have hbn : off / BSIZE * BSIZE < ip.size.toNat := by
        have := Nat.div_mul_le_self off BSIZE
        omega
      cases bmap_of_mapped sb (hm _ hbn) hb
      have hmin : min (n - tot) (BSIZE - off % BSIZE) ≤ n - tot := min_le_left _ _
      exact readLoop_pure hm fuel _ _ _ (by omega) h
    · cases h
      rfl

theorem readLoop_one {n fuel off : ℕ} {dst : List UInt8} {ip ip' : Inode} {s s' : FsState} {a : UInt32}
    (hpos : 0 < n) (hn : n ≤ BSIZE - off % BSIZE) (hb : bmap sb ip (off / BSIZE) s = .ok (a, ip', s')) :
    readLoop sb n (fuel + 1) 0 off dst ip s = .ok (dst ++ (s'.bread a.toNat).read (off % BSIZE) n, ip', s') := by
  rw [readLoop, if_pos hpos, hb]
  dsimp only [bind, Except.bind]
  rw [show min (n - 0) (BSIZE - off % BSIZE) = n by omega, Nat.zero_add]
  cases fuel with
  | zero => rfl
  | succ fuel => rw [readLoop, if_neg (Nat.lt_irrefl n)]

/-- A read inside one block of the file: `bmap` of that block, then one copy. -/
theorem readi_within {ip ip' : Inode} {s s' : FsState} {off n : ℕ} {a : UInt32} (hdev : ip.type ≠ T_DEV)
    (hsz : off + n ≤ ip.size.toNat) (hw : off % BSIZE + n ≤ BSIZE) (hpos : 0 < n)
    (hb : bmap sb ip (off / BSIZE) s = .ok (a, ip', s')) :
    readi sb devsw ip off n s = .ok (n, (s'.bread a.toNat).read (off % BSIZE) n, ip', s') := by
  have hmod : (off + n) % 2 ^ 32 = off + n := Nat.mod_eq_of_lt (by have := ip.size.toNat_lt; omega)
  unfold readi
  rw [if_neg hdev, if_neg (by rw [hmod]; omega)]
  dsimp only
  rw [if_neg (by omega)]
  obtain ⟨k, rfl⟩ : ∃ k, n = k + 1 := ⟨n - 1, by omega⟩
  rw [readLoop_one sb hpos (by omega) hb]
  rfl

-- `strncmp(p, q, n)` on `NUL`-terminated strings, a list reading as `0` past its end.
def strncmp : ℕ → List UInt8 → List UInt8 → ℤ
  | 0, _, _ => 0
  | n + 1, p, q =>
    if p.headD 0 ≠ 0 ∧ p.headD 0 = q.headD 0 then strncmp n p.tail q.tail
    else (p.headD 0).toNat - (q.headD 0).toNat

def namecmp (s t : List UInt8) : ℤ := strncmp DIRSIZ s t

/-- The scan of `dirlookup` over the entries at `off, off + 16, …` below the size; a match returns
the entry's inode number and offset. Each round moves on by an entry, so `size` rounds of fuel
reach the end. -/
def dirlookupLoop (name : List UInt8) : ℕ → ℕ → Inode → FsState → Except String (Option (ℕ × ℕ) × Inode × FsState)
  | 0, _, dp, s => .ok (none, dp, s)
  | fuel + 1, off, dp, s =>
    if off < dp.size.toNat then do
      let (r, de, dp, s) ← readi sb devsw dp off 16 s
      if r ≠ 16 then .error "dirlookup read"
      else if ofLeBytes (de.take 2) = 0 then dirlookupLoop name fuel (off + 16) dp s
      else if namecmp name (de.drop 2) = 0 then .ok (some (ofLeBytes (de.take 2), off), dp, s)
      else dirlookupLoop name fuel (off + 16) dp s
    else .ok (none, dp, s)

def dirlookup (dp : Inode) (name : List UInt8) (s : FsState) : Except String (Option (ℕ × ℕ) × Inode × FsState) :=
  if dp.type ≠ T_DIR then .error "dirlookup not DIR"
  else dirlookupLoop sb devsw name dp.size.toNat 0 dp s

-- An entry that is free or has another name moves the scan on by one entry.
theorem dirlookupLoop_skip {name de : List UInt8} {fuel off : ℕ} {dp dp' : Inode} {s s' : FsState}
    (hoff : off < dp.size.toNat) (hr : readi sb devsw dp off 16 s = .ok (16, de, dp', s'))
    (hskip : ofLeBytes (de.take 2) = 0 ∨ namecmp name (de.drop 2) ≠ 0) :
    dirlookupLoop sb devsw name (fuel + 1) off dp s = dirlookupLoop sb devsw name fuel (off + 16) dp' s' := by
  rw [dirlookupLoop, if_pos hoff, hr]
  dsimp only [bind, Except.bind]
  rw [if_neg (by decide)]
  by_cases h0 : ofLeBytes (de.take 2) = 0
  · rw [if_pos h0]
  · rw [if_neg h0, if_neg (hskip.resolve_left h0)]

theorem dirlookupLoop_end {name : List UInt8} {fuel off : ℕ} {dp : Inode} {s : FsState} (h : ¬ off < dp.size.toNat) :
    dirlookupLoop sb devsw name fuel off dp s = .ok (none, dp, s) := by
  cases fuel with
  | zero => rfl
  | succ fuel => rw [dirlookupLoop, if_neg h]

/-- `k` entries that are skipped, each read without a change to the inode or the cache. -/
theorem dirlookupLoop_skip_many {name : List UInt8} {dp : Inode} {s : FsState} (e : ℕ → List UInt8) :
    ∀ k fuel off, (∀ j < k, off + 16 * j < dp.size.toNat ∧ readi sb devsw dp (off + 16 * j) 16 s = .ok (16, e j, dp, s) ∧
      (ofLeBytes ((e j).take 2) = 0 ∨ namecmp name ((e j).drop 2) ≠ 0)) →
      dirlookupLoop sb devsw name (fuel + k) off dp s = dirlookupLoop sb devsw name fuel (off + 16 * k) dp s
  | 0, _, _, _ => rfl
  | k + 1, fuel, off, h => by
    rw [show fuel + (k + 1) = fuel + 1 + k by omega, dirlookupLoop_skip_many e k (fuel + 1) off fun j hj => h j (by omega)]
    obtain ⟨hoff, hr, hskip⟩ := h k (by omega)
    rw [dirlookupLoop_skip sb devsw hoff hr hskip, show off + 16 * k + 16 = off + 16 * (k + 1) by ring]

/-! ### The bitmap and the blocks the inodes reference -/

/-- Block `b` is a direct address of `d`, its indirect block, or an entry of that block. -/
def Refs (s : FsState) (d : dinode) (b : ℕ) : Prop :=
  (∃ i, (d.addrs i).toNat = b) ∨
    (d.addrs ⟨NDIRECT, Nat.lt_succ_self NDIRECT⟩ ≠ 0 ∧
      ∃ j < NINDIRECT, ((s.bread (d.addrs ⟨NDIRECT, Nat.lt_succ_self NDIRECT⟩).toNat).load32 (4 * j)).toNat = b)

instance (s : FsState) (d : dinode) (b : ℕ) : Decidable (Refs s d b) := inferInstanceAs (Decidable (_ ∨ _))

def Allocated (s : FsState) (inum : ℕ) : Prop := 0 < inum ∧ inum < sb.ninodes ∧ (dinodeAt sb inum s).type ≠ 0

-- The boot block, the superblock, the log, the inode blocks and the bitmap blocks.
def IsMeta (b : ℕ) : Prop := b < sb.bmapstart + (sb.size / BPB + 1)

def BitmapExact (s : FsState) : Prop :=
  ∀ b < sb.size, (bitFree (s.bread (BBLOCK b sb)) (b % BPB) = false ↔
    IsMeta sb b ∨ ∃! inum, Allocated sb s inum ∧ Refs s (dinodeAt sb inum s) b)

theorem BitmapExact.referenced {s : FsState} (h : BitmapExact sb s) {b : ℕ} (hb : b < sb.size)
    (hset : bitFree (s.bread (BBLOCK b sb)) (b % BPB) = false) (hm : ¬ IsMeta sb b) :
    ∃ inum, Allocated sb s inum ∧ Refs s (dinodeAt sb inum s) b := by
  obtain ⟨inum, hi, -⟩ := ((h b hb).mp hset).resolve_left hm
  exact ⟨inum, hi⟩

end Read

end Xv6Net.Fs.Read
