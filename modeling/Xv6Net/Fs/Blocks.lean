import Xv6Net.Fs.Log

/-! The block layer under `writei` in `fs.c`: `balloc` and `bzero` over the free bitmap, `bmap` with
its indirect block, `iupdate` of the on-disk inode, and `writei` itself. Each `log_write` marks a
modified buffer dirty in the cache and records its block number, so the numbers an operation passes
to the log can be counted. -/

namespace Xv6Net.Fs.Blocks

open Xv6Net.Lib.Bytes Xv6Net.Fs.Layout Xv6Net.Fs.Log

def T_DIR : UInt16 := 1
def T_FILE : UInt16 := 2
def T_DEV : UInt16 := 3

structure Inode where
  inum : ℕ
  type : UInt16
  major : UInt16
  minor : UInt16
  nlink : UInt16
  size : UInt32
  addrs : ℕ → UInt32

structure FsState where
  disk : Disk
  logged : List ℕ

-- The buffer of block `b` now holds `data`, and `log_write(bp)` records it.
def FsState.logWrite (s : FsState) (b : ℕ) (data : Block) : FsState :=
  ⟨s.disk.modify b data, s.logged ++ [b]⟩

def FsState.bread (s : FsState) (b : ℕ) : Mem := Block.bytes (s.disk.bread b)

theorem FsState.bread_logWrite_self (s : FsState) (b : ℕ) (data : Block) :
    (s.logWrite b data).bread b = Block.bytes data := by
  simp [FsState.bread, FsState.logWrite, Disk.modify, Disk.bread]

theorem FsState.bread_logWrite_of_ne {b b' : ℕ} (h : b' ≠ b) (s : FsState) (data : Block) :
    (s.logWrite b data).bread b' = s.bread b' := by
  simp [FsState.bread, FsState.logWrite, Disk.modify, Disk.bread, Function.update_of_ne h]

def bzero (s : FsState) (bno : ℕ) : FsState := s.logWrite bno fun _ => 0

-- `(bp->data[bi/8] & m) == 0` with `m = 1 << (bi % 8)`.
def bitFree (m : Mem) (bi : ℕ) : Bool := m (bi / 8) &&& ((1 : UInt8) <<< UInt8.ofNat (bi % 8)) == 0

def bitSet (m : Mem) (bi : ℕ) : Mem := m.write (bi / 8) [m (bi / 8) ||| ((1 : UInt8) <<< UInt8.ofNat (bi % 8))]

section Blocks

variable (sb : Superblock)

/-- The two loops of `balloc` visit `b + bi = 0, 1, …, sb.size - 1` in order, testing bit
`bi = (b + bi) % BPB` of the bitmap block `BBLOCK(b + bi, sb)`. -/
def balloc (s : FsState) : Except String (UInt32 × FsState) :=
  match (List.range sb.size).find? fun x => bitFree (s.bread (BBLOCK x sb)) (x % BPB) with
  | none => .error "balloc: out of blocks"
  | some x =>
    let s := s.logWrite (BBLOCK x sb) (Block.ofBytes (bitSet (s.bread (BBLOCK x sb)) (x % BPB)))
    .ok (UInt32.ofNat x, bzero s x)

def bmap (ip : Inode) (bn : ℕ) (s : FsState) : Except String (UInt32 × Inode × FsState) :=
  if bn < NDIRECT then
    if ip.addrs bn = 0 then do
      let (addr, s) ← balloc sb s
      pure (addr, { ip with addrs := Function.update ip.addrs bn addr }, s)
    else pure (ip.addrs bn, ip, s)
  else
    let bn := bn - NDIRECT
    if bn < NINDIRECT then do
      let (ind, ip, s) ← if ip.addrs NDIRECT = 0 then do
          let (addr, s) ← balloc sb s
          pure (addr, { ip with addrs := Function.update ip.addrs NDIRECT addr }, s)
        else pure (ip.addrs NDIRECT, ip, s)
      let addr := (s.bread ind.toNat).load32 (4 * bn)
      if addr = 0 then do
        let (addr, s) ← balloc sb s
        pure (addr, ip, s.logWrite ind.toNat (Block.ofBytes ((s.bread ind.toNat).store32 (4 * bn) addr)))
      else pure (addr, ip, s)
    else .error "bmap: out of range"

-- `struct dinode` is 64 bytes: four shorts, the size and `NDIRECT + 1` addresses.
def iupdate (ip : Inode) (s : FsState) : FsState :=
  let o := ip.inum % IPB * 64
  let m := ((((s.bread (IBLOCK ip.inum sb)).store16 o ip.type).store16 (o + 2) ip.major).store16 (o + 4)
    ip.minor).store16 (o + 6) ip.nlink
  let m := (List.range (NDIRECT + 1)).foldl (fun m i => m.store32 (o + 12 + 4 * i) (ip.addrs i))
    (m.store32 (o + 8) ip.size)
  s.logWrite (IBLOCK ip.inum sb) (Block.ofBytes m)

/-- The copy loop of `writei`: each round copies `m = min(n - tot, BSIZE - off % BSIZE) ≥ 1` bytes,
so `n` rounds of fuel always reach `tot = n`. Returns the final `off`. -/
def writeLoop (src : Mem) (n : ℕ) : ℕ → ℕ → ℕ → ℕ → Inode → FsState → Except String (ℕ × Inode × FsState)
  | 0, _, off, _, ip, s => .ok (off, ip, s)
  | fuel + 1, tot, off, srcp, ip, s =>
    if tot < n then do
      let (addr, ip, s) ← bmap sb ip (off / BSIZE) s
      let m := min (n - tot) (BSIZE - off % BSIZE)
      let data := (s.bread addr.toNat).write (off % BSIZE) (src.read srcp m)
      writeLoop src n fuel (tot + m) (off + m) (srcp + m) ip (s.logWrite addr.toNat (Block.ofBytes data))
    else .ok (off, ip, s)

/-- `writei(ip, src, off, n)` with the source at `srcp` in `src`; `devsw` gives each major number's
write function. A negative `short` major reads here as a number at least `2^15`, so the test
`ip->major < 0 || ip->major >= NDEV` is `ip.major.toNat ≥ NDEV`. -/
def writei (devsw : ℕ → Option (ℕ → ℤ)) (ip : Inode) (src : Mem) (srcp off n : ℕ) (s : FsState) :
    Except String (ℤ × Inode × FsState) :=
  if ip.type = T_DEV then
    if ip.major.toNat ≥ NDEV then .ok (-1, ip, s)
    else match devsw ip.major.toNat with
      | some write => .ok (write n, ip, s)
      | none => .ok (-1, ip, s)
  else if off > ip.size.toNat ∨ (off + n) % 2 ^ 32 < off then .ok (-1, ip, s)
  else if off + n > MAXFILE * BSIZE then .ok (-1, ip, s)
  else do
    let (off, ip, s) ← writeLoop sb src n n 0 off srcp ip s
    if n > 0 ∧ off > ip.size.toNat then
      let ip := { ip with size := UInt32.ofNat off }
      pure (n, ip, iupdate sb ip s)
    else pure (n, ip, s)

theorem balloc_of_first_free {s : FsState} {x : ℕ} (hx : x < sb.size)
    (hfree : bitFree (s.bread (BBLOCK x sb)) (x % BPB) = true)
    (hused : ∀ y < x, bitFree (s.bread (BBLOCK y sb)) (y % BPB) = false) :
    balloc sb s = .ok (UInt32.ofNat x,
      bzero (s.logWrite (BBLOCK x sb) (Block.ofBytes (bitSet (s.bread (BBLOCK x sb)) (x % BPB)))) x) := by
  have hf : (List.range sb.size).find? (fun y => bitFree (s.bread (BBLOCK y sb)) (y % BPB)) = some x :=
    List.find?_range_eq_some.mpr ⟨hfree, List.mem_range.mpr hx, fun y hy => by rw [hused y hy]; rfl⟩
  unfold balloc
  rw [hf]

theorem bmap_direct_mapped {ip : Inode} {bn : ℕ} {s : FsState} (hd : bn < NDIRECT) (hm : ip.addrs bn ≠ 0) :
    bmap sb ip bn s = .ok (ip.addrs bn, ip, s) := by
  unfold bmap
  rw [if_pos hd, if_neg hm]
  rfl

theorem bmap_direct_hole {ip : Inode} {bn : ℕ} {s s' : FsState} {a : UInt32} (hd : bn < NDIRECT)
    (hm : ip.addrs bn = 0) (hb : balloc sb s = .ok (a, s')) :
    bmap sb ip bn s = .ok (a, { ip with addrs := Function.update ip.addrs bn a }, s') := by
  unfold bmap
  rw [if_pos hd, if_pos hm, hb]
  rfl

end Blocks

end Xv6Net.Fs.Blocks
