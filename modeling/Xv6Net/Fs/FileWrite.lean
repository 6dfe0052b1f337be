import Xv6Net.Fs.Blocks

/-! `filewrite` of `file.c`: a write to an inode file is cut into chunks of at most `max` bytes, each
`writei` inside its own `begin_op`/`end_op` transaction. The model returns, for each transaction,
the block numbers it passed to `log_write`. -/

namespace Xv6Net.Fs.FileWrite

open Xv6Net.Lib.Bytes Xv6Net.Fs.Layout Xv6Net.Fs.Log Xv6Net.Fs.Blocks

inductive FileType where
  | FD_NONE
  | FD_PIPE
  | FD_INODE
  deriving DecidableEq

structure File where
  type : FileType
  writable : Bool
  ip : Inode
  off : ℕ

-- `int max = ((LOGSIZE-1-1-2) / 2) * 512;`
def filewriteMax : ℕ := (LOGSIZE - 1 - 1 - 2) / 2 * 512

section Filewrite

variable (sb : Superblock) (devsw : ℕ → Option (ℕ → ℤ))

/-- One round per chunk: `begin_op` starts an empty transaction, `end_op` closes it. Every round
either stops or advances `i` by `n1 ≥ 1`, so `n` rounds of fuel reach `i = n`. -/
def filewriteLoop (src : Mem) (addr n : ℕ) :
    ℕ → ℕ → File → FsState → List (List ℕ) → Except String (ℕ × File × FsState × List (List ℕ))
  | 0, i, f, s, txns => .ok (i, f, s, txns)
  | fuel + 1, i, f, s, txns =>
    if i < n then
      let n1 := min (n - i) filewriteMax
      match writei sb devsw f.ip src (addr + i) f.off n1 { s with logged := [] } with
      | .error e => .error e
      | .ok (r, ip, s) =>
        let f := if r > 0 then { f with ip := ip, off := (f.off + r.toNat) % 2 ^ 32 } else { f with ip := ip }
        let txns := txns ++ [s.logged]
        if r < 0 then .ok (i, f, s, txns)
        else if r ≠ n1 then .error "short filewrite"
        else filewriteLoop src addr n fuel (i + r.toNat) f s txns
    else .ok (i, f, s, txns)

def filewrite (pipewrite : ℤ → ℤ) (f : File) (src : Mem) (addr : ℕ) (n : ℤ) (s : FsState) :
    Except String (ℤ × File × FsState × List (List ℕ)) :=
  if f.writable = false then .ok (-1, f, s, [])
  else match f.type with
    | .FD_PIPE => .ok (pipewrite n, f, s, [])
    | .FD_INODE => do
      let (i, f, s, txns) ← filewriteLoop sb devsw src addr n.toNat n.toNat 0 f s []
      pure (if (i : ℤ) = n then n else -1, f, s, txns)
    | .FD_NONE => .error "filewrite"

end Filewrite

/-! ### One chunk of a write to a new file -/

def zeroBlock : Block := fun _ => 0

def usedBitmap : Block := fun i => if i.val < 8 then 0xFF else 0

def sampleFs : FsState :=
  ⟨⟨fun b => if b = mkfsSuperblock.bmapstart then usedBitmap else zeroBlock, fun _ => none, []⟩, []⟩

def emptyFile : File := ⟨.FD_INODE, true, ⟨2, T_FILE, 0, 0, 1, 0, fun _ => 0⟩, 0⟩

theorem filewrite_chunk_over_budget :
    ((filewrite mkfsSuperblock (fun _ => none) id emptyFile (fun _ => 0) 0 6656 sampleFs).toOption.map
      fun r => r.2.2.2.map fun t => t.dedup.length) = some [16] ∧ MAXOPBLOCKS < 16 := by
  decide +kernel

end Xv6Net.Fs.FileWrite
