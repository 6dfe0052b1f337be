import Mathlib

/-! The constants of `param.h` and `fs.h`, and the disk layout `mkfs.c` writes. -/

namespace Xv6Net.Fs.Layout

def NPROC : ℕ := 64
def NCPU : ℕ := 8
def NDEV : ℕ := 10
def MAXOPBLOCKS : ℕ := 10
def LOGSIZE : ℕ := MAXOPBLOCKS * 3
def NBUF : ℕ := MAXOPBLOCKS * 3
def FSSIZE : ℕ := 1000

def ROOTINO : ℕ := 1
def BSIZE : ℕ := 512

structure Superblock where
  size : ℕ
  nblocks : ℕ
  ninodes : ℕ
  nlog : ℕ
  logstart : ℕ
  inodestart : ℕ
  bmapstart : ℕ

def NDIRECT : ℕ := 12
def NINDIRECT : ℕ := BSIZE / 4
def MAXFILE : ℕ := NDIRECT + NINDIRECT
-- sizeof(struct dinode) = 4 shorts, a uint and NDIRECT + 1 uints
def IPB : ℕ := BSIZE / 64
def BPB : ℕ := BSIZE * 8
def DIRSIZ : ℕ := 14

def IBLOCK (i : ℕ) (sb : Superblock) : ℕ := i / IPB + sb.inodestart
def BBLOCK (b : ℕ) (sb : Superblock) : ℕ := b / BPB + sb.bmapstart

def NINODES : ℕ := 200
def nbitmap : ℕ := FSSIZE / (BSIZE * 8) + 1
def ninodeblocks : ℕ := NINODES / IPB + 1
def nlog : ℕ := LOGSIZE
def nmeta : ℕ := 2 + nlog + ninodeblocks + nbitmap
def nblocks : ℕ := FSSIZE - nmeta

def mkfsSuperblock : Superblock where
  size := FSSIZE
  nblocks := nblocks
  ninodes := NINODES
  nlog := nlog
  logstart := 2
  inodestart := 2 + nlog
  bmapstart := 2 + nlog + ninodeblocks

abbrev Block := Fin BSIZE → UInt8

end Xv6Net.Fs.Layout
