import Xv6Net.Fs.Mkfs

/-! What `mkfs` writes when every file it is given is empty: the root directory holds `.`, `..`
and one entry per file in its first data block `nmeta`, every other inode has no block, and the
fix-up rounds the root's size up to the next multiple of `BSIZE`, which is one block past the
entries when they fill their block. -/

namespace Xv6Net.Fs.MkfsRoot

open Xv6Net.Lib.Bytes Xv6Net.Fs.Layout Xv6Net.Fs.Log Xv6Net.Fs.Blocks Xv6Net.Fs.Mkfs

-- The name `main` stores for an argument, a leading `_` skipped.
def mkfsName (name : List UInt8) : List UInt8 := if name.head? = some 95 then name.tail else name

def fileDirents : ℕ → List (List UInt8) → List UInt8
  | _, [] => []
  | inum, name :: names => direntBytes inum name ++ fileDirents (inum + 1) names

def rootBytes (names : List (List UInt8)) : List UInt8 :=
  direntBytes ROOTINO [46] ++ direntBytes ROOTINO [46, 46] ++ fileDirents (ROOTINO + 1) names

def rootDinode (size : ℕ) : dinode :=
  ⟨T_DIR, 0, 0, 1, UInt32.ofNat size, Function.update (fun _ => 0) 0 (UInt32.ofNat nmeta)⟩

def bitmapBlock (used : ℕ) : Block := Block.ofBytes ((List.range used).foldl (fun m i => bitSet m i) fun _ => 0)

structure RootInv (names : List (List UInt8)) (s : Img) : Prop where
  root : rinode ROOTINO s = rootDinode (16 * (names.length + 2))
  others : ∀ inum < NINODES, inum ≠ ROOTINO → (rinode inum s).addrs = fun _ => 0
  freeinode : s.freeinode = names.length + 2
  freeblock : s.freeblock = nmeta + 1
  block : rsect nmeta s = Block.ofBytes (Mem.ofList (rootBytes names))

@[simp] theorem direntBytes_length (inum : ℕ) (name : List UInt8) : (direntBytes inum name).length = 16 := by
  simp only [direntBytes, List.length_append, leBytes_length, List.length_take, List.length_replicate, DIRSIZ]
  omega

theorem fileDirents_length : ∀ (inum : ℕ) (names : List (List UInt8)), (fileDirents inum names).length = 16 * names.length
  | _, [] => rfl
  | inum, name :: names => by
    rw [fileDirents, List.length_append, direntBytes_length, fileDirents_length, List.length_cons]
    ring

theorem fileDirents_append_singleton : ∀ (inum : ℕ) (names : List (List UInt8)) (name : List UInt8),
    fileDirents inum (names ++ [name]) = fileDirents inum names ++ direntBytes (inum + names.length) name
  | inum, [], name => by simp [fileDirents]
  | inum, n :: names, name => by
    rw [List.cons_append, fileDirents, fileDirents, fileDirents_append_singleton, List.length_cons, List.append_assoc,
      Nat.add_assoc, Nat.add_comm 1]

theorem rootBytes_length (names : List (List UInt8)) : (rootBytes names).length = 16 * (names.length + 2) := by
  rw [rootBytes, List.length_append, List.length_append, direntBytes_length, direntBytes_length, fileDirents_length]
  ring

-- A dinode block of an inode below `NINODES` lies before the bitmap and the data blocks.
theorem iblock_lt {inum : ℕ} (h : inum < NINODES) : IBLOCK inum sb < sb.bmapstart := by
  have hi : IBLOCK inum sb = inum / 8 + 32 := rfl
  have hb : sb.bmapstart = 58 := rfl
  unfold NINODES at h
  omega

theorem bmapstart_lt_nmeta : sb.bmapstart < nmeta := by decide

theorem rinode_wsect_of_ne {inum sec : ℕ} (h : IBLOCK inum sb ≠ sec) (buf : Block) (s : Img) :
    rinode inum (wsect sec buf s) = rinode inum s := by
  unfold rinode
  rw [rsect_wsect_of_ne h]

theorem rinode_zero {inum : ℕ} {s : Img} (h : rsect (IBLOCK inum sb) s = zeroes) :
    (rinode inum s).addrs = fun _ => 0 := by
  funext i
  simp [rinode, h, zeroes, dinode.load, Mem.load32, Mem.read, Block.bytes, ofLeBytes]

theorem ofBytes_write_ofList (l bs : List UInt8) :
    Block.ofBytes ((Block.bytes (Block.ofBytes (Mem.ofList l))).write l.length bs) =
      Block.ofBytes (Mem.ofList (l ++ bs)) := by
  rw [← Mem.ofList_write_length]
  funext i
  simp only [Block.ofBytes, Mem.write]
  split_ifs
  · rfl
  · exact bytes_ofBytes _ i.isLt

theorem rootDinode_addrs_zero (a : ℕ) : (rootDinode a).addrs 0 = UInt32.ofNat nmeta := by
  simp [rootDinode]

theorem rootDinode_size (a b : ℕ) : { rootDinode a with size := UInt32.ofNat b } = rootDinode b := rfl

theorem rootDinode_size_toNat {a : ℕ} (h : a < 2 ^ 32) : (rootDinode a).size.toNat = a := by
  rw [rootDinode, UInt32.toNat_ofNat', Nat.mod_eq_of_lt h]

-- The first entry: block `nmeta`, the first free one, is allocated for the root.
theorem iappend_root_first {s : Img} {p : List UInt8} (hr : rinode ROOTINO s = ⟨T_DIR, 0, 0, 1, 0, fun _ => 0⟩)
    (hb : rsect nmeta s = zeroes) (hf : s.freeblock = nmeta) (hp : p.length = 16) :
    iappend ROOTINO p s =
      .ok (winode ROOTINO (rootDinode 16) (wsect nmeta (Block.ofBytes (Mem.ofList p)) { s with freeblock := nmeta + 1 })) := by
  have hsize : (rinode ROOTINO s).size.toNat = 0 := by rw [hr]; rfl
  have hblk := @iappendBlock_fresh (rinode ROOTINO s).size.toNat (rinode ROOTINO s) s 0
    (by rw [hsize]; rfl) (by decide) (by rw [hr])
  rw [iappend_within (by omega) (by rw [hsize, hp]; decide) hblk, hsize, hf]
  have hz : Block.bytes (rsect nmeta { s with freeblock := nmeta + 1 }) = Block.bytes (Block.ofBytes (Mem.ofList [])) := by
    show Block.bytes (rsect nmeta s) = _
    rw [hb]
    rfl
  have h0 : Block.ofBytes ((Block.bytes (Block.ofBytes (Mem.ofList []))).write 0 p) = Block.ofBytes (Mem.ofList p) :=
    ofBytes_write_ofList [] p
  rw [show (UInt32.ofNat nmeta).toNat = nmeta from rfl, Nat.zero_mod, hz, h0, hr, hp]
  congr 2

-- A later entry lands in block `nmeta` after those already there.
theorem iappend_root {k : ℕ} {l p : List UInt8} {s : Img} (hr : rinode ROOTINO s = rootDinode (16 * k))
    (hb : rsect nmeta s = Block.ofBytes (Mem.ofList l)) (hl : l.length = 16 * k) (hk : 0 < k) (hk' : k < 32)
    (hp : p.length = 16) :
    iappend ROOTINO p s =
      .ok (winode ROOTINO (rootDinode (16 * (k + 1))) (wsect nmeta (Block.ofBytes (Mem.ofList (l ++ p))) s)) := by
  have hsize : (rinode ROOTINO s).size.toNat = 16 * k := by rw [hr, rootDinode_size_toNat (by omega)]
  have hfbn : 16 * k / BSIZE = 0 := by unfold BSIZE; omega
  have hmod : 16 * k % BSIZE = 16 * k := by unfold BSIZE; omega
  have hblk : iappendBlock (rinode ROOTINO s).size.toNat (rinode ROOTINO s) s =
      .ok (nmeta, rinode ROOTINO s, s) := by
    have hm : (rinode ROOTINO s).addrs 0 ≠ 0 := by rw [hr, rootDinode_addrs_zero]; decide
    rw [iappendBlock_mapped 0 (by rw [hsize, hfbn]; rfl) (by decide) hm, hr, rootDinode_addrs_zero]
    rfl
  rw [iappend_within (by omega) (by rw [hsize, hmod, hp]; unfold BSIZE; omega) hblk, hsize, hmod, hb, ← hl,
    ofBytes_write_ofList, hr, hl, rootDinode_size, hp]
  rfl

theorem addFile_step {names : List (List UInt8)} {s : Img} {name : List UInt8} (h : RootInv names s)
    (hs : (47 : UInt8) ∉ name) (hl : names.length + 3 ≤ 32) :
    ∃ s', addFile ROOTINO s (name, []) = .ok s' ∧ RootInv (names ++ [mkfsName name]) s' := by
  have hfi : s.freeinode ≠ ROOTINO := by rw [h.freeinode]; unfold ROOTINO; omega
  have hlt : s.freeinode < NINODES := by rw [h.freeinode]; unfold NINODES; omega
  have hrt : rinode ROOTINO (ialloc T_FILE s).2 = rinode ROOTINO s := rinode_winode_of_ne hfi.symm _ _
  have hbt : rsect nmeta (ialloc T_FILE s).2 = rsect nmeta s :=
    rsect_winode_of_ne (by have := iblock_lt hlt; have := bmapstart_lt_nmeta; omega) _ _
  rw [h.root] at hrt
  rw [h.block] at hbt
  refine ⟨_, (addFile_empty hs).trans (iappend_root hrt hbt (rootBytes_length names) (by omega) (by omega)
    (direntBytes_length _ _)), ?_⟩
  have hroot1 : IBLOCK ROOTINO sb ≠ nmeta := by decide
  constructor
  · rw [rinode_winode_self, List.length_append, List.length_singleton]
  · intro inum hi hne
    rw [rinode_winode_of_ne hne, rinode_wsect_of_ne (by have := iblock_lt hi; have := bmapstart_lt_nmeta; omega)]
    by_cases hq : inum = s.freeinode
    · rw [hq, ialloc, rinode_winode_self]
    · rw [ialloc]
      dsimp only
      rw [rinode_winode_of_ne hq]
      exact h.others inum hi hne
  · show s.freeinode + 1 = _
    rw [h.freeinode, List.length_append, List.length_singleton]
  · exact h.freeblock
  · rw [rsect_winode_of_ne hroot1.symm, rsect_wsect_self, rootBytes, rootBytes, fileDirents_append_singleton,
      h.freeinode, List.append_assoc, show ROOTINO + 1 + names.length = names.length + 2 by unfold ROOTINO; omega]
    rfl

theorem foldlM_addFile : ∀ (files : List (List UInt8 × List UInt8)) (names : List (List UInt8)) (s : Img),
    RootInv names s → (∀ f ∈ files, f.2 = [] ∧ (47 : UInt8) ∉ f.1) → names.length + files.length ≤ 30 →
      ∃ s', files.foldlM (addFile ROOTINO) s = .ok s' ∧ RootInv (names ++ files.map (mkfsName ∘ Prod.fst)) s'
  | [], names, s, h, _, _ => ⟨s, rfl, by simpa using h⟩
  | (name, c) :: files, names, s, h, hf, hl => by
    obtain ⟨hc, hs⟩ := hf _ List.mem_cons_self
    cases hc
    rw [List.length_cons] at hl
    obtain ⟨s1, h1, hi1⟩ := addFile_step h hs (by omega)
    obtain ⟨s', h', hi'⟩ := foldlM_addFile files _ s1 hi1 (fun f hf' => hf f (List.mem_cons_of_mem _ hf'))
      (by rw [List.length_append, List.length_singleton]; omega)
    refine ⟨s', ?_, ?_⟩
    · rw [List.foldlM_cons, h1]
      exact h'
    · rw [List.map_cons, ← List.singleton_append, ← List.append_assoc]
      exact hi'

theorem mkfs_empty_files {files : List (List UInt8 × List UInt8)} (hf : ∀ f ∈ files, f.2 = [] ∧ (47 : UInt8) ∉ f.1)
    (hl : files.length ≤ 30) :
    ∃ img, mkfs files = .ok img ∧
      rinode ROOTINO img = rootDinode ((16 * (files.length + 2) / BSIZE + 1) * BSIZE) ∧
      (∀ inum < NINODES, inum ≠ ROOTINO → (rinode inum img).addrs = fun _ => 0) ∧
      rsect nmeta img = Block.ofBytes (Mem.ofList (rootBytes (files.map (mkfsName ∘ Prod.fst)))) ∧
      rsect sb.bmapstart img = bitmapBlock (nmeta + 1) := by
  -- the image after the superblock and `ialloc(T_DIR)`
  set s0 : Img := wsect 1 (Block.ofBytes superblockBytes) ⟨fun _ => zeroes, 1, nmeta⟩ with hs0
  set s1 : Img := winode 1 ⟨T_DIR, 0, 0, 1, 0, fun _ => 0⟩ ⟨s0.sect, 1 + 1, nmeta⟩ with hs1
  have hr1 : rinode ROOTINO s1 = ⟨T_DIR, 0, 0, 1, 0, fun _ => 0⟩ := rinode_winode_self _ _ _
  have hb1 : rsect nmeta s1 = zeroes := by
    rw [hs1, rsect_winode_of_ne (by decide)]
    show rsect nmeta s0 = zeroes
    rw [hs0, rsect_wsect_of_ne (by decide)]
    rfl
  have e1 : iappend 1 (direntBytes 1 [46]) s1 = _ := iappend_root_first hr1 hb1 rfl (direntBytes_length _ _)
  set s2 := winode ROOTINO (rootDinode 16) (wsect nmeta (Block.ofBytes (Mem.ofList (direntBytes 1 [46])))
    { s1 with freeblock := nmeta + 1 }) with hs2
  have hb2 : rsect nmeta s2 = Block.ofBytes (Mem.ofList (direntBytes 1 [46])) := by
    rw [hs2, rsect_winode_of_ne (by decide), rsect_wsect_self]
  have e2 : iappend 1 (direntBytes 1 [46, 46]) s2 = _ :=
    iappend_root (k := 1) (rinode_winode_self _ _ _) hb2 (direntBytes_length _ _) (by norm_num) (by norm_num)
      (direntBytes_length _ _)
  set s3 := winode ROOTINO (rootDinode (16 * (1 + 1)))
    (wsect nmeta (Block.ofBytes (Mem.ofList (direntBytes 1 [46] ++ direntBytes 1 [46, 46]))) s2) with hs3
  have hinv : RootInv [] s3 := by
    constructor
    · exact rinode_winode_self _ _ _
    · intro inum hi hne
      have hlt := iblock_lt hi
      have hbm := bmapstart_lt_nmeta
      rw [hs3, rinode_winode_of_ne hne, rinode_wsect_of_ne (by omega), hs2, rinode_winode_of_ne hne,
        rinode_wsect_of_ne (by omega)]
      show (rinode inum s1).addrs = _
      rw [hs1, @rinode_winode_of_ne 1 _ hne]
      show (rinode inum s0).addrs = _
      rw [hs0, rinode_wsect_of_ne (by have : 32 ≤ IBLOCK inum sb := Nat.le_add_left _ _; omega)]
      exact rinode_zero rfl
    · rfl
    · rfl
    · rw [hs3, rsect_winode_of_ne (by decide), rsect_wsect_self, rootBytes, fileDirents, List.append_nil]
      rfl
  obtain ⟨sF, hF, hinvF⟩ := foldlM_addFile files [] s3 hinv hf (by simpa using hl)
  rw [List.nil_append] at hinvF
  have hrF : rinode 1 sF = rootDinode (16 * (files.length + 2)) := by
    rw [← List.length_map (f := mkfsName ∘ Prod.fst)]
    exact hinvF.root
  have hsz : (rinode 1 sF).size.toNat = 16 * (files.length + 2) := by
    rw [hrF, rootDinode_size_toNat (by omega)]
  set s4 := winode 1 { rinode 1 sF with size := UInt32.ofNat (((rinode 1 sF).size.toNat / BSIZE + 1) * BSIZE) } sF
    with hs4
  have hroot4 : rinode 1 s4 = rootDinode ((16 * (files.length + 2) / BSIZE + 1) * BSIZE) := by
    rw [hs4, rinode_winode_self, hsz, hrF]
    rfl
  have hfb4 : s4.freeblock = nmeta + 1 := hinvF.freeblock
  refine ⟨wsect sb.bmapstart (bitmapBlock (nmeta + 1)) s4, ?_, ?_, ?_, ?_, rsect_wsect_self _ _ _⟩
  · unfold mkfs
    rw [zero_loop _ _ fun _ => rfl]
    dsimp only [ialloc]
    rw [if_neg (by decide)]
    dsimp only [wsect_freeinode, wsect_freeblock, bind, Except.bind]
    erw [e1]
    dsimp only
    rw [e2]
    dsimp only
    rw [show List.foldlM (addFile 1) s3 files = .ok sF from hF]
    dsimp only
    rw [← hs4, hfb4, Mkfs.balloc, if_pos (by decide)]
    rfl
  · rw [rinode_wsect_of_ne (by decide)]
    exact hroot4
  · intro inum hi hne
    have hlt := iblock_lt hi
    rw [rinode_wsect_of_ne (by omega), hs4, @rinode_winode_of_ne 1 _ hne]
    exact hinvF.others inum hi hne
  · rw [rsect_wsect_of_ne (by decide), hs4, rsect_winode_of_ne (by decide), hinvF.block]

end Xv6Net.Fs.MkfsRoot
