import Xv6Net.Fs.MkfsRoot
import Xv6Net.Fs.Read

/-! The kernel reading the root directory that `mkfs` writes for empty files. For thirty of them, `.`,
`..` and the thirty entries fill block `nmeta`, and the size fix-up makes the root two blocks long with
no second block. A read of the second block goes through `bmap` to `balloc`, which marks block
`nmeta + 1` in the bitmap and passes it to `log_write`, while the root's `dinode` keeps `addrs[1] = 0`.
`mkfs` adds an entry per file without looking at the names already there. -/

namespace Xv6Net.Fs.RootHole

open Xv6Net.Lib.Bytes Xv6Net.Fs.Layout Xv6Net.Fs.Log Xv6Net.Fs.Blocks Xv6Net.Fs.Mkfs Xv6Net.Fs.MkfsRoot
  Xv6Net.Fs.Read

-- The image as the kernel finds it after boot: nothing cached, nothing logged.
def bootFs (img : Img) : FsState := ⟨Disk.boot img.sect, []⟩

@[simp] theorem bootFs_bread (img : Img) (b : ℕ) : (bootFs img).bread b = Block.bytes (rsect b img) := rfl

theorem dinodeAt_bootFs (img : Img) (inum : ℕ) : dinodeAt sb inum (bootFs img) = rinode inum img := rfl

theorem read_bytes_ofBytes (m : Mem) {o n : ℕ} (h : o + n ≤ BSIZE) : (Block.bytes (Block.ofBytes m)).read o n = m.read o n :=
  Mem.read_congr fun _ _ => bytes_ofBytes m (by omega)

theorem read_zeroBlock (o n : ℕ) : (Block.bytes fun _ => 0).read o n = List.replicate n 0 := by
  simp [Mem.read, Block.bytes, List.map_const']

theorem direntBytes_drop_two (inum : ℕ) (name : List UInt8) :
    (direntBytes inum name).drop 2 = name.take DIRSIZ ++ List.replicate (DIRSIZ - name.length) 0 := by
  rw [direntBytes, List.drop_left' (leBytes_length 2 inum)]

theorem fileDirents_entry : ∀ (inum : ℕ) (names : List (List UInt8)) (j : ℕ) (hj : j < names.length),
    ((fileDirents inum names).drop (16 * j)).take 16 = direntBytes (inum + j) names[j]
  | _, [], _, hj => absurd hj (Nat.not_lt_zero _)
  | inum, name :: names, 0, _ => by
    rw [fileDirents, Nat.mul_zero, List.drop_zero, List.take_left' (direntBytes_length _ _)]
    rfl
  | inum, name :: names, j + 1, hj => by
    rw [fileDirents, show 16 * (j + 1) = (direntBytes inum name).length + 16 * j by rw [direntBytes_length]; ring,
      ← List.drop_drop, List.drop_left, fileDirents_entry (inum + 1) names j (by simpa using hj),
      show inum + 1 + j = inum + (j + 1) by ring]
    rfl

theorem rootBytes_file_entry (names : List (List UInt8)) {j : ℕ} (hj : j < names.length) :
    ((rootBytes names).drop (16 * (j + 2))).take 16 = direntBytes (ROOTINO + 1 + j) names[j] := by
  rw [rootBytes, List.append_assoc, show 16 * (j + 2) = (direntBytes ROOTINO [46]).length +
    ((direntBytes ROOTINO [46, 46]).length + 16 * j) by simp only [direntBytes_length]; ring,
    ← List.drop_drop, List.drop_left, ← List.drop_drop, List.drop_left, fileDirents_entry _ _ _ hj]

-- Every entry of the root's first block is `.`, `..` or a file's.
theorem rootBytes_entry (names : List (List UInt8)) {j : ℕ} (hj : j < names.length + 2) :
    ∃ inum, ∃ n ∈ [46] :: [46, 46] :: names, ((rootBytes names).drop (16 * j)).take 16 = direntBytes inum n := by
  rcases j with _ | _ | j
  · refine ⟨ROOTINO, [46], by simp, ?_⟩
    rw [rootBytes, List.append_assoc, Nat.mul_zero, List.drop_zero, List.take_left' (direntBytes_length _ _)]
  · refine ⟨ROOTINO, [46, 46], by simp, ?_⟩
    rw [rootBytes, List.append_assoc, show 16 * (0 + 1) = (direntBytes ROOTINO [46]).length by simp, List.drop_left,
      List.take_left' (direntBytes_length _ _)]
  · exact ⟨ROOTINO + 1 + j, names[j], by simp, rootBytes_file_entry names (by omega)⟩

theorem direntBytes_inum {inum : ℕ} (name : List UInt8) (h : inum < 256 ^ 2) :
    ofLeBytes ((direntBytes inum name).take 2) = inum := by
  rw [direntBytes, List.take_left' (leBytes_length 2 inum), ofLeBytes_leBytes_of_lt h]

theorem strncmp_self : ∀ (n : ℕ) (p : List UInt8), strncmp n p p = 0
  | 0, _ => rfl
  | n + 1, p => by
    rw [strncmp]
    split_ifs with h
    · exact strncmp_self n p.tail
    · simp

/-! ### The root after `mkfs` of thirty empty files -/

-- `ilock`'s copy of `rootDinode 1024`.
def rootIp : Inode :=
  ⟨ROOTINO, T_DIR, 0, 0, 1, UInt32.ofNat 1024, fun i => if h : i < NDIRECT + 1 then (rootDinode 1024).addrs ⟨i, h⟩ else 0⟩

-- The bitmap with bit `nmeta + 1` set as `balloc` leaves it, and the root with that block in `addrs[1]`.
def holeBitmap : Block := Block.ofBytes (bitSet (Block.bytes (bitmapBlock (nmeta + 1))) (nmeta + 1))

def holeIp : Inode := { rootIp with addrs := Function.update rootIp.addrs 1 (UInt32.ofNat (nmeta + 1)) }

def holeFs (img : Img) : FsState := bzero ((bootFs img).logWrite sb.bmapstart holeBitmap) (nmeta + 1)

theorem ilock_root {img : Img} (h : rinode ROOTINO img = rootDinode 1024) : ilock sb ROOTINO (bootFs img) = .ok rootIp := by
  unfold ilock
  rw [dinodeAt_bootFs, h, if_neg (by decide)]
  rfl

theorem bitmapBlock_used : ∀ y < nmeta + 1, bitFree (Block.bytes (bitmapBlock (nmeta + 1))) y = false := by
  decide +kernel

theorem bitmapBlock_free : bitFree (Block.bytes (bitmapBlock (nmeta + 1))) (nmeta + 1) = true := by
  decide +kernel

theorem holeBitmap_used : bitFree (Block.bytes holeBitmap) (nmeta + 1) = false := by
  decide +kernel

theorem bblock_of_lt {y : ℕ} (h : y < sb.size) : BBLOCK y sb = sb.bmapstart := by
  have hs : sb.size = 1000 := rfl
  simp only [BBLOCK, BPB, BSIZE]
  omega

theorem balloc_root {img : Img} (hbm : rsect sb.bmapstart img = bitmapBlock (nmeta + 1)) :
    balloc sb (bootFs img) = .ok (UInt32.ofNat (nmeta + 1), holeFs img) := by
  have hsz : nmeta + 1 < sb.size := by decide
  have hbit : ∀ y < sb.size, (bootFs img).bread (BBLOCK y sb) = Block.bytes (bitmapBlock (nmeta + 1)) := by
    intro y hy
    rw [bblock_of_lt hy, bootFs_bread, hbm]
  have hmod : ∀ y < sb.size, y % BPB = y := fun y hy => Nat.mod_eq_of_lt (by have : sb.size = 1000 := rfl; unfold BPB BSIZE; omega)
  rw [balloc_of_first_free sb hsz (by rw [hbit _ hsz, hmod _ hsz]; exact bitmapBlock_free)
    (fun y hy => by rw [hbit _ (by omega), hmod _ (by omega)]; exact bitmapBlock_used y hy), hbit _ hsz, hmod _ hsz,
    bblock_of_lt hsz]
  rfl

theorem holeFs_logged (img : Img) : (holeFs img).logged = [sb.bmapstart, nmeta + 1] := rfl

theorem holeFs_bread_hole (img : Img) : (holeFs img).bread (nmeta + 1) = Block.bytes fun _ => 0 :=
  FsState.bread_logWrite_self _ _ _

theorem holeFs_bread_bitmap (img : Img) : (holeFs img).bread sb.bmapstart = Block.bytes holeBitmap := by
  rw [holeFs, bzero, FsState.bread_logWrite_of_ne (by decide), FsState.bread_logWrite_self]

theorem holeFs_bread_of_lt {img : Img} {b : ℕ} (h : b < sb.bmapstart) : (holeFs img).bread b = (bootFs img).bread b := by
  have hm : sb.bmapstart < nmeta + 1 := by decide
  rw [holeFs, bzero, FsState.bread_logWrite_of_ne (by omega), FsState.bread_logWrite_of_ne (by omega)]

theorem rootIp_addrs_zero : rootIp.addrs 0 = UInt32.ofNat nmeta := by decide

theorem rootIp_addrs_one : rootIp.addrs 1 = 0 := by decide

theorem rootIp_size : rootIp.size.toNat = 1024 := rfl

/-- Reading the entry at `BSIZE`: `bmap` allocates block `nmeta + 1` and `readi` returns its zeroes. -/
theorem readi_root_hole {img : Img} (hbm : rsect sb.bmapstart img = bitmapBlock (nmeta + 1))
    (devsw : ℕ → Option (ℕ → ℤ)) :
    readi sb devsw rootIp BSIZE 16 (bootFs img) = .ok (16, List.replicate 16 0, holeIp, holeFs img) := by
  have hb := @bmap_direct_hole sb rootIp (BSIZE / BSIZE) _ _ _ (by decide) rootIp_addrs_one (balloc_root hbm)
  rw [readi_within sb devsw (by decide) (by decide) (by decide) (by decide) hb, show BSIZE % BSIZE = 0 from rfl,
    show (UInt32.ofNat (nmeta + 1)).toNat = nmeta + 1 from rfl, holeFs_bread_hole, read_zeroBlock]
  rfl

theorem readi_root_first {names : List (List UInt8)} {img : Img} (hbk : rsect nmeta img = Block.ofBytes (Mem.ofList (rootBytes names)))
    (hl : names.length = 30) (devsw : ℕ → Option (ℕ → ℤ)) {j : ℕ} (hj : j < 32) :
    readi sb devsw rootIp (16 * j) 16 (bootFs img) =
      .ok (16, ((rootBytes names).drop (16 * j)).take 16, rootIp, bootFs img) := by
  have hd : 16 * j / BSIZE = 0 := by unfold BSIZE; omega
  have hb := @bmap_direct_mapped sb rootIp (16 * j / BSIZE) (bootFs img) (by rw [hd]; decide)
    (by rw [hd, rootIp_addrs_zero]; decide)
  have hlen := rootBytes_length names
  rw [readi_within sb devsw (by decide) (by rw [rootIp_size]; omega) (by unfold BSIZE; omega) (by decide) hb, hd,
    rootIp_addrs_zero, show (UInt32.ofNat nmeta).toNat = nmeta from rfl, bootFs_bread, hbk,
    read_bytes_ofBytes _ (by unfold BSIZE; omega), Nat.mod_eq_of_lt (by unfold BSIZE; omega),
    Mem.read_ofList _ (by omega)]
  rfl

theorem holeIp_addrs_one : holeIp.addrs 1 = UInt32.ofNat (nmeta + 1) := by
  simp [holeIp]

/-- The lookup wrote the bitmap and the new block only: the root `dinode` still has the hole. -/
theorem ilock_root_holeFs {img : Img} (h : rinode ROOTINO img = rootDinode 1024) :
    ilock sb ROOTINO (holeFs img) = .ok rootIp := by
  have hd : dinodeAt sb ROOTINO (holeFs img) = dinodeAt sb ROOTINO (bootFs img) := by
    unfold dinodeAt
    rw [holeFs_bread_of_lt (by decide)]
  have hb := ilock_root h
  unfold ilock at hb ⊢
  rwa [hd]

theorem readi_root_second (img : Img) (devsw : ℕ → Option (ℕ → ℤ)) {j : ℕ} (hj : j < 31) :
    readi sb devsw holeIp (BSIZE + 16 + 16 * j) 16 (holeFs img) = .ok (16, List.replicate 16 0, holeIp, holeFs img) := by
  have hd : (BSIZE + 16 + 16 * j) / BSIZE = 1 := by unfold BSIZE; omega
  have hb := @bmap_direct_mapped sb holeIp ((BSIZE + 16 + 16 * j) / BSIZE) (holeFs img)
    (by rw [hd]; decide) (by rw [hd, holeIp_addrs_one]; decide)
  rw [readi_within sb devsw (by decide) (by show _ ≤ 1024; unfold BSIZE; omega) (by unfold BSIZE; omega) (by decide) hb,
    hd, holeIp_addrs_one, show (UInt32.ofNat (nmeta + 1)).toNat = nmeta + 1 from rfl, holeFs_bread_hole, read_zeroBlock]
  rfl

theorem blockAddr_rootIp_one (s : FsState) : blockAddr rootIp 1 s = 0 := by
  rw [blockAddr, if_pos (by decide), rootIp_addrs_one]

/-- `dirlookup` of a name no entry has reads all sixty-four entries; the one at `BSIZE` allocates. -/
theorem dirlookup_root {names : List (List UInt8)} {img : Img} (hl : names.length = 30)
    (hbk : rsect nmeta img = Block.ofBytes (Mem.ofList (rootBytes names)))
    (hbm : rsect sb.bmapstart img = bitmapBlock (nmeta + 1)) (devsw : ℕ → Option (ℕ → ℤ)) {name : List UInt8}
    (hname : ∀ n ∈ [46] :: [46, 46] :: names, namecmp name (n.take DIRSIZ ++ List.replicate (DIRSIZ - n.length) 0) ≠ 0) :
    dirlookup sb devsw rootIp name (bootFs img) = .ok (none, holeIp, holeFs img) := by
  have hfirst : ∀ j < 32, 0 + 16 * j < rootIp.size.toNat ∧
      readi sb devsw rootIp (0 + 16 * j) 16 (bootFs img) =
        .ok (16, ((rootBytes names).drop (16 * j)).take 16, rootIp, bootFs img) ∧
      (ofLeBytes ((((rootBytes names).drop (16 * j)).take 16).take 2) = 0 ∨
        namecmp name ((((rootBytes names).drop (16 * j)).take 16).drop 2) ≠ 0) := by
    intro j hj
    rw [Nat.zero_add]
    obtain ⟨inum, n, hn, he⟩ := rootBytes_entry names (j := j) (by omega)
    refine ⟨by rw [rootIp_size]; omega, readi_root_first hbk hl devsw hj, .inr ?_⟩
    rw [he, direntBytes_drop_two]
    exact hname n hn
  have hsecond : ∀ j < 31, BSIZE + 16 + 16 * j < holeIp.size.toNat ∧
      readi sb devsw holeIp (BSIZE + 16 + 16 * j) 16 (holeFs img) = .ok (16, List.replicate 16 0, holeIp, holeFs img) ∧
      (ofLeBytes ((List.replicate 16 (0 : UInt8)).take 2) = 0 ∨ namecmp name ((List.replicate 16 0).drop 2) ≠ 0) := by
    intro j hj
    refine ⟨by show _ < 1024; unfold BSIZE; omega, readi_root_second img devsw hj, .inl rfl⟩
  rw [dirlookup, if_neg (by decide), rootIp_size]
  -- the thirty-two entries of block `nmeta`
  rw [show 1024 = 992 + 32 from rfl, dirlookupLoop_skip_many sb devsw _ 32 992 0 hfirst]
  -- the free entry at `BSIZE`, read through the hole
  rw [show 992 = 991 + 1 from rfl, show 0 + 16 * 32 = BSIZE from rfl,
    dirlookupLoop_skip sb devsw (by decide) (readi_root_hole hbm devsw) (.inl rfl)]
  -- the thirty-one free entries after it in the new block
  rw [show 991 = 960 + 31 from rfl, dirlookupLoop_skip_many sb devsw (fun _ => List.replicate 16 0) 31 960 _ hsecond]
  exact dirlookupLoop_end sb devsw (by decide)

/-! ### The bitmap before and after the lookup -/

theorem foldl_bitSet_apply {x : ℕ} : ∀ n (m : Mem), n ≤ 8 * x → (List.range n).foldl (fun m i => bitSet m i) m x = m x
  | 0, _, _ => rfl
  | n + 1, m, h => by
    rw [List.range_succ, List.foldl_append, List.foldl_cons, List.foldl_nil, bitSet,
      Mem.write_apply_of_ge _ _ (by rw [List.length_singleton]; omega), foldl_bitSet_apply n m (by omega)]

theorem bitmapBlock_free_above {b : ℕ} (h1 : nmeta + 1 ≤ b) (h2 : b < sb.size) :
    bitFree (Block.bytes (bitmapBlock (nmeta + 1))) b = true := by
  by_cases hb : b < 64
  · have : ∀ b < 64, nmeta + 1 ≤ b → bitFree (Block.bytes (bitmapBlock (nmeta + 1))) b = true := by decide +kernel
    exact this b hb h1
  · have hs : sb.size = 1000 := rfl
    have hz : Block.bytes (bitmapBlock (nmeta + 1)) (b / 8) = 0 := by
      have hm : nmeta = 59 := rfl
      rw [bitmapBlock, bytes_ofBytes _ (by unfold BSIZE; omega), foldl_bitSet_apply _ _ (by omega)]
    simp [bitFree, hz]

theorem refs_of_zero {s : FsState} {d : dinode} {b : ℕ} (h : d.addrs = fun _ => 0) : Refs s d b ↔ b = 0 := by
  simp [Refs, h, eq_comm]

theorem refs_rootDinode {s : FsState} {b : ℕ} : Refs s (rootDinode 1024) b ↔ b = nmeta ∨ b = 0 := by
  constructor
  · rintro (⟨i, hi⟩ | ⟨h12, -⟩)
    · by_cases h0 : i = 0
      · subst h0
        exact .inl (by rw [← hi]; rfl)
      · rw [← hi]
        dsimp only [rootDinode]
        rw [Function.update_of_ne h0]
        exact .inr rfl
    · exact absurd (by decide) h12
  · rintro (rfl | rfl)
    · exact .inl ⟨0, by decide⟩
    · exact .inl ⟨1, by decide⟩

/-- In an image from `mkfs` of empty files, the root references block `nmeta`, and no inode another block
above the metadata. -/
theorem refs_of_mkfs {img : Img} {s : FsState} (hroot : rinode ROOTINO img = rootDinode 1024)
    (hothers : ∀ inum < NINODES, inum ≠ ROOTINO → (rinode inum img).addrs = fun _ => 0)
    (hd : ∀ inum < NINODES, dinodeAt sb inum s = rinode inum img) {inum b : ℕ} (ha : Allocated sb s inum) :
    Refs s (dinodeAt sb inum s) b ↔ (inum = ROOTINO ∧ b = nmeta) ∨ b = 0 := by
  have hlt : inum < NINODES := ha.2.1
  rw [hd inum hlt]
  by_cases hr : inum = ROOTINO
  · rw [hr, hroot, refs_rootDinode]
    simp
  · rw [refs_of_zero (hothers inum hlt hr)]
    simp [hr]

theorem allocated_root {img : Img} {s : FsState} (hroot : rinode ROOTINO img = rootDinode 1024)
    (hd : ∀ inum < NINODES, dinodeAt sb inum s = rinode inum img) : Allocated sb s ROOTINO := by
  refine ⟨by decide, by decide, ?_⟩
  rw [hd ROOTINO (by decide), hroot]
  decide

theorem bitmapExact_boot {img : Img} (hroot : rinode ROOTINO img = rootDinode 1024)
    (hothers : ∀ inum < NINODES, inum ≠ ROOTINO → (rinode inum img).addrs = fun _ => 0)
    (hbm : rsect sb.bmapstart img = bitmapBlock (nmeta + 1)) : BitmapExact sb (bootFs img) := by
  have hd : ∀ inum < NINODES, dinodeAt sb inum (bootFs img) = rinode inum img := fun _ _ => rfl
  intro b hb
  have hs : sb.size = 1000 := rfl
  rw [bblock_of_lt hb, bootFs_bread, hbm, Nat.mod_eq_of_lt (show b < BPB by unfold BPB BSIZE; omega)]
  have hmeta : IsMeta sb b ↔ b < nmeta := by
    show b < 58 + (1000 / 4096 + 1) ↔ b < 59
    omega
  rcases Nat.lt_trichotomy b nmeta with hlt | rfl | hgt
  · exact ⟨fun _ => .inl (hmeta.mpr hlt), fun _ => bitmapBlock_used b (by omega)⟩
  · refine ⟨fun _ => .inr ⟨ROOTINO, ⟨allocated_root hroot hd, (refs_of_mkfs hroot hothers hd (allocated_root hroot hd)).mpr
      (.inl ⟨rfl, rfl⟩)⟩, fun inum ⟨ha, hr⟩ => ?_⟩, fun _ => bitmapBlock_used nmeta (by omega)⟩
    rcases (refs_of_mkfs hroot hothers hd ha).mp hr with ⟨h, -⟩ | h
    · exact h
    · exact absurd h (by decide)
  · rw [bitmapBlock_free_above hgt hb]
    refine ⟨fun h => absurd h (by decide), ?_⟩
    rintro (hm | ⟨inum, ⟨ha, hr⟩, -⟩)
    · exact absurd (hmeta.mp hm) (by omega)
    · rcases (refs_of_mkfs hroot hothers hd ha).mp hr with ⟨-, h⟩ | h <;> omega

theorem not_bitmapExact_hole {img : Img} (hroot : rinode ROOTINO img = rootDinode 1024)
    (hothers : ∀ inum < NINODES, inum ≠ ROOTINO → (rinode inum img).addrs = fun _ => 0) :
    ¬ BitmapExact sb (holeFs img) := by
  have hd : ∀ inum < NINODES, dinodeAt sb inum (holeFs img) = rinode inum img := by
    intro inum hi
    rw [dinodeAt, holeFs_bread_of_lt (iblock_lt hi)]
    rfl
  intro h
  have hset : bitFree ((holeFs img).bread (BBLOCK (nmeta + 1) sb)) ((nmeta + 1) % BPB) = false := by
    rw [bblock_of_lt (by decide), holeFs_bread_bitmap]
    exact holeBitmap_used
  obtain ⟨inum, ha, hr⟩ := h.referenced sb (by decide) hset (by unfold IsMeta; decide)
  rcases (refs_of_mkfs hroot hothers hd ha).mp hr with ⟨-, h⟩ | h <;> exact absurd h (by decide)

/-! ### Thirty empty files -/

def thirtyFiles : List (List UInt8 × List UInt8) :=
  (List.range 30).map fun i => ([97, UInt8.ofNat (48 + i / 10), UInt8.ofNat (48 + i % 10)], [])

theorem mkfs_root_hole_read_logs {files : List (List UInt8 × List UInt8)}
    (hf : ∀ f ∈ files, f.2 = [] ∧ (47 : UInt8) ∉ f.1) (hl : files.length = 30) (devsw : ℕ → Option (ℕ → ℤ)) :
    ∃ img ip, mkfs files = .ok img ∧ ilock sb ROOTINO (bootFs img) = .ok ip ∧ ip.type = T_DIR ∧
      ¬ NoHoles ip (bootFs img) ∧
      ∃ r, readi sb devsw ip BSIZE 16 (bootFs img) = .ok r ∧ r.2.2.2.logged = [sb.bmapstart, nmeta + 1] := by
  obtain ⟨img, hmk, hroot, -, -, hbm⟩ := mkfs_empty_files hf (by omega)
  rw [hl, show (16 * (30 + 2) / BSIZE + 1) * BSIZE = 1024 from rfl] at hroot
  refine ⟨img, rootIp, hmk, ilock_root hroot, rfl, fun h => h 1 (by decide) (blockAddr_rootIp_one _), _,
    readi_root_hole hbm devsw, holeFs_logged img⟩

theorem mkfs_root_hole_read_logs_thirty :
    (∀ f ∈ thirtyFiles, f.2 = [] ∧ (47 : UInt8) ∉ f.1) ∧ thirtyFiles.length = 30 ∧
      ∃ img ip, mkfs thirtyFiles = .ok img ∧ ilock sb ROOTINO (bootFs img) = .ok ip ∧ ip.type = T_DIR ∧
        ¬ NoHoles ip (bootFs img) ∧
        ∃ r, readi sb (fun _ => none) ip BSIZE 16 (bootFs img) = .ok r ∧ r.2.2.2.logged = [sb.bmapstart, nmeta + 1] :=
  have hf : ∀ f ∈ thirtyFiles, f.2 = [] ∧ (47 : UInt8) ∉ f.1 := by decide
  ⟨hf, rfl, mkfs_root_hole_read_logs hf rfl _⟩

theorem mkfs_root_lookup_leaks_block {files : List (List UInt8 × List UInt8)}
    (hf : ∀ f ∈ files, f.2 = [] ∧ (47 : UInt8) ∉ f.1) (hl : files.length = 30) (devsw : ℕ → Option (ℕ → ℤ))
    {name : List UInt8} (hname : ∀ n ∈ [46] :: [46, 46] :: files.map (mkfsName ∘ Prod.fst),
      namecmp name (n.take DIRSIZ ++ List.replicate (DIRSIZ - n.length) 0) ≠ 0) :
    ∃ img, mkfs files = .ok img ∧ BitmapExact sb (bootFs img) ∧ ilock sb ROOTINO (bootFs img) = .ok rootIp ∧
      ∃ dp s, dirlookup sb devsw rootIp name (bootFs img) = .ok (none, dp, s) ∧ ¬ BitmapExact sb s := by
  obtain ⟨img, hmk, hroot, hothers, hbk, hbm⟩ := mkfs_empty_files hf (by omega)
  rw [hl, show (16 * (30 + 2) / BSIZE + 1) * BSIZE = 1024 from rfl] at hroot
  exact ⟨img, hmk, bitmapExact_boot hroot hothers hbm, ilock_root hroot, _, _,
    dirlookup_root (by rw [List.length_map, hl]) hbk hbm devsw hname, not_bitmapExact_hole hroot hothers⟩

theorem mkfs_root_lookup_leaks_block_thirty :
    (∀ f ∈ thirtyFiles, f.2 = [] ∧ (47 : UInt8) ∉ f.1) ∧ thirtyFiles.length = 30 ∧
      (∀ n ∈ [46] :: [46, 46] :: thirtyFiles.map (mkfsName ∘ Prod.fst),
        namecmp [122, 122] (n.take DIRSIZ ++ List.replicate (DIRSIZ - n.length) 0) ≠ 0) ∧
      ∃ img, mkfs thirtyFiles = .ok img ∧ BitmapExact sb (bootFs img) ∧ ilock sb ROOTINO (bootFs img) = .ok rootIp ∧
        ∃ dp s, dirlookup sb (fun _ => none) rootIp [122, 122] (bootFs img) = .ok (none, dp, s) ∧
          ¬ BitmapExact sb s :=
  have hf : ∀ f ∈ thirtyFiles, f.2 = [] ∧ (47 : UInt8) ∉ f.1 := by decide
  have hname : ∀ n ∈ [46] :: [46, 46] :: thirtyFiles.map (mkfsName ∘ Prod.fst),
      namecmp [122, 122] (n.take DIRSIZ ++ List.replicate (DIRSIZ - n.length) 0) ≠ 0 := by decide
  ⟨hf, rfl, hname, mkfs_root_lookup_leaks_block hf rfl _ hname⟩

/-- The cached root inode is not written through: before the lookup it is what `ilock` loads from its
`dinode`; after it, `bmap` has set `addrs[1]` in memory and nothing wrote the `dinode`, so a fresh load
gives the old inode back. -/
theorem mkfs_root_lookup_not_write_through {files : List (List UInt8 × List UInt8)}
    (hf : ∀ f ∈ files, f.2 = [] ∧ (47 : UInt8) ∉ f.1) (hl : files.length = 30) (devsw : ℕ → Option (ℕ → ℤ))
    {name : List UInt8} (hname : ∀ n ∈ [46] :: [46, 46] :: files.map (mkfsName ∘ Prod.fst),
      namecmp name (n.take DIRSIZ ++ List.replicate (DIRSIZ - n.length) 0) ≠ 0) :
    ∃ img, mkfs files = .ok img ∧ ilock sb ROOTINO (bootFs img) = .ok rootIp ∧
      ∃ dp s, dirlookup sb devsw rootIp name (bootFs img) = .ok (none, dp, s) ∧
        ilock sb ROOTINO s = .ok rootIp ∧ dp ≠ rootIp := by
  obtain ⟨img, hmk, hroot, -, hbk, hbm⟩ := mkfs_empty_files hf (by omega)
  rw [hl, show (16 * (30 + 2) / BSIZE + 1) * BSIZE = 1024 from rfl] at hroot
  have hne : holeIp ≠ rootIp := fun h => by
    have h1 := congrArg (fun ip => ip.addrs 1) h
    rw [holeIp_addrs_one, rootIp_addrs_one] at h1
    exact absurd h1 (by decide)
  exact ⟨img, hmk, ilock_root hroot, _, _, dirlookup_root (by rw [List.length_map, hl]) hbk hbm devsw hname,
    ilock_root_holeFs hroot, hne⟩

theorem mkfs_root_lookup_not_write_through_thirty :
    (∀ f ∈ thirtyFiles, f.2 = [] ∧ (47 : UInt8) ∉ f.1) ∧ thirtyFiles.length = 30 ∧
      (∀ n ∈ [46] :: [46, 46] :: thirtyFiles.map (mkfsName ∘ Prod.fst),
        namecmp [122, 122] (n.take DIRSIZ ++ List.replicate (DIRSIZ - n.length) 0) ≠ 0) ∧
      ∃ img, mkfs thirtyFiles = .ok img ∧ ilock sb ROOTINO (bootFs img) = .ok rootIp ∧
        ∃ dp s, dirlookup sb (fun _ => none) rootIp [122, 122] (bootFs img) = .ok (none, dp, s) ∧
          ilock sb ROOTINO s = .ok rootIp ∧ dp ≠ rootIp :=
  have hf : ∀ f ∈ thirtyFiles, f.2 = [] ∧ (47 : UInt8) ∉ f.1 := by decide
  have hname : ∀ n ∈ [46] :: [46, 46] :: thirtyFiles.map (mkfsName ∘ Prod.fst),
      namecmp [122, 122] (n.take DIRSIZ ++ List.replicate (DIRSIZ - n.length) 0) ≠ 0 := by decide
  ⟨hf, rfl, hname, mkfs_root_lookup_not_write_through hf rfl _ hname⟩

/-! ### Names `mkfs` does not compare -/

/-- Two files whose stored names agree (`_cat` and `cat`, or the same name twice) give two live root
entries that `namecmp` finds equal. -/
theorem mkfs_duplicate_names {files : List (List UInt8 × List UInt8)}
    (hf : ∀ f ∈ files, f.2 = [] ∧ (47 : UInt8) ∉ f.1) (hl : files.length ≤ 30) {i j : ℕ} (hij : i < j)
    (hj : j < files.length) (heq : mkfsName files[i].1 = mkfsName files[j].1) :
    ∃ img, mkfs files = .ok img ∧ (rinode ROOTINO img).type = T_DIR ∧ (rinode ROOTINO img).addrs 0 = UInt32.ofNat nmeta ∧
      ofLeBytes (((Block.bytes (rsect nmeta img)).read (16 * (i + 2)) 16).take 2) ≠ 0 ∧
      ofLeBytes (((Block.bytes (rsect nmeta img)).read (16 * (j + 2)) 16).take 2) ≠ 0 ∧
      namecmp (((Block.bytes (rsect nmeta img)).read (16 * (i + 2)) 16).drop 2)
        (((Block.bytes (rsect nmeta img)).read (16 * (j + 2)) 16).drop 2) = 0 := by
  obtain ⟨img, hmk, hroot, -, hbk, -⟩ := mkfs_empty_files hf hl
  set names := files.map (mkfsName ∘ Prod.fst) with hn
  have hlen := rootBytes_length names
  have hnl : names.length = files.length := List.length_map _
  -- the entry of the `k`-th file as the block holds it
  have hentry : ∀ k (hk : k < files.length), (Block.bytes (rsect nmeta img)).read (16 * (k + 2)) 16 =
      direntBytes (ROOTINO + 1 + k) (mkfsName files[k].1) := by
    intro k hk
    rw [hbk, read_bytes_ofBytes _ (by unfold BSIZE; omega), Mem.read_ofList _ (by omega),
      rootBytes_file_entry names (by omega)]
    simp [hn]
  have hinum : ∀ k < files.length, ROOTINO + 1 + k < 256 ^ 2 := fun k hk => by unfold ROOTINO; omega
  refine ⟨img, hmk, by rw [hroot]; rfl, by rw [hroot, rootDinode_addrs_zero], ?_, ?_, ?_⟩
  · rw [hentry i (by omega), direntBytes_inum _ (hinum i (by omega))]
    unfold ROOTINO
    omega
  · rw [hentry j hj, direntBytes_inum _ (hinum j hj)]
    unfold ROOTINO
    omega
  · rw [hentry i (by omega), hentry j hj, direntBytes_drop_two, direntBytes_drop_two, heq, namecmp, strncmp_self]

-- `mkfs fs.img _cat cat`, both empty.
def catFiles : List (List UInt8 × List UInt8) := [([95, 99, 97, 116], []), ([99, 97, 116], [])]

theorem mkfs_duplicate_names_cat :
    (∀ f ∈ catFiles, f.2 = [] ∧ (47 : UInt8) ∉ f.1) ∧ catFiles.length ≤ 30 ∧ 0 < 1 ∧ 1 < catFiles.length ∧
      mkfsName catFiles[0].1 = mkfsName catFiles[1].1 ∧
      ∃ img, mkfs catFiles = .ok img ∧ (rinode ROOTINO img).type = T_DIR ∧ (rinode ROOTINO img).addrs 0 = UInt32.ofNat nmeta ∧
        ofLeBytes (((Block.bytes (rsect nmeta img)).read (16 * (0 + 2)) 16).take 2) ≠ 0 ∧
        ofLeBytes (((Block.bytes (rsect nmeta img)).read (16 * (1 + 2)) 16).take 2) ≠ 0 ∧
        namecmp (((Block.bytes (rsect nmeta img)).read (16 * (0 + 2)) 16).drop 2)
          (((Block.bytes (rsect nmeta img)).read (16 * (1 + 2)) 16).drop 2) = 0 :=
  have hf : ∀ f ∈ catFiles, f.2 = [] ∧ (47 : UInt8) ∉ f.1 := by decide
  have heq : mkfsName catFiles[0].1 = mkfsName catFiles[1].1 := by decide
  ⟨hf, by decide, by decide, by decide, heq, mkfs_duplicate_names hf (by decide) (by decide) (by decide) heq⟩

end Xv6Net.Fs.RootHole
