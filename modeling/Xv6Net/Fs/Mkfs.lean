import Xv6Net.Fs.Blocks

/-! `mkfs.c`: the image of a fresh file system with a root directory holding the given files. The
image is a function from sectors to blocks; `rsect` and `wsect` read and write whole sectors, and
`struct dinode` and `struct dirent` are stored in the byte order the kernel reads. -/

namespace Xv6Net.Fs.Mkfs

open Xv6Net.Lib.Bytes Xv6Net.Fs.Layout Xv6Net.Fs.Log Xv6Net.Fs.Blocks

-- `struct dinode`: four shorts, the size and `NDIRECT + 1` block addresses, 64 bytes in all.
structure dinode where
  type : UInt16
  major : UInt16
  minor : UInt16
  nlink : UInt16
  size : UInt32
  addrs : Fin (NDIRECT + 1) → UInt32

def dinode.store (m : Mem) (o : ℕ) (d : dinode) : Mem :=
  let m := (((m.store16 o d.type).store16 (o + 2) d.major).store16 (o + 4) d.minor).store16 (o + 6) d.nlink
  (List.finRange (NDIRECT + 1)).foldl (fun m i => m.store32 (o + 12 + 4 * i.val) (d.addrs i))
    (m.store32 (o + 8) d.size)

def dinode.load (m : Mem) (o : ℕ) : dinode :=
  ⟨m.load16 o, m.load16 (o + 2), m.load16 (o + 4), m.load16 (o + 6), m.load32 (o + 8),
    fun i => m.load32 (o + 12 + 4 * i.val)⟩

-- `xshort(inum)` and the name as `strncpy(de.name, name, DIRSIZ)` leaves it in a zeroed entry.
def direntBytes (inum : ℕ) (name : List UInt8) : List UInt8 :=
  leBytes 2 inum ++ (name.take DIRSIZ ++ List.replicate (DIRSIZ - name.length) 0)

-- The image and `mkfs`'s globals `freeinode` and `freeblock`.
structure Img where
  sect : ℕ → Block
  freeinode : ℕ
  freeblock : ℕ

def zeroes : Block := fun _ => 0

def wsect (sec : ℕ) (buf : Block) (s : Img) : Img := { s with sect := Function.update s.sect sec buf }

def rsect (sec : ℕ) (s : Img) : Block := s.sect sec

def sb : Superblock := mkfsSuperblock

def winode (inum : ℕ) (d : dinode) (s : Img) : Img :=
  let bn := IBLOCK inum sb
  wsect bn (Block.ofBytes (d.store (Block.bytes (rsect bn s)) (inum % IPB * 64))) s

def rinode (inum : ℕ) (s : Img) : dinode := dinode.load (Block.bytes (rsect (IBLOCK inum sb) s)) (inum % IPB * 64)

def ialloc (type : UInt16) (s : Img) : ℕ × Img :=
  let inum := s.freeinode
  (inum, winode inum ⟨type, 0, 0, 1, 0, fun _ => 0⟩ { s with freeinode := inum + 1 })

/-- The block `iappend` writes for offset `off`: a direct address, or an entry of the indirect
block, taken from `freeblock` where the inode has none yet. -/
def iappendBlock (off : ℕ) (din : dinode) (s : Img) : Except String (ℕ × dinode × Img) :=
  let fbn := off / BSIZE
  if fbn < MAXFILE then
    if h : fbn < NDIRECT then
      let i : Fin (NDIRECT + 1) := ⟨fbn, by unfold NDIRECT at h ⊢; omega⟩
      let (din, s) := if din.addrs i = 0 then
          ({ din with addrs := Function.update din.addrs i (UInt32.ofNat s.freeblock) },
            { s with freeblock := s.freeblock + 1 })
        else (din, s)
      .ok ((din.addrs i).toNat, din, s)
    else
      let i : Fin (NDIRECT + 1) := ⟨NDIRECT, by decide⟩
      let (din, s) := if din.addrs i = 0 then
          ({ din with addrs := Function.update din.addrs i (UInt32.ofNat s.freeblock) },
            { s with freeblock := s.freeblock + 1 })
        else (din, s)
      let ind := (din.addrs i).toNat
      let indirect := Block.bytes (rsect ind s)
      let (indirect, s) := if indirect.load32 (4 * (fbn - NDIRECT)) = 0 then
          let indirect := indirect.store32 (4 * (fbn - NDIRECT)) (UInt32.ofNat s.freeblock)
          (indirect, wsect ind (Block.ofBytes indirect) { s with freeblock := s.freeblock + 1 })
        else (indirect, s)
      .ok ((indirect.load32 (4 * (fbn - NDIRECT))).toNat, din, s)
  else .error "mkfs: assertion fbn < MAXFILE failed"

/-- The loop of `iappend` over the bytes `p` still to append at `off`; each round copies at least
one byte, so `p.length` rounds of fuel reach the end. -/
def iappendLoop : ℕ → List UInt8 → ℕ → dinode → Img → Except String (ℕ × dinode × Img)
  | 0, _, off, din, s => .ok (off, din, s)
  | fuel + 1, p, off, din, s =>
    if 0 < p.length then do
      let (x, din, s) ← iappendBlock off din s
      let n1 := min p.length ((off / BSIZE + 1) * BSIZE - off)
      let buf := (Block.bytes (rsect x s)).write (off - off / BSIZE * BSIZE) (p.take n1)
      iappendLoop fuel (p.drop n1) (off + n1) din (wsect x (Block.ofBytes buf) s)
    else .ok (off, din, s)

def iappend (inum : ℕ) (p : List UInt8) (s : Img) : Except String Img := do
  let din := rinode inum s
  let (off, din, s) ← iappendLoop p.length p din.size.toNat din s
  pure (winode inum { din with size := UInt32.ofNat off } s)

-- `balloc(used)`: the first `used` bits of the bitmap block set.
def balloc (used : ℕ) (s : Img) : Except String Img :=
  if used < BSIZE * 8 then
    let buf := (List.range used).foldl (fun (m : Mem) i => bitSet m i) fun _ => 0
    .ok (wsect sb.bmapstart (Block.ofBytes buf) s)
  else .error "mkfs: assertion used < BSIZE*8 failed"

-- `memmove(buf, &sb, sizeof(sb))` into a zeroed sector: seven `uint`s.
def superblockBytes : Mem :=
  let m : Mem := fun _ => 0
  let m := (m.store32 0 (UInt32.ofNat sb.size)).store32 4 (UInt32.ofNat sb.nblocks)
  let m := (m.store32 8 (UInt32.ofNat sb.ninodes)).store32 12 (UInt32.ofNat sb.nlog)
  let m := (m.store32 16 (UInt32.ofNat sb.logstart)).store32 20 (UInt32.ofNat sb.inodestart)
  m.store32 24 (UInt32.ofNat sb.bmapstart)

-- `while((cc = read(fd, buf, sizeof(buf))) > 0) iappend(inum, buf, cc);` over the file's bytes.
def appendFile (inum : ℕ) : ℕ → List UInt8 → Img → Except String Img
  | 0, _, s => .ok s
  | fuel + 1, c, s =>
    if c = [] then .ok s
    else do
      let s ← iappend inum (c.take BSIZE) s
      appendFile inum fuel (c.drop BSIZE) s

-- One argument of `main`'s loop: a file's name as given and its contents.
def addFile (rootino : ℕ) (s : Img) (f : List UInt8 × List UInt8) : Except String Img :=
  if (47 : UInt8) ∈ f.1 then .error "mkfs: assertion index(argv[i], '/') == 0 failed"
  else
    -- skip a leading `_`
    let name := if f.1.head? = some 95 then f.1.tail else f.1
    let (inum, s) := ialloc T_FILE s
    do
      let s ← iappend rootino (direntBytes inum name) s
      appendFile inum f.2.length f.2 s

def mkfs (files : List (List UInt8 × List UInt8)) : Except String Img := do
  -- the fresh image, `freeinode = 1` and `freeblock = nmeta`, then `wsect(i, zeroes)` for every sector
  let s : Img := (List.range FSSIZE).foldl (fun s i => wsect i zeroes s) ⟨fun _ => zeroes, 1, nmeta⟩
  let s := wsect 1 (Block.ofBytes superblockBytes) s
  let (rootino, s) := ialloc T_DIR s
  if rootino ≠ ROOTINO then .error "mkfs: assertion rootino == ROOTINO failed" else
  let s ← iappend rootino (direntBytes rootino [46]) s
  let s ← iappend rootino (direntBytes rootino [46, 46]) s
  let s ← files.foldlM (addFile rootino) s
  -- fix size of root inode dir
  let din := rinode rootino s
  let off := (din.size.toNat / BSIZE + 1) * BSIZE
  let s := winode rootino { din with size := UInt32.ofNat off } s
  balloc s.freeblock s

/-! ### What each step writes -/

@[simp] theorem rsect_wsect_self (sec : ℕ) (buf : Block) (s : Img) : rsect sec (wsect sec buf s) = buf := by
  simp [rsect, wsect]

theorem rsect_wsect_of_ne {sec sec' : ℕ} (h : sec' ≠ sec) (buf : Block) (s : Img) :
    rsect sec' (wsect sec buf s) = rsect sec' s := by
  simp [rsect, wsect, Function.update_of_ne h]

@[simp] theorem wsect_freeinode (sec : ℕ) (buf : Block) (s : Img) : (wsect sec buf s).freeinode = s.freeinode := rfl

@[simp] theorem wsect_freeblock (sec : ℕ) (buf : Block) (s : Img) : (wsect sec buf s).freeblock = s.freeblock := rfl

theorem wsect_of_eq {sec : ℕ} {buf : Block} {s : Img} (h : rsect sec s = buf) : wsect sec buf s = s := by
  unfold wsect
  rw [← h, rsect, Function.update_eq_self]

-- `mkfs` zeroes every sector of an image that is zero already.
theorem zero_loop (n : ℕ) (s : Img) (hs : ∀ sec, rsect sec s = zeroes) :
    (List.range n).foldl (fun s i => wsect i zeroes s) s = s := by
  induction n with
  | zero => rfl
  | succ n ih =>
    rw [List.range_succ, List.foldl_append, ih, List.foldl_cons, List.foldl_nil]
    exact wsect_of_eq (hs n)

-- `*dip = *ip` copies the 64 bytes of a `struct dinode`, the fields in order.
def dinode.bytes (d : dinode) : List UInt8 :=
  leBytes 2 d.type.toNat ++ leBytes 2 d.major.toNat ++ leBytes 2 d.minor.toNat ++ leBytes 2 d.nlink.toNat ++
    leBytes 4 d.size.toNat ++ (List.finRange (NDIRECT + 1)).flatMap fun i => leBytes 4 (d.addrs i).toNat

theorem foldl_store32 (a : ℕ) : ∀ (n : ℕ) (g : Fin n → UInt32) (m : Mem),
    (List.finRange n).foldl (fun m i => m.store32 (a + 4 * i.val) (g i)) m =
      m.write a ((List.finRange n).flatMap fun i => leBytes 4 (g i).toNat)
  | 0, _, m => by rw [List.finRange_zero, List.foldl_nil, List.flatMap_nil, Mem.write_nil]
  | n + 1, g, m => by
    rw [List.finRange_succ_last, List.foldl_append, List.foldl_map, List.flatMap_append, List.flatMap_map]
    simp only [Fin.val_castSucc]
    rw [foldl_store32 a n (fun i => g i.castSucc) m, List.foldl_cons, List.foldl_nil, List.flatMap_cons,
      List.flatMap_nil, List.append_nil, Mem.store32, Mem.write_append]
    simp [List.length_flatMap, Nat.mul_comm]

theorem dinode.store_eq (m : Mem) (o : ℕ) (d : dinode) : d.store m o = m.write o d.bytes := by
  unfold dinode.store dinode.bytes
  rw [foldl_store32 (o + 12)]
  simp only [Mem.store16, Mem.store32]
  rw [Mem.write_append _ _ _ _ (by simp), Mem.write_append _ _ _ _ (by simp), Mem.write_append _ _ _ _ (by simp),
    Mem.write_append _ _ _ _ (by simp), Mem.write_append _ _ _ _ (by simp), List.append_assoc, List.append_assoc,
    List.append_assoc, List.append_assoc]

theorem take_drop_flatMap {α : Type} {k : ℕ} (f : α → List UInt8) :
    ∀ (l : List α), (∀ a ∈ l, (f a).length = k) → ∀ i (hi : i < l.length), ((l.flatMap f).drop (k * i)).take k = f l[i]
  | [], _, _, hi => absurd hi (Nat.not_lt_zero _)
  | a :: l, hf, 0, _ => by
    rw [List.flatMap_cons, Nat.mul_zero, List.drop_zero, List.take_left' (hf a List.mem_cons_self)]
    rfl
  | a :: l, hf, i + 1, hi => by
    have hk := hf a List.mem_cons_self
    rw [List.flatMap_cons, List.drop_append, List.drop_eq_nil_of_le (by rw [hk, Nat.mul_succ]; omega), List.nil_append,
      hk, show k * (i + 1) - k = k * i by rw [Nat.mul_succ]; omega, List.getElem_cons_succ]
    exact take_drop_flatMap f l (fun b hb => hf b (List.mem_cons_of_mem a hb)) i (by simpa using hi)

@[simp] theorem dinode.bytes_length (d : dinode) : d.bytes.length = 64 := by
  simp [dinode.bytes, List.length_flatMap, NDIRECT]

theorem dinode.load_write (m : Mem) (o : ℕ) (d : dinode) : dinode.load (m.write o d.bytes) o = d := by
  have h16 : ∀ k, k + 2 ≤ 64 → (m.write o d.bytes).load16 (o + k) = UInt16.ofNat (ofLeBytes ((d.bytes.drop k).take 2)) :=
    fun k hk => Mem.load16_write_inner m o d.bytes (by simpa using hk)
  have h32 : ∀ k, k + 4 ≤ 64 → (m.write o d.bytes).load32 (o + k) = UInt32.ofNat (ofLeBytes ((d.bytes.drop k).take 4)) :=
    fun k hk => Mem.load32_write_inner m o d.bytes (by simpa using hk)
  have haddr : ∀ i : Fin (NDIRECT + 1), (m.write o d.bytes).load32 (o + 12 + 4 * i.val) = d.addrs i := by
    intro i
    have hi := i.isLt
    have h := take_drop_flatMap (k := 4) (fun i => leBytes 4 (d.addrs i).toNat) (List.finRange (NDIRECT + 1))
      (by simp) i.val (by rw [List.length_finRange]; exact hi)
    simp only [List.getElem_finRange, Fin.cast_mk, Fin.eta] at h
    rw [Nat.add_assoc, h32 _ (by unfold NDIRECT at hi; omega), dinode.bytes, List.drop_append,
      List.drop_eq_nil_of_le (by simp), List.nil_append]
    simp only [List.length_append, leBytes_length]
    rw [show 12 + 4 * i.val - (2 + 2 + 2 + 2 + 4) = 4 * i.val by omega, h,
      ofLeBytes_leBytes_of_lt (by simpa using (d.addrs i).toNat_lt), UInt32.ofNat_toNat]
  have e16 : ∀ v : UInt16, UInt16.ofNat (ofLeBytes (leBytes 2 v.toNat)) = v := fun v => by
    rw [ofLeBytes_leBytes_of_lt (by simpa using v.toNat_lt), UInt16.ofNat_toNat]
  have htype := h16 0 (by norm_num)
  rw [Nat.add_zero] at htype
  unfold dinode.load
  congr 1
  · rw [htype, show (d.bytes.drop 0).take 2 = leBytes 2 d.type.toNat from rfl, e16]
  · rw [h16 2 (by norm_num), show (d.bytes.drop 2).take 2 = leBytes 2 d.major.toNat from rfl, e16]
  · rw [h16 4 (by norm_num), show (d.bytes.drop 4).take 2 = leBytes 2 d.minor.toNat from rfl, e16]
  · rw [h16 6 (by norm_num), show (d.bytes.drop 6).take 2 = leBytes 2 d.nlink.toNat from rfl, e16]
  · rw [h32 8 (by norm_num), show (d.bytes.drop 8).take 4 = leBytes 4 d.size.toNat from rfl,
      ofLeBytes_leBytes_of_lt (by simpa using d.size.toNat_lt), UInt32.ofNat_toNat]
  · funext i
    exact haddr i

theorem dinode.load_congr {m m' : Mem} {o : ℕ} (h : ∀ x, o ≤ x → x < o + 64 → m x = m' x) :
    dinode.load m o = dinode.load m' o := by
  have hr : ∀ a n, o ≤ a → a + n ≤ o + 64 → m.read a n = m'.read a n := fun a n ha hn =>
    Mem.read_congr fun i hi => h _ (by omega) (by omega)
  unfold dinode.load Mem.load16 Mem.load32
  congr 1
  · rw [hr o 2 le_rfl (by omega)]
  · rw [hr (o + 2) 2 (by omega) (by omega)]
  · rw [hr (o + 4) 2 (by omega) (by omega)]
  · rw [hr (o + 6) 2 (by omega) (by omega)]
  · rw [hr (o + 8) 4 (by omega) (by omega)]
  · funext i
    have hi := i.isLt
    unfold NDIRECT at hi
    rw [hr _ 4 (by omega) (by omega)]

theorem slot_le (inum : ℕ) : inum % IPB * 64 + 64 ≤ BSIZE := by
  have := Nat.mod_lt inum (show 0 < IPB by decide)
  unfold IPB BSIZE at *
  omega

@[simp] theorem rinode_winode_self (inum : ℕ) (d : dinode) (s : Img) : rinode inum (winode inum d s) = d := by
  unfold rinode winode
  rw [rsect_wsect_self, dinode.store_eq]
  refine (dinode.load_congr fun x _ hx => ?_).trans (dinode.load_write (Block.bytes (rsect (IBLOCK inum sb) s)) _ d)
  exact bytes_ofBytes _ (by have := slot_le inum; omega)

-- Another inode's slot: a different sector, or a disjoint 64 bytes of the same one.
theorem rinode_winode_of_ne {inum inum' : ℕ} (h : inum' ≠ inum) (d : dinode) (s : Img) :
    rinode inum' (winode inum d s) = rinode inum' s := by
  unfold rinode winode
  by_cases hb : IBLOCK inum' sb = IBLOCK inum sb
  · rw [hb, rsect_wsect_self, dinode.store_eq]
    apply dinode.load_congr
    intro x hx1 hx2
    have hslot : inum' % IPB ≠ inum % IPB := fun hm => h (by
      unfold IBLOCK at hb
      rw [← Nat.div_add_mod inum' IPB, ← Nat.div_add_mod inum IPB, hm, Nat.add_right_cancel hb])
    have h1 := slot_le inum
    have h2 := slot_le inum'
    rw [bytes_ofBytes _ (by omega)]
    rcases Nat.lt_or_gt_of_ne hslot with hl | hl
    · exact Mem.write_apply_of_lt _ _ (by omega)
    · exact Mem.write_apply_of_ge _ _ (by rw [dinode.bytes_length]; omega)
  · rw [rsect_wsect_of_ne hb]

theorem rsect_winode_of_ne {sec inum : ℕ} (h : sec ≠ IBLOCK inum sb) (d : dinode) (s : Img) :
    rsect sec (winode inum d s) = rsect sec s :=
  rsect_wsect_of_ne h _ s

theorem iappendBlock_mapped {off : ℕ} {din : dinode} {s : Img} (i : Fin (NDIRECT + 1)) (hi : off / BSIZE = i.val)
    (hf : i.val < NDIRECT) (hm : din.addrs i ≠ 0) : iappendBlock off din s = .ok ((din.addrs i).toNat, din, s) := by
  obtain ⟨i, hi'⟩ := i
  dsimp only at hi hf
  subst hi
  unfold iappendBlock
  rw [if_pos (by unfold MAXFILE; omega), dif_pos hf]
  dsimp only
  rw [if_neg hm]

theorem iappendBlock_fresh {off : ℕ} {din : dinode} {s : Img} (i : Fin (NDIRECT + 1)) (hi : off / BSIZE = i.val)
    (hf : i.val < NDIRECT) (hm : din.addrs i = 0) :
    iappendBlock off din s = .ok ((UInt32.ofNat s.freeblock).toNat,
      { din with addrs := Function.update din.addrs i (UInt32.ofNat s.freeblock) },
      { s with freeblock := s.freeblock + 1 }) := by
  obtain ⟨i, hi'⟩ := i
  dsimp only at hi hf
  subst hi
  unfold iappendBlock
  rw [if_pos (by unfold MAXFILE; omega), dif_pos hf]
  dsimp only
  rw [if_pos hm]
  dsimp only
  rw [Function.update_self]

theorem iappendLoop_nil (fuel off : ℕ) (din : dinode) (s : Img) : iappendLoop fuel [] off din s = .ok (off, din, s) := by
  cases fuel <;> rfl

-- An append that stays within the block of `off` takes one round of the loop.
theorem iappendLoop_within {fuel off x : ℕ} {p : List UInt8} {din din' : dinode} {s s' : Img}
    (hp : 0 < p.length) (hw : off % BSIZE + p.length ≤ BSIZE) (hb : iappendBlock off din s = .ok (x, din', s')) :
    iappendLoop (fuel + 1) p off din s =
      .ok (off + p.length, din', wsect x (Block.ofBytes ((Block.bytes (rsect x s')).write (off % BSIZE) p)) s') := by
  have hn : min p.length ((off / BSIZE + 1) * BSIZE - off) = p.length := by
    have := Nat.div_add_mod off BSIZE
    unfold BSIZE at *
    omega
  have hm : off - off / BSIZE * BSIZE = off % BSIZE := by
    have := Nat.div_add_mod off BSIZE
    unfold BSIZE at *
    omega
  rw [iappendLoop, if_pos hp, hb]
  dsimp only [bind, Except.bind]
  rw [hn, hm, List.take_length, List.drop_length, iappendLoop_nil]

theorem iappend_within {inum x : ℕ} {p : List UInt8} {s s' : Img} {din' : dinode} (hp : 0 < p.length)
    (hw : (rinode inum s).size.toNat % BSIZE + p.length ≤ BSIZE)
    (hb : iappendBlock (rinode inum s).size.toNat (rinode inum s) s = .ok (x, din', s')) :
    iappend inum p s = .ok (winode inum { din' with size := UInt32.ofNat ((rinode inum s).size.toNat + p.length) }
      (wsect x (Block.ofBytes ((Block.bytes (rsect x s')).write ((rinode inum s).size.toNat % BSIZE) p)) s')) := by
  obtain ⟨k, hk⟩ : ∃ k, p.length = k + 1 := ⟨p.length - 1, by omega⟩
  unfold iappend
  dsimp only
  rw [hk, iappendLoop_within hp hw hb, ← hk]
  rfl

theorem addFile_empty {rootino : ℕ} {s : Img} {name : List UInt8} (h : (47 : UInt8) ∉ name) :
    addFile rootino s (name, []) =
      iappend rootino (direntBytes s.freeinode (if name.head? = some 95 then name.tail else name)) (ialloc T_FILE s).2 := by
  unfold addFile ialloc
  rw [if_neg h]
  dsimp only
  show (_ >>= fun t => pure t) = _
  rw [bind_pure]

end Xv6Net.Fs.Mkfs
