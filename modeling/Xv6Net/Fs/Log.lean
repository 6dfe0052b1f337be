import Xv6Net.Fs.Layout
import Xv6Net.Lib.Bytes
import Xv6Net.Lib.WriteTrace

/-! The redo log of `log.c`: the disk under the buffer cache, `write_log`, `write_head`, `read_head`,
`install_trans`, `commit` and `recover_from_log`. Each `bwrite` is one synchronous, atomic block
write and is recorded, so a crash can keep any prefix of them. -/

namespace Xv6Net.Fs.Log

open Xv6Net.Lib.Bytes Xv6Net.Lib.WriteTrace Xv6Net.Fs.Layout

lemma NPROC_pos : 0 < NPROC := by decide

def Block.bytes (b : Block) : Mem := fun a => if h : a < BSIZE then b ⟨a, h⟩ else 0

def Block.ofBytes (m : Mem) : Block := fun i => m i.val

structure LogHeader where
  n : ℕ
  block : ℕ → UInt32

structure LogState where
  start : ℕ
  size : ℕ
  lh : LogHeader

structure Disk where
  disk : ℕ → Block
  cache : ℕ → Option Block
  writes : List (ℕ × Block)

namespace Disk

def bread (d : Disk) (b : ℕ) : Block := (d.cache b).getD (d.disk b)

def bwrite (d : Disk) (b : ℕ) (data : Block) : Disk :=
  ⟨Function.update d.disk b data, Function.update d.cache b (some data), d.writes ++ [(b, data)]⟩

def boot (disk : ℕ → Block) : Disk := ⟨disk, fun _ => none, []⟩

def bwrites (d : Disk) (ws : List (ℕ × Block)) : Disk := ws.foldl (fun d w => d.bwrite w.1 w.2) d

/-- A file-system operation changes a block in its buffer: `bread`, the change, and `log_write`
marking the buffer dirty, so the block stays in the cache until the commit writes it. -/
def modify (d : Disk) (b : ℕ) (data : Block) : Disk :=
  { d with cache := Function.update d.cache b (some data) }

end Disk

def copyBlocks (src dst : ℕ → ℕ) (n : ℕ) (d : Disk) : Disk :=
  (List.range n).foldl (fun d tail => d.bwrite (dst tail) (d.bread (src tail))) d

def installTrans (lg : LogState) (d : Disk) : Disk :=
  copyBlocks (fun tail => lg.start + tail + 1) (fun tail => (lg.lh.block tail).toNat) lg.lh.n d

def writeLog (lg : LogState) (d : Disk) : Disk :=
  copyBlocks (fun tail => (lg.lh.block tail).toNat) (fun tail => lg.start + tail + 1) lg.lh.n d

-- `hb->n = log.lh.n; for (i = 0; i < log.lh.n; i++) hb->block[i] = log.lh.block[i];`
def storeHeader (lh : LogHeader) (m : Mem) : Mem :=
  (List.range lh.n).foldl (fun m i => m.store32 (4 + 4 * i) (lh.block i)) (m.store32 0 (UInt32.ofNat lh.n))

-- A negative on-disk count runs no iteration of any loop bounded by `log.lh.n`.
def loadHeader (b : Block) (old : ℕ → UInt32) : LogHeader :=
  let n := (signed ((Block.bytes b).load32 0)).toNat
  ⟨n, fun i => if i < n then (Block.bytes b).load32 (4 + 4 * i) else old i⟩

def readHead (lg : LogState) (d : Disk) : LogState := { lg with lh := loadHeader (d.bread lg.start) lg.lh.block }

def writeHead (lg : LogState) (d : Disk) : Disk :=
  d.bwrite lg.start (Block.ofBytes (storeHeader lg.lh (Block.bytes (d.bread lg.start))))

def recoverFromLog (lg : LogState) (d : Disk) : LogState × Disk :=
  let lg := readHead lg d
  let d := installTrans lg d
  let lg := { lg with lh.n := 0 }
  (lg, writeHead lg d)

def commit (lg : LogState) (d : Disk) : LogState × Disk :=
  if lg.lh.n > 0 then
    let d := writeLog lg d
    let d := writeHead lg d
    let d := installTrans lg d
    let lg := { lg with lh.n := 0 }
    (lg, writeHead lg d)
  else (lg, d)

def bootLog (start size : ℕ) : LogState := ⟨start, size, ⟨0, fun _ => 0⟩⟩

def initlog (sb : Superblock) (disk : ℕ → Block) : LogState × Disk :=
  recoverFromLog (bootLog sb.logstart sb.nlog) (Disk.boot disk)

def reboot (lg : LogState) (D : ℕ → Block) : LogState × Disk :=
  recoverFromLog (bootLog lg.start lg.size) (Disk.boot D)

namespace Disk

@[simp] lemma bwrite_disk (d : Disk) (b : ℕ) (x : Block) : (d.bwrite b x).disk = Function.update d.disk b x := rfl

@[simp] lemma bwrite_writes (d : Disk) (b : ℕ) (x : Block) : (d.bwrite b x).writes = d.writes ++ [(b, x)] := rfl

lemma bread_bwrite (d : Disk) (b : ℕ) (x : Block) : (d.bwrite b x).bread = Function.update d.bread b x := by
  funext c
  by_cases h : c = b
  · subst h
    simp [bread, bwrite]
  · simp [bread, bwrite, Function.update_of_ne h]

@[simp] lemma bread_boot (disk : ℕ → Block) : (boot disk).bread = disk := rfl

@[simp] lemma bwrites_nil (d : Disk) : d.bwrites [] = d := rfl

lemma bwrites_append (d : Disk) (ws ws' : List (ℕ × Block)) : d.bwrites (ws ++ ws') = (d.bwrites ws).bwrites ws' := by
  simp [bwrites, List.foldl_append]

lemma bwrites_singleton (d : Disk) (b : ℕ) (x : Block) : d.bwrites [(b, x)] = d.bwrite b x := rfl

lemma bwrites_disk (d : Disk) (ws : List (ℕ × Block)) : (d.bwrites ws).disk = apply d.disk ws := by
  induction ws generalizing d with
  | nil => rfl
  | cons w ws ih => exact ih (d.bwrite w.1 w.2)

lemma bwrites_writes (d : Disk) (ws : List (ℕ × Block)) : (d.bwrites ws).writes = d.writes ++ ws := by
  induction ws generalizing d with
  | nil => simp
  | cons w ws ih =>
    rw [show d.bwrites (w :: ws) = (d.bwrite w.1 w.2).bwrites ws from rfl, ih]
    simp

lemma bread_bwrites (d : Disk) (ws : List (ℕ × Block)) : (d.bwrites ws).bread = apply d.bread ws := by
  induction ws generalizing d with
  | nil => rfl
  | cons w ws ih =>
    change ((d.bwrite w.1 w.2).bwrites ws).bread = _
    rw [ih, bread_bwrite]
    rfl

end Disk

lemma copyBlocks_eq (src dst : ℕ → ℕ) (n : ℕ) (d : Disk) (h : ∀ t < n, ∀ t' < n, src t ≠ dst t') :
    copyBlocks src dst n d = d.bwrites ((List.range n).map fun t => (dst t, d.bread (src t))) := by
  induction n with
  | zero => rfl
  | succ n ih =>
    have ih' := ih (fun t ht t' ht' => h t (by omega) t' (by omega))
    rw [copyBlocks, List.range_succ, List.foldl_append, ← copyBlocks, ih', List.map_append,
      Disk.bwrites_append]
    have hsrc : (d.bwrites ((List.range n).map fun t => (dst t, d.bread (src t)))).bread (src n) = d.bread (src n) := by
      rw [Disk.bread_bwrites]
      apply apply_of_not_mem
      intro w hw
      obtain ⟨t, ht, rfl⟩ := List.mem_map.mp hw
      exact fun he => h n (by omega) t (by simpa using List.mem_range.mp ht |>.trans (Nat.lt_succ_self n)) he.symm
    simp [hsrc, Disk.bwrites_singleton]

/-! ### The header block -/

lemma bytes_ofBytes (m : Mem) {a : ℕ} (h : a < BSIZE) : Block.bytes (Block.ofBytes m) a = m a := by
  simp [Block.bytes, Block.ofBytes, h]

lemma load32_bytes_ofBytes (m : Mem) {a : ℕ} (h : a + 4 ≤ BSIZE) :
    (Block.bytes (Block.ofBytes m)).load32 a = m.load32 a := by
  rw [Mem.load32, Mem.load32, Mem.read_congr (fun i hi => bytes_ofBytes m (by omega))]

def storeWords (f : ℕ → UInt32) (k : ℕ) (m : Mem) : Mem :=
  (List.range k).foldl (fun m i => m.store32 (4 + 4 * i) (f i)) m

lemma storeHeader_eq (lh : LogHeader) (m : Mem) :
    storeHeader lh m = storeWords lh.block lh.n (m.store32 0 (UInt32.ofNat lh.n)) := rfl

lemma storeWords_succ (f : ℕ → UInt32) (k : ℕ) (m : Mem) :
    storeWords f (k + 1) m = (storeWords f k m).store32 (4 + 4 * k) (f k) := by
  simp [storeWords, List.range_succ, List.foldl_append]

lemma storeWords_load_zero (f : ℕ → UInt32) (k : ℕ) (m : Mem) : (storeWords f k m).load32 0 = m.load32 0 := by
  induction k with
  | zero => rfl
  | succ k ih => rw [storeWords_succ, Mem.load32_store32_of_disjoint _ _ (by omega), ih]

lemma storeWords_load (f : ℕ → UInt32) (k : ℕ) (m : Mem) {i : ℕ} (hi : i < k) :
    (storeWords f k m).load32 (4 + 4 * i) = f i := by
  induction k with
  | zero => omega
  | succ k ih =>
    rw [storeWords_succ]
    rcases Nat.lt_succ_iff_lt_or_eq.mp hi with hi | rfl
    · rw [Mem.load32_store32_of_disjoint _ _ (by omega), ih hi]
    · exact Mem.load32_store32_self _ _ _

def LogState.home (lg : LogState) (t : ℕ) : ℕ := (lg.lh.block t).toNat

def headerCount (b : Block) : ℕ := (signed ((Block.bytes b).load32 0)).toNat

@[simp] lemma loadHeader_n (b : Block) (old : ℕ → UInt32) : (loadHeader b old).n = headerCount b := rfl

lemma headerCount_storeHeader (lh : LogHeader) (m : Mem) (hn : lh.n ≤ LOGSIZE) :
    headerCount (Block.ofBytes (storeHeader lh m)) = lh.n := by
  rw [headerCount, load32_bytes_ofBytes _ (by decide), storeHeader_eq, storeWords_load_zero,
    Mem.load32_store32_self, signed_ofNat (by unfold LOGSIZE MAXOPBLOCKS at hn; omega)]
  simp

lemma headerWord_storeHeader (lh : LogHeader) (m : Mem) (hn : lh.n ≤ LOGSIZE) {i : ℕ} (hi : i < lh.n) :
    (Block.bytes (Block.ofBytes (storeHeader lh m))).load32 (4 + 4 * i) = lh.block i := by
  rw [load32_bytes_ofBytes _ (by unfold BSIZE; unfold LOGSIZE MAXOPBLOCKS at hn; omega), storeHeader_eq,
    storeWords_load _ _ _ hi]

def headerHome (b : Block) (t : ℕ) : ℕ := ((Block.bytes b).load32 (4 + 4 * t)).toNat

lemma home_readHead (lg : LogState) (d : Disk) {t : ℕ} (ht : t < headerCount (d.bread lg.start)) :
    (readHead lg d).home t = headerHome (d.bread lg.start) t := by
  simp only [readHead, LogState.home, loadHeader]
  exact congrArg UInt32.toNat (if_pos ht)

lemma installTrans_eq (lg : LogState) (d : Disk) (h : ∀ t < lg.lh.n, ∀ t' < lg.lh.n, lg.start + t + 1 ≠ lg.home t') :
    installTrans lg d = d.bwrites ((List.range lg.lh.n).map fun t => (lg.home t, d.bread (lg.start + t + 1))) :=
  copyBlocks_eq _ _ _ d h

/-! ### What `commit` writes -/

def headerWith (lh : LogHeader) (b : Block) : Block := Block.ofBytes (storeHeader lh (Block.bytes b))

def LogState.InRegion (lg : LogState) (b : ℕ) : Prop := lg.start ≤ b ∧ b < lg.start + lg.size

/-- What holds when `end_op` calls `commit`: the on-disk header was cleared by the previous
commit or recovery, `log_write` kept the logged blocks below the region's size, and the logged
blocks are file-system blocks outside the log region. -/
structure CommitReady (lg : LogState) (d : Disk) : Prop where
  clean : headerCount (d.disk lg.start) = 0
  fits : lg.lh.n + 1 ≤ lg.size
  bound : lg.lh.n ≤ LOGSIZE
  outside : ∀ t < lg.lh.n, ¬ lg.InRegion (lg.home t)

def logWrites (lg : LogState) (d : Disk) : List (ℕ × Block) :=
  (List.range lg.lh.n).map fun t => (lg.start + t + 1, d.bread (lg.home t))

def installWrites (lg : LogState) (d : Disk) : List (ℕ × Block) :=
  (List.range lg.lh.n).map fun t => (lg.home t, d.bread (lg.home t))

def commitWrites (lg : LogState) (d : Disk) : List (ℕ × Block) :=
  let h := headerWith lg.lh (d.bread lg.start)
  logWrites lg d ++ [(lg.start, h)] ++ installWrites lg d ++ [(lg.start, headerWith ⟨0, lg.lh.block⟩ h)]

section Commit

variable {lg : LogState} {d : Disk}

lemma CommitReady.start_inRegion (h : CommitReady lg d) : lg.InRegion lg.start :=
  ⟨le_refl _, by have := h.fits; omega⟩

lemma CommitReady.log_inRegion (h : CommitReady lg d) {t : ℕ} (ht : t < lg.lh.n) : lg.InRegion (lg.start + t + 1) :=
  ⟨by omega, by have := h.fits; omega⟩

lemma CommitReady.home_ne_log (h : CommitReady lg d) {t t' : ℕ} (ht : t < lg.lh.n) (ht' : t' < lg.lh.n) :
    lg.home t ≠ lg.start + t' + 1 :=
  fun he => h.outside t ht (he ▸ h.log_inRegion ht')

lemma CommitReady.home_ne_start (h : CommitReady lg d) {t : ℕ} (ht : t < lg.lh.n) : lg.home t ≠ lg.start :=
  fun he => h.outside t ht (he ▸ h.start_inRegion)

lemma headerCount_headerWith (lh : LogHeader) (b : Block) (hn : lh.n ≤ LOGSIZE) : headerCount (headerWith lh b) = lh.n :=
  headerCount_storeHeader _ _ hn

lemma headerHome_headerWith (lh : LogHeader) (b : Block) (hn : lh.n ≤ LOGSIZE) {t : ℕ} (ht : t < lh.n) :
    headerHome (headerWith lh b) t = (lh.block t).toNat := by
  rw [headerHome, headerWith, headerWord_storeHeader _ _ hn ht]

lemma writeHead_eq (lg : LogState) (d : Disk) : writeHead lg d = d.bwrite lg.start (headerWith lg.lh (d.bread lg.start)) :=
  rfl

lemma writeLog_eq (h : CommitReady lg d) : writeLog lg d = d.bwrites (logWrites lg d) :=
  copyBlocks_eq _ _ _ d fun _ ht _ ht' => h.home_ne_log ht ht'

lemma fst_of_mem_logWrites {w : ℕ × Block} (hw : w ∈ logWrites lg d) : ∃ t < lg.lh.n, w.1 = lg.start + t + 1 := by
  obtain ⟨t, ht, rfl⟩ := List.mem_map.mp hw
  exact ⟨t, List.mem_range.mp ht, rfl⟩

lemma fst_of_mem_installWrites {w : ℕ × Block} (hw : w ∈ installWrites lg d) : ∃ t < lg.lh.n, w.1 = lg.home t := by
  obtain ⟨t, ht, rfl⟩ := List.mem_map.mp hw
  exact ⟨t, List.mem_range.mp ht, rfl⟩

lemma apply_logWrites_log (D : ℕ → Block) {t : ℕ} (ht : t < lg.lh.n) :
    apply D (logWrites lg d) (lg.start + t + 1) = d.bread (lg.home t) :=
  apply_map_mem D (fun t => lg.start + t + 1) (fun t => d.bread (lg.home t)) _ t
    (List.mem_range.mpr ht) (fun y _ hy => by rw [show y = t by simpa using hy])

lemma apply_installWrites_home (D : ℕ → Block) {t : ℕ} (ht : t < lg.lh.n) :
    apply D (installWrites lg d) (lg.home t) = d.bread (lg.home t) :=
  apply_map_mem D lg.home (fun t => d.bread (lg.home t)) _ t (List.mem_range.mpr ht) (fun _ _ hy => by rw [hy])

lemma logWrites_fst_ne {b : ℕ} (hb : ∀ t < lg.lh.n, b ≠ lg.start + t + 1) : ∀ w ∈ logWrites lg d, w.1 ≠ b := by
  intro w hw he
  obtain ⟨t, ht, hwt⟩ := fst_of_mem_logWrites hw
  exact hb t ht (he ▸ hwt)

lemma installWrites_fst_ne {b : ℕ} (hb : ∀ t < lg.lh.n, b ≠ lg.home t) : ∀ w ∈ installWrites lg d, w.1 ≠ b := by
  intro w hw he
  obtain ⟨t, ht, hwt⟩ := fst_of_mem_installWrites hw
  exact hb t ht (he ▸ hwt)

lemma apply_logWrites_of_ne (D : ℕ → Block) {b : ℕ} (hb : ∀ t < lg.lh.n, b ≠ lg.start + t + 1) :
    apply D (logWrites lg d) b = D b :=
  apply_of_not_mem D (logWrites_fst_ne hb)

lemma bread_logWrites_start (lg : LogState) (d : Disk) : (d.bwrites (logWrites lg d)).bread lg.start = d.bread lg.start := by
  rw [Disk.bread_bwrites, apply_logWrites_of_ne _ fun t _ => by omega]

lemma bread_logWrites_log {t : ℕ} (ht : t < lg.lh.n) :
    (d.bwrites (logWrites lg d)).bread (lg.start + t + 1) = d.bread (lg.home t) := by
  rw [Disk.bread_bwrites, apply_logWrites_log _ ht]

lemma commit_eq (h : CommitReady lg d) (hn : 0 < lg.lh.n) : (commit lg d).2 = d.bwrites (commitWrites lg d) := by
  set d₁ := d.bwrites (logWrites lg d)
  set H := headerWith lg.lh (d.bread lg.start)
  set d₂ := d₁.bwrite lg.start H
  have hlog : ∀ t < lg.lh.n, d₂.bread (lg.start + t + 1) = d.bread (lg.home t) := by
    intro t ht
    rw [Disk.bread_bwrite, Function.update_of_ne (by omega), bread_logWrites_log ht]
  have hinst : installTrans lg d₂ = d₂.bwrites (installWrites lg d) := by
    rw [installTrans_eq lg d₂ fun t ht t' ht' => (h.home_ne_log ht' ht).symm, installWrites]
    congr 1
    apply List.map_congr_left
    intro t ht
    rw [hlog t (List.mem_range.mp ht)]
  have hstart : (d₂.bwrites (installWrites lg d)).bread lg.start = H := by
    rw [Disk.bread_bwrites, apply_of_not_mem]
    · simp [d₂, Disk.bread_bwrite]
    · exact installWrites_fst_ne fun t ht => (h.home_ne_start ht).symm
  have h₂ : writeHead lg d₁ = d₂ := by rw [writeHead_eq, bread_logWrites_start]
  have h₄ : writeHead ⟨lg.start, lg.size, ⟨0, lg.lh.block⟩⟩ (d₂.bwrites (installWrites lg d)) =
      (d₂.bwrites (installWrites lg d)).bwrite lg.start (headerWith ⟨0, lg.lh.block⟩ H) := by
    rw [writeHead_eq]
    exact congrArg _ (congrArg _ hstart)
  have hc : (commit lg d).2 =
      writeHead ⟨lg.start, lg.size, ⟨0, lg.lh.block⟩⟩ (installTrans lg (writeHead lg (writeLog lg d))) := by
    simp [commit, hn]
  rw [hc, writeLog_eq h, h₂, hinst, h₄, commitWrites, Disk.bwrites_append, Disk.bwrites_append, Disk.bwrites_append, Disk.bwrites_singleton,
    Disk.bwrites_singleton]

end Commit

/-! ### Recovery after a reboot -/

def clearHeader (b : Block) : Block := headerWith ⟨0, fun _ => 0⟩ b

/-- A header `recover_from_log` can replay: its count fits the region and the header's array, and
every block it names lies outside the region. -/
structure HeaderSound (lg : LogState) (b : Block) : Prop where
  fits : headerCount b + 1 ≤ lg.size
  bound : headerCount b ≤ LOGSIZE
  outside : ∀ t < headerCount b, ¬ lg.InRegion (headerHome b t)

def installFromLog (lg : LogState) (D : ℕ → Block) : List (ℕ × Block) :=
  (List.range (headerCount (D lg.start))).map fun t => (headerHome (D lg.start) t, D (lg.start + t + 1))

def recoveryWrites (lg : LogState) (D : ℕ → Block) : List (ℕ × Block) :=
  installFromLog lg D ++ [(lg.start, clearHeader (D lg.start))]

lemma headerCount_clearHeader (b : Block) : headerCount (clearHeader b) = 0 :=
  headerCount_storeHeader _ _ (by decide)

lemma headerWith_zero (f : ℕ → UInt32) (b : Block) : headerWith ⟨0, f⟩ b = clearHeader b := rfl

lemma clearHeader_clearHeader (b : Block) : clearHeader (clearHeader b) = clearHeader b := by
  funext i
  simp only [clearHeader, headerWith, storeHeader, List.range_zero, List.foldl_nil, Mem.store32, Mem.write,
    Block.ofBytes, Block.bytes, dif_pos i.isLt]
  split_ifs <;> rfl

section Recovery

variable {lg : LogState} {D : ℕ → Block}

lemma HeaderSound.of_clean (hc : headerCount (D lg.start) = 0) (hz : 0 < lg.size) : HeaderSound lg (D lg.start) :=
  ⟨by omega, by rw [hc]; decide, fun t ht => by omega⟩

lemma HeaderSound.start_inRegion (hs : HeaderSound lg (D lg.start)) : lg.InRegion lg.start :=
  ⟨le_refl _, by have := hs.fits; omega⟩

lemma HeaderSound.home_ne (hs : HeaderSound lg (D lg.start)) {t : ℕ} (ht : t < headerCount (D lg.start)) {b : ℕ}
    (hb : lg.InRegion b) : headerHome (D lg.start) t ≠ b := fun he => hs.outside t ht (he ▸ hb)

lemma HeaderSound.log_inRegion (hs : HeaderSound lg (D lg.start)) {t : ℕ} (ht : t < headerCount (D lg.start)) :
    lg.InRegion (lg.start + t + 1) :=
  ⟨by omega, by have := hs.fits; omega⟩

lemma fst_of_mem_installFromLog {w : ℕ × Block} (hw : w ∈ installFromLog lg D) :
    ∃ t < headerCount (D lg.start), w.1 = headerHome (D lg.start) t := by
  obtain ⟨t, ht, rfl⟩ := List.mem_map.mp hw
  exact ⟨t, List.mem_range.mp ht, rfl⟩

lemma apply_installFromLog_of_inRegion (hs : HeaderSound lg (D lg.start)) (D' : ℕ → Block) (k : ℕ) {b : ℕ}
    (hb : lg.InRegion b) : apply D' ((installFromLog lg D).take k) b = D' b := by
  apply apply_take_of_not_mem
  intro w hw he
  obtain ⟨t, ht, hwt⟩ := fst_of_mem_installFromLog hw
  exact hs.home_ne ht hb (hwt ▸ he)

lemma reboot_eq (hs : HeaderSound lg (D lg.start)) : (reboot lg D).2 = (Disk.boot D).bwrites (recoveryWrites lg D) := by
  set lg₁ := readHead (bootLog lg.start lg.size) (Disk.boot D)
  have hhome : ∀ t < lg₁.lh.n, lg₁.home t = headerHome (D lg.start) t := fun t ht => home_readHead _ _ ht
  have hinst : installTrans lg₁ (Disk.boot D) = (Disk.boot D).bwrites (installFromLog lg D) := by
    have hsep : ∀ t < lg₁.lh.n, ∀ t' < lg₁.lh.n, lg.start + t + 1 ≠ lg₁.home t' := by
      intro t ht t' ht'
      rw [hhome t' ht']
      exact (hs.home_ne ht' (hs.log_inRegion ht)).symm
    rw [installTrans_eq lg₁ _ hsep, installFromLog, show lg₁.lh.n = headerCount (D lg.start) from rfl]
    refine congrArg _ (List.map_congr_left fun t ht => ?_)
    rw [hhome t (List.mem_range.mp ht)]
    rfl
  have hstart : ((Disk.boot D).bwrites (installFromLog lg D)).bread lg.start = D lg.start := by
    rw [Disk.bread_bwrites, Disk.bread_boot, ← List.take_length (l := installFromLog lg D),
      apply_installFromLog_of_inRegion hs _ _ hs.start_inRegion]
  have hr : (reboot lg D).2 = writeHead { lg₁ with lh.n := 0 } (installTrans lg₁ (Disk.boot D)) := rfl
  rw [hr, hinst, writeHead_eq, recoveryWrites, Disk.bwrites_append, Disk.bwrites_singleton]
  dsimp only
  rw [show lg₁.start = lg.start from rfl, hstart, headerWith_zero]

lemma reboot_disk (hs : HeaderSound lg (D lg.start)) : (reboot lg D).2.disk = apply D (recoveryWrites lg D) := by
  rw [reboot_eq hs, Disk.bwrites_disk]
  rfl

lemma reboot_writes (hs : HeaderSound lg (D lg.start)) : (reboot lg D).2.writes = recoveryWrites lg D := by
  rw [reboot_eq hs, Disk.bwrites_writes]
  rfl

lemma reboot_start (hs : HeaderSound lg (D lg.start)) : (reboot lg D).2.disk lg.start = clearHeader (D lg.start) := by
  rw [reboot_disk hs, recoveryWrites, apply_append, apply_singleton, Function.update_self]

lemma reboot_clean (hs : HeaderSound lg (D lg.start)) : headerCount ((reboot lg D).2.disk lg.start) = 0 := by
  rw [reboot_start hs, headerCount_clearHeader]

lemma reboot_home (hs : HeaderSound lg (D lg.start)) {t : ℕ} (ht : t < headerCount (D lg.start))
    (hlast : ∀ y < headerCount (D lg.start), headerHome (D lg.start) y = headerHome (D lg.start) t →
      D (lg.start + y + 1) = D (lg.start + t + 1)) :
    (reboot lg D).2.disk (headerHome (D lg.start) t) = D (lg.start + t + 1) := by
  rw [reboot_disk hs, recoveryWrites, apply_append, apply_singleton,
    Function.update_of_ne (hs.home_ne ht hs.start_inRegion)]
  exact apply_map_mem D _ (fun t => D (lg.start + t + 1)) _ t (List.mem_range.mpr ht)
    fun y hy => hlast y (List.mem_range.mp hy)

lemma reboot_frame (hs : HeaderSound lg (D lg.start)) {b : ℕ} (hb : b ≠ lg.start)
    (hh : ∀ t < headerCount (D lg.start), headerHome (D lg.start) t ≠ b) : (reboot lg D).2.disk b = D b := by
  rw [reboot_disk hs, recoveryWrites, apply_append, apply_singleton, Function.update_of_ne hb]
  apply apply_of_not_mem
  intro w hw he
  obtain ⟨t, ht, hwt⟩ := fst_of_mem_installFromLog hw
  exact hh t ht (hwt ▸ he)

lemma reboot_of_clean (hc : headerCount (D lg.start) = 0) (hz : 0 < lg.size) {b : ℕ} (hb : b ≠ lg.start) :
    (reboot lg D).2.disk b = D b :=
  reboot_frame (.of_clean hc hz) hb fun t ht => by omega

/-- A crash while recovering leaves a disk whose recovery ends where the interrupted one would have:
before the header is cleared the header and the log blocks are as they were, after it nothing is
left to replay. -/
lemma reboot_reboot_take (hs : HeaderSound lg (D lg.start)) (j : ℕ) :
    (reboot lg (apply D ((reboot lg D).2.writes.take j))).2.disk = (reboot lg D).2.disk := by
  rw [reboot_writes hs, reboot_disk hs]
  have hlen : (installFromLog lg D).length = headerCount (D lg.start) := by simp [installFromLog]
  rcases Nat.lt_or_ge (headerCount (D lg.start)) j with hj | hj
  · rw [List.take_of_length_le (by simp [recoveryWrites]; omega)]
    have hs' : apply D (recoveryWrites lg D) lg.start = clearHeader (D lg.start) := by
      rw [recoveryWrites, apply_append, apply_singleton, Function.update_self]
    have hc : headerCount (apply D (recoveryWrites lg D) lg.start) = 0 := by rw [hs', headerCount_clearHeader]
    have hz : 0 < lg.size := by have := hs.fits; omega
    funext b
    by_cases hb : b = lg.start
    · subst hb
      rw [reboot_start (.of_clean hc hz), hs', clearHeader_clearHeader]
    · exact reboot_of_clean hc hz hb
  · rw [show (recoveryWrites lg D).take j = (installFromLog lg D).take j from
      List.take_append_of_le_length (by omega)]
    set D' := apply D ((installFromLog lg D).take j)
    have hstart : D' lg.start = D lg.start := apply_installFromLog_of_inRegion hs _ _ hs.start_inRegion
    have hlog : ∀ t < headerCount (D lg.start), D' (lg.start + t + 1) = D (lg.start + t + 1) :=
      fun t ht => apply_installFromLog_of_inRegion hs _ _ (hs.log_inRegion ht)
    have hW : recoveryWrites lg D' = recoveryWrites lg D := by
      simp only [recoveryWrites, installFromLog, hstart]
      congr 1
      apply List.map_congr_left
      intro t ht
      rw [hlog t (List.mem_range.mp ht)]
    rw [reboot_disk (hstart ▸ hs), hW, ← apply_append]
    refine apply_append_of_covered D fun w hw => List.mem_map_of_mem ?_
    exact List.mem_append_left _ (List.mem_of_mem_take hw)

end Recovery

/-! ### Crashes during `commit` -/

instance (lg : LogState) (b : ℕ) : Decidable (lg.InRegion b) := inferInstanceAs (Decidable (_ ∧ _))

def Untouched (lg : LogState) (d : Disk) (D : ℕ → Block) : Prop :=
  ∀ b, ¬ lg.InRegion b → (∀ t < lg.lh.n, b ≠ lg.home t) → D b = d.disk b

def HomesPre (lg : LogState) (d : Disk) (D : ℕ → Block) : Prop :=
  ∀ t < lg.lh.n, D (lg.home t) = d.disk (lg.home t)

def HomesPost (lg : LogState) (d : Disk) (D : ℕ → Block) : Prop :=
  ∀ t < lg.lh.n, D (lg.home t) = d.bread (lg.home t)

/-- The images a crash in `commit` can leave: before the header write and after the last one the
header is clean and the homes are all old or all new; in between, the header names the transaction
and the log blocks hold its new contents. -/
inductive CrashImage (lg : LogState) (d : Disk) (D : ℕ → Block) : Prop
  | clean (hc : headerCount (D lg.start) = 0) (homes : HomesPre lg d D ∨ HomesPost lg d D)
      (rest : Untouched lg d D)
  | committed (hh : D lg.start = headerWith lg.lh (d.bread lg.start))
      (hlog : ∀ t < lg.lh.n, D (lg.start + t + 1) = d.bread (lg.home t)) (rest : Untouched lg d D)

section Crash

variable {lg : LogState} {d : Disk} {D : ℕ → Block}

lemma CommitReady.headerSound (h : CommitReady lg d) (b : Block) : HeaderSound lg (headerWith lg.lh b) where
  fits := by rw [headerCount_headerWith _ _ h.bound]; exact h.fits
  bound := by rw [headerCount_headerWith _ _ h.bound]; exact h.bound
  outside := by
    intro t ht
    rw [headerCount_headerWith _ _ h.bound] at ht
    rw [headerHome_headerWith _ _ h.bound ht]
    exact h.outside t ht

lemma CommitReady.ne_start (h : CommitReady lg d) {b : ℕ} (hb : ¬ lg.InRegion b) : b ≠ lg.start :=
  fun he => hb (he ▸ h.start_inRegion)

lemma CommitReady.ne_log (h : CommitReady lg d) {b : ℕ} (hb : ¬ lg.InRegion b) :
    ∀ t < lg.lh.n, b ≠ lg.start + t + 1 :=
  fun _ ht he => hb (he ▸ h.log_inRegion ht)

lemma CrashImage.sound (h : CommitReady lg d) (hD : CrashImage lg d D) : HeaderSound lg (D lg.start) := by
  cases hD with
  | clean hc _ _ => exact .of_clean hc (by have := h.fits; omega)
  | committed hh _ _ => rw [hh]; exact h.headerSound _

lemma crashImage_take (h : CommitReady lg d) (k : ℕ) : CrashImage lg d (apply d.disk ((commitWrites lg d).take k)) := by
  set H := headerWith lg.lh (d.bread lg.start)
  have hL : (logWrites lg d).length = lg.lh.n := by simp [logWrites]
  have hI : (installWrites lg d).length = lg.lh.n := by simp [installWrites]
  have hcw : commitWrites lg d =
      (logWrites lg d ++ [(lg.start, H)]) ++ (installWrites lg d ++ [(lg.start, headerWith ⟨0, lg.lh.block⟩ H)]) :=
    List.append_assoc _ _ _
  rcases Nat.lt_or_ge lg.lh.n k with hk | hk
  · rcases Nat.lt_or_ge (2 * lg.lh.n + 1) k with hk' | hk'
    -- the whole transaction is on disk and its header cleared
    · rw [List.take_of_length_le (by rw [hcw]; simp [hL, hI]; omega), hcw, apply_append, apply_append,
        apply_append, apply_singleton, apply_singleton]
      refine .clean ?_ (.inr fun t ht => ?_) fun b hb hh => ?_
      · rw [Function.update_self, headerWith_zero, headerCount_clearHeader]
      · rw [Function.update_of_ne (h.home_ne_start ht), apply_installWrites_home _ ht]
      · rw [Function.update_of_ne (h.ne_start hb), apply_of_not_mem _ (installWrites_fst_ne hh),
          Function.update_of_ne (h.ne_start hb), apply_logWrites_of_ne _ (h.ne_log hb)]
    -- the header is on disk, the homes partly installed
    · rw [hcw, List.take_append, List.take_of_length_le (by simp [hL]; omega),
        List.take_append_of_le_length (by simp [hL, hI]; omega), apply_append, apply_append, apply_singleton]
      have hinst : ∀ (D : ℕ → Block) {b}, (∀ t < lg.lh.n, b ≠ lg.home t) →
          apply D ((installWrites lg d).take (k - (logWrites lg d ++ [(lg.start, H)]).length)) b = D b :=
        fun D _ hb => apply_take_of_not_mem D (installWrites_fst_ne hb) _
      refine .committed ?_ (fun t ht => ?_) fun b hb hh => ?_
      · rw [hinst _ fun t ht => (h.home_ne_start ht).symm, Function.update_self]
      · rw [hinst _ fun t' ht' => (h.home_ne_log ht' ht).symm, Function.update_of_ne (by omega),
          apply_logWrites_log _ ht]
      · rw [hinst _ hh, Function.update_of_ne (h.ne_start hb), apply_logWrites_of_ne _ (h.ne_log hb)]
  -- only log blocks have been written
  · rw [hcw, List.take_append_of_le_length (by simp [hL]; omega), List.take_append_of_le_length (by omega)]
    have hlog : ∀ {b}, (∀ t < lg.lh.n, b ≠ lg.start + t + 1) → apply d.disk ((logWrites lg d).take k) b = d.disk b :=
      fun hb => apply_take_of_not_mem _ (logWrites_fst_ne hb) k
    refine .clean ?_ (.inl fun t ht => ?_) fun b hb _ => ?_
    · rw [hlog fun t _ => by omega]
      exact h.clean
    · exact hlog fun t' ht' => h.home_ne_log ht ht'
    · exact hlog (h.ne_log hb)

lemma crashImage_commit (h : CommitReady lg d) (k : ℕ) :
    CrashImage lg d (apply d.disk (((commit lg d).2.writes.drop d.writes.length).take k)) := by
  rcases Nat.eq_zero_or_pos lg.lh.n with hn | hn
  · have hc : commit lg d = (lg, d) := by simp [commit, hn]
    rw [hc, List.drop_length, List.take_nil, apply_nil]
    exact .clean h.clean (.inl fun t ht => by omega) fun _ _ _ => rfl
  · rw [commit_eq h hn, Disk.bwrites_writes, List.drop_left]
    exact crashImage_take h k

lemma reboot_crashImage (h : CommitReady lg d) (hD : CrashImage lg d D) :
    (HomesPre lg d (reboot lg D).2.disk ∨ HomesPost lg d (reboot lg D).2.disk) ∧ Untouched lg d (reboot lg D).2.disk := by
  have hs := hD.sound h
  cases hD with
  | clean hc homes rest =>
    have hz : 0 < lg.size := by have := h.fits; omega
    have hF : ∀ {b}, b ≠ lg.start → (reboot lg D).2.disk b = D b := fun hb => reboot_of_clean hc hz hb
    refine ⟨?_, fun b hb hh => ?_⟩
    · rcases homes with hpre | hpost
      · exact .inl fun t ht => (hF (h.home_ne_start ht)).trans (hpre t ht)
      · exact .inr fun t ht => (hF (h.home_ne_start ht)).trans (hpost t ht)
    · rw [hF (h.ne_start hb), rest b hb hh]
  | committed hh hlog rest =>
    have hcount : headerCount (D lg.start) = lg.lh.n := by rw [hh, headerCount_headerWith _ _ h.bound]
    have hhome : ∀ t < lg.lh.n, headerHome (D lg.start) t = lg.home t := by
      intro t ht
      rw [hh, headerHome_headerWith _ _ h.bound ht]
      rfl
    refine ⟨.inr fun t ht => ?_, fun b hb hb' => ?_⟩
    · have hlast : ∀ y < headerCount (D lg.start), headerHome (D lg.start) y = headerHome (D lg.start) t →
          D (lg.start + y + 1) = D (lg.start + t + 1) := by
        intro y hy he
        rw [hcount] at hy
        rw [hlog y hy, hlog t ht, ← hhome y hy, ← hhome t ht, he]
      have hr := reboot_home hs (hcount ▸ ht) hlast
      rw [hhome t ht, hlog t ht] at hr
      exact hr
    · have hne : ∀ t < headerCount (D lg.start), headerHome (D lg.start) t ≠ b := by
        intro t ht
        rw [hcount] at ht
        rw [hhome t ht]
        exact (hb' t ht).symm
      rw [reboot_frame hs (h.ne_start hb) hne, rest b hb hb']

lemma apply_commitWrites (h : CommitReady lg d) :
    headerCount (apply d.disk (commitWrites lg d) lg.start) = 0 ∧ HomesPost lg d (apply d.disk (commitWrites lg d)) := by
  simp only [commitWrites, apply_append, apply_singleton]
  refine ⟨?_, fun t ht => ?_⟩
  · rw [Function.update_self, headerWith_zero, headerCount_clearHeader]
  · rw [Function.update_of_ne (h.home_ne_start ht), apply_installWrites_home _ ht]

lemma reboot_after_commit (h : CommitReady lg d) {k : ℕ}
    (hk : ((commit lg d).2.writes.drop d.writes.length).length ≤ k) {t : ℕ} (ht : t < lg.lh.n) :
    (reboot lg (apply d.disk (((commit lg d).2.writes.drop d.writes.length).take k))).2.disk (lg.home t) =
      d.bread (lg.home t) := by
  have hw : (commit lg d).2.writes.drop d.writes.length = commitWrites lg d := by
    rw [commit_eq h (by omega), Disk.bwrites_writes, List.drop_left]
  rw [hw] at hk ⊢
  rw [List.take_of_length_le hk]
  obtain ⟨hc, hpost⟩ := apply_commitWrites h
  have hz : 0 < lg.size := by have := h.fits; omega
  rw [reboot_of_clean hc hz (h.home_ne_start ht), hpost t ht]

/-- A crash at any point of `commit`, then recovery on reboot: the logged blocks' homes hold all
their old or all their new contents, and the new ones once `commit` has made all its writes; every
other block outside the log region is as before; and a crash during that recovery followed by
another recovery ends on the same disk. -/
theorem commit_crash_atomic (h : CommitReady lg d) (k : ℕ) :
    let D := apply d.disk (((commit lg d).2.writes.drop d.writes.length).take k)
    let R := (reboot lg D).2
    ((∀ t < lg.lh.n, R.disk (lg.home t) = d.disk (lg.home t)) ∨
      (∀ t < lg.lh.n, R.disk (lg.home t) = d.bread (lg.home t))) ∧
    (((commit lg d).2.writes.drop d.writes.length).length ≤ k →
      ∀ t < lg.lh.n, R.disk (lg.home t) = d.bread (lg.home t)) ∧
    (∀ b, ¬ lg.InRegion b → (∀ t < lg.lh.n, b ≠ lg.home t) → R.disk b = d.disk b) ∧
    ∀ j, (reboot lg (apply D (R.writes.take j))).2.disk = R.disk := by
  intro D R
  have hD : CrashImage lg d D := crashImage_commit h k
  obtain ⟨hhomes, hrest⟩ := reboot_crashImage h hD
  exact ⟨hhomes, fun hk _ ht => reboot_after_commit h hk ht, hrest, reboot_reboot_take (hD.sound h)⟩

lemma commit_clean (h : CommitReady lg d) : headerCount ((commit lg d).2.disk lg.start) = 0 := by
  rcases Nat.eq_zero_or_pos lg.lh.n with hn | hn
  · simpa [commit, hn] using h.clean
  · rw [commit_eq h hn, Disk.bwrites_disk, commitWrites, apply_append, apply_singleton, Function.update_self,
      headerWith_zero, headerCount_clearHeader]

end Crash

def sampleLog : LogState := ⟨2, LOGSIZE, ⟨2, fun t => UInt32.ofNat (40 + t)⟩⟩

def sampleDisk : Disk := ⟨fun _ _ => 0, fun b => if b = 40 then some fun _ => 7 else none, []⟩

lemma sampleReady : CommitReady sampleLog sampleDisk where
  clean := by decide
  fits := by decide
  bound := by decide
  outside := by decide

theorem commit_crash_atomic_sample : CommitReady sampleLog sampleDisk ∧
    let D := apply sampleDisk.disk (((commit sampleLog sampleDisk).2.writes.drop sampleDisk.writes.length).take 3)
    let R := (reboot sampleLog D).2
    ((∀ t < sampleLog.lh.n, R.disk (sampleLog.home t) = sampleDisk.disk (sampleLog.home t)) ∨
      (∀ t < sampleLog.lh.n, R.disk (sampleLog.home t) = sampleDisk.bread (sampleLog.home t))) ∧
    (((commit sampleLog sampleDisk).2.writes.drop sampleDisk.writes.length).length ≤ 3 →
      ∀ t < sampleLog.lh.n, R.disk (sampleLog.home t) = sampleDisk.bread (sampleLog.home t)) ∧
    (∀ b, ¬ sampleLog.InRegion b → (∀ t < sampleLog.lh.n, b ≠ sampleLog.home t) → R.disk b = sampleDisk.disk b) ∧
    ∀ j, (reboot sampleLog (apply D (R.writes.take j))).2.disk = R.disk :=
  ⟨sampleReady, commit_crash_atomic sampleReady 3⟩

end Xv6Net.Fs.Log
