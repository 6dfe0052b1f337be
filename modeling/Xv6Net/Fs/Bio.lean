import Xv6Net.Lib.Links
import Xv6Net.Fs.Layout

/-! The buffer cache of `bio.c` with the IDE driver of `ide.c` under it. Any of `NPROC` processes
calls `bread`, `bwrite`, `brelse`, or pins a buffer as `log_write` does; the disk interrupts when it
has finished a command. Each section under `bcache.lock` or `idelock` is one step, and a process
that waits, for a buffer's sleep-lock in `bget` or for its request in `iderw`, does so between
steps. -/

namespace Xv6Net.Fs.Bio

open Xv6Net.Lib.Links Xv6Net.Fs.Layout

def SECTOR_SIZE : ℕ := 512

/-- A `struct buf`: the flags `B_VALID` and `B_DIRTY`, the block it holds, its sleep-lock with the
process holding it, the references `bget` handed out, and the data. Its `prev`, `next` and `qnext`
fields are the cache's `links` and `qnext`. -/
structure Buf where
  valid : Bool
  dirty : Bool
  dev : ℕ
  blockno : ℕ
  lock : Option (Fin NPROC)
  refcnt : ℕ
  data : Block

/-- The command `idestart` gave the controller: the drive `dev & 1`, the sector, and for a write
the data `outsl` sent. -/
structure Cmd where
  drive : ℕ
  sector : ℕ
  write : Option Block

/-- Where a process waits inside `bread` or `bwrite`. -/
inductive Call
  | acquire (b : Fin NBUF)
  | read (b : Fin NBUF)
  | write (b : Fin NBUF)
  deriving DecidableEq

structure State where
  bufs : Fin NBUF → Buf
  links : DLinks (Fin NBUF)
  idequeue : Option (Fin NBUF)
  qnext : Fin NBUF → Option (Fin NBUF)
  ctrl : Option Cmd
  disk : ℕ → ℕ → Block
  calls : Fin NPROC → Option Call

def State.setBuf (st : State) (b : Fin NBUF) (x : Buf) : State := { st with bufs := Function.update st.bufs b x }

def State.setCall (st : State) (p : Fin NPROC) (c : Option Call) : State :=
  { st with calls := Function.update st.calls p c }

inductive Event
  | bread (p : Fin NPROC) (dev blockno : ℕ)
  | lock (p : Fin NPROC)
  | wake (p : Fin NPROC)
  | bwrite (p : Fin NPROC) (b : Fin NBUF) (data : Block)
  | logWrite (p : Fin NPROC) (b : Fin NBUF) (data : Block)
  | brelse (p : Fin NPROC) (b : Fin NBUF)
  | intr (err : Bool)

/-- A call of `bread`; `bread` returning a buffer with its data; new data in a buffer, pinned by
`log_write` or written by `bwrite`; a request joining `idequeue`; and `ideintr` finishing it, where
`failed` says that a read found an error and left the data as it was. -/
inductive Obs
  | get (p : Fin NPROC) (dev blockno : ℕ)
  | read (p : Fin NPROC) (dev blockno : ℕ) (data : Block)
  | wrote (dev blockno : ℕ) (data : Block)
  | queued (b : Fin NBUF)
  | done (b : Fin NBUF) (failed : Bool)

inductive Outcome where
  | ok (st : State) (obs : List Obs)
  | panic (msg : String)
  | disabled

/-- `bcache` is a static, so every buffer starts zeroed; `binit` puts them in the list one after
another at the front. The list fields of a buffer are overwritten before they are read. -/
def binit (disk : ℕ → ℕ → Block) : State where
  bufs := fun _ => ⟨false, false, 0, 0, none, 0, fun _ => 0⟩
  links := (List.finRange NBUF).foldl DLinks.pushFront ⟨fun _ => none, fun _ => none⟩
  idequeue := none
  qnext := fun _ => none
  ctrl := none
  disk := disk
  calls := fun _ => none

def hasBlock (dev blockno : ℕ) (x : Buf) : Bool := x.dev == dev && x.blockno == blockno

-- `b->refcnt == 0 && (b->flags & B_DIRTY) == 0`
def recyclable (x : Buf) : Bool := x.refcnt == 0 && !x.dirty

/-- `bget` under `bcache.lock`: a cached buffer of the block gets one more reference; otherwise the
least recently used buffer with no reference that is not dirty is given the block. The list holds
`NBUF` buffers, so each scan ends within `NBUF` moves. -/
def bget (st : State) (dev blockno : ℕ) : Except String (Fin NBUF × State) :=
  match st.links.scanNext (fun b => hasBlock dev blockno (st.bufs b)) NBUF (st.links.next none) with
  | some b => .ok (b, st.setBuf b { st.bufs b with refcnt := (st.bufs b).refcnt + 1 })
  | none =>
    match st.links.scanPrev (fun b => recyclable (st.bufs b)) NBUF (st.links.prev none) with
    | some b =>
      let x := { st.bufs b with dev := dev, blockno := blockno, valid := false, dirty := false, refcnt := 1 }
      .ok (b, st.setBuf b x)
    | none => .error "bget: no buffers"

/-- What `idestart` sends for a buffer: the drive, the sector (with `BSIZE = SECTOR_SIZE` a block is
one sector), and for a dirty buffer the data. -/
def Buf.cmd (x : Buf) : Cmd := ⟨x.dev % 2, x.blockno * (BSIZE / SECTOR_SIZE), if x.dirty then some x.data else none⟩

def idestart (x : Buf) : Except String Cmd :=
  if FSSIZE ≤ x.blockno then .error "incorrect blockno" else .ok x.cmd

/-- `iderw(b)` up to its sleep: the checks, the append to `idequeue`, and `idestart` when `b` is
now at its head. -/
def iderw (havedisk1 : Bool) (p : Fin NPROC) (b : Fin NBUF) (st : State) : Except String State :=
  let x := st.bufs b
  if x.lock ≠ some p then .error "iderw: buf not locked"
  else if x.valid && !x.dirty then .error "iderw: nothing to do"
  else if x.dev ≠ 0 && !havedisk1 then .error "iderw: ide disk 1 not present"
  else
    let q := append NBUF st.idequeue st.qnext b
    let st := { st with idequeue := q.1, qnext := q.2 }
    if q.1 = some b then
      match idestart x with
      | .error e => .error e
      | .ok c => .ok { st with ctrl := some c }
    else .ok st

/-- The controller has finished its command: a write is on the disk. -/
def Cmd.finish (c : Cmd) (disk : ℕ → ℕ → Block) : ℕ → ℕ → Block :=
  match c.write with
  | some d => Function.update disk c.drive (Function.update (disk c.drive) c.sector d)
  | none => disk

/-- `ideintr` after the command `c` finished. `err` is what `idewait(1)` sees: the status shows
`IDE_DF` or `IDE_ERR`; then a read leaves the data as it was. -/
def ideintr (err : Bool) (c : Cmd) (st : State) : Except String (State × List Obs) :=
  match st.idequeue with
  | none => .ok (st, [])
  | some b =>
    let x := st.bufs b
    let data := if !x.dirty && !err then st.disk c.drive c.sector else x.data
    let st := { (st.setBuf b { x with data := data, valid := true, dirty := false }) with
      idequeue := st.qnext b, ctrl := none }
    match st.idequeue with
    | none => .ok (st, [.done b (!x.dirty && err)])
    | some b' =>
      match idestart (st.bufs b') with
      | .error e => .error e
      | .ok c' => .ok ({ st with ctrl := some c' }, [.done b (!x.dirty && err)])

def Outcome.ofExcept {α : Type} (r : Except String α) (f : α → State × List Obs) : Outcome :=
  match r with
  | .error e => .panic e
  | .ok a => .ok (f a).1 (f a).2

/-- One step. A caller changes a buffer's data only while it holds the buffer, right before
`log_write` or `bwrite`, so the change and the call are one event. -/
def step (havedisk1 : Bool) (st : State) : Event → Outcome
  | .bread p dev blockno =>
    if st.calls p = none then
      .ofExcept (bget st dev blockno) fun (b, st) => (st.setCall p (some (.acquire b)), [.get p dev blockno])
    else .disabled
  | .lock p =>
    -- `acquiresleep` returns, and `bread` reads the block unless it is valid
    match st.calls p with
    | some (.acquire b) =>
      if (st.bufs b).lock = none then
        let st := st.setBuf b { st.bufs b with lock := some p }
        let x := st.bufs b
        if x.valid then .ok (st.setCall p none) [.read p x.dev x.blockno x.data]
        else .ofExcept (iderw havedisk1 p b st) fun st => (st.setCall p (some (.read b)), [.queued b])
      else .disabled
    | _ => .disabled
  | .wake p =>
    -- `iderw`'s loop sees `(b->flags & (B_VALID|B_DIRTY)) == B_VALID`
    match st.calls p with
    | some (.read b) =>
      let x := st.bufs b
      if x.valid && !x.dirty then .ok (st.setCall p none) [.read p x.dev x.blockno x.data] else .disabled
    | some (.write b) =>
      let x := st.bufs b
      if x.valid && !x.dirty then .ok (st.setCall p none) [] else .disabled
    | _ => .disabled
  | .bwrite p b data =>
    if st.calls p = none then
      if (st.bufs b).lock = some p then
        let x := { st.bufs b with data := data, dirty := true }
        .ofExcept (iderw havedisk1 p b (st.setBuf b x)) fun st =>
          (st.setCall p (some (.write b)), [.wrote x.dev x.blockno data, .queued b])
      else .panic "bwrite"
    else .disabled
  | .logWrite p b data =>
    if st.calls p = none ∧ (st.bufs b).lock = some p then
      let x := { st.bufs b with data := data, dirty := true }
      .ok (st.setBuf b x) [.wrote x.dev x.blockno data]
    else .disabled
  | .brelse p b =>
    if st.calls p = none then
      if (st.bufs b).lock = some p then
        let x := { st.bufs b with lock := none, refcnt := (st.bufs b).refcnt - 1 }
        let st := st.setBuf b x
        -- no one is waiting for it: to the front of the list
        if x.refcnt = 0 then .ok { st with links := (st.links.unlink b).pushFront b } []
        else .ok st []
      else .panic "brelse"
    else .disabled
  | .intr err =>
    match st.ctrl with
    | some c => .ofExcept (ideintr err c { st with disk := c.finish st.disk }) id
    | none => .disabled

/-! ### What each part of a step does

One inversion lemma per function and per event, so that the invariant proofs never unfold `step`. -/

section Inversion

variable {st st' : State} {havedisk1 : Bool}

@[simp] lemma State.setBuf_bufs (st : State) (b : Fin NBUF) (x : Buf) :
    (st.setBuf b x).bufs = Function.update st.bufs b x := rfl
@[simp] lemma State.setBuf_links (st : State) (b : Fin NBUF) (x : Buf) : (st.setBuf b x).links = st.links := rfl
@[simp] lemma State.setBuf_idequeue (st : State) (b : Fin NBUF) (x : Buf) :
    (st.setBuf b x).idequeue = st.idequeue := rfl
@[simp] lemma State.setBuf_qnext (st : State) (b : Fin NBUF) (x : Buf) : (st.setBuf b x).qnext = st.qnext := rfl
@[simp] lemma State.setBuf_ctrl (st : State) (b : Fin NBUF) (x : Buf) : (st.setBuf b x).ctrl = st.ctrl := rfl
@[simp] lemma State.setBuf_disk (st : State) (b : Fin NBUF) (x : Buf) : (st.setBuf b x).disk = st.disk := rfl
@[simp] lemma State.setBuf_calls (st : State) (b : Fin NBUF) (x : Buf) : (st.setBuf b x).calls = st.calls := rfl

@[simp] lemma State.setCall_calls (st : State) (p : Fin NPROC) (c : Option Call) :
    (st.setCall p c).calls = Function.update st.calls p c := rfl
@[simp] lemma State.setCall_bufs (st : State) (p : Fin NPROC) (c : Option Call) : (st.setCall p c).bufs = st.bufs := rfl
@[simp] lemma State.setCall_links (st : State) (p : Fin NPROC) (c : Option Call) :
    (st.setCall p c).links = st.links := rfl
@[simp] lemma State.setCall_idequeue (st : State) (p : Fin NPROC) (c : Option Call) :
    (st.setCall p c).idequeue = st.idequeue := rfl
@[simp] lemma State.setCall_qnext (st : State) (p : Fin NPROC) (c : Option Call) :
    (st.setCall p c).qnext = st.qnext := rfl
@[simp] lemma State.setCall_ctrl (st : State) (p : Fin NPROC) (c : Option Call) : (st.setCall p c).ctrl = st.ctrl := rfl
@[simp] lemma State.setCall_disk (st : State) (p : Fin NPROC) (c : Option Call) : (st.setCall p c).disk = st.disk := rfl

lemma ofExcept_ok {α : Type} {r : Except String α} {f : α → State × List Obs} {o : List Obs}
    (h : Outcome.ofExcept r f = .ok st o) : ∃ a, r = .ok a ∧ f a = (st, o) := by
  cases r with
  | error e => cases h
  | ok a => cases h; exact ⟨a, rfl, rfl⟩

lemma idestart_ok {x : Buf} {c : Cmd} (h : idestart x = .ok c) : x.blockno < FSSIZE ∧ c = x.cmd := by
  unfold idestart at h
  split_ifs at h with hb
  cases h
  exact ⟨Nat.lt_of_not_le hb, rfl⟩

lemma bget_ok {dev blockno : ℕ} {b : Fin NBUF} (h : bget st dev blockno = .ok (b, st')) :
    (st.links.scanNext (fun b => hasBlock dev blockno (st.bufs b)) NBUF (st.links.next none) = some b ∧
      st' = st.setBuf b { st.bufs b with refcnt := (st.bufs b).refcnt + 1 }) ∨
    (st.links.scanNext (fun b => hasBlock dev blockno (st.bufs b)) NBUF (st.links.next none) = none ∧
      st.links.scanPrev (fun b => recyclable (st.bufs b)) NBUF (st.links.prev none) = some b ∧
      st' = st.setBuf b
        { st.bufs b with dev := dev, blockno := blockno, valid := false, dirty := false, refcnt := 1 }) := by
  unfold bget at h
  split at h
  · rename_i b' hb
    cases h
    exact .inl ⟨hb, rfl⟩
  · rename_i hn
    split at h
    · rename_i b' hb
      cases h
      exact .inr ⟨hn, hb, rfl⟩
    · cases h

lemma iderw_ok {p : Fin NPROC} {b : Fin NBUF} (h : iderw havedisk1 p b st = .ok st') :
    (st.bufs b).lock = some p ∧ ¬((st.bufs b).valid = true ∧ (st.bufs b).dirty = false) ∧
      ∃ ctrl, st' = { st with
        idequeue := (append NBUF st.idequeue st.qnext b).1, qnext := (append NBUF st.idequeue st.qnext b).2,
        ctrl := ctrl } ∧
      ((append NBUF st.idequeue st.qnext b).1 = some b → (st.bufs b).blockno < FSSIZE ∧ ctrl = some (st.bufs b).cmd) ∧
      ((append NBUF st.idequeue st.qnext b).1 ≠ some b → ctrl = st.ctrl) := by
  unfold iderw at h
  dsimp only at h
  split_ifs at h with hl hv hd hq
  · split at h
    · cases h
    · rename_i c hc
      cases h
      obtain ⟨hlt, rfl⟩ := idestart_ok hc
      refine ⟨not_not.mp hl, by simpa using hv, _, rfl, fun _ => ⟨hlt, rfl⟩, fun h' => absurd hq h'⟩
  · cases h
    exact ⟨not_not.mp hl, by simpa using hv, _, rfl, fun h' => absurd h' hq, fun _ => rfl⟩

/-- The state after `ideintr` took `b` off the queue, before it starts the next request. -/
def completed (err : Bool) (c : Cmd) (b : Fin NBUF) (st : State) : State :=
  let x := st.bufs b
  let data := if !x.dirty && !err then st.disk c.drive c.sector else x.data
  { (st.setBuf b { x with data := data, valid := true, dirty := false }) with idequeue := st.qnext b, ctrl := none }

section Completed

variable (err : Bool) (c : Cmd) (b : Fin NBUF) (st : State)

@[simp] lemma completed_bufs : (completed err c b st).bufs = Function.update st.bufs b
    { st.bufs b with
      data := if !(st.bufs b).dirty && !err then st.disk c.drive c.sector else (st.bufs b).data
      valid := true
      dirty := false } := rfl
@[simp] lemma completed_calls : (completed err c b st).calls = st.calls := rfl
@[simp] lemma completed_links : (completed err c b st).links = st.links := rfl
@[simp] lemma completed_disk : (completed err c b st).disk = st.disk := rfl
@[simp] lemma completed_idequeue : (completed err c b st).idequeue = st.qnext b := rfl
@[simp] lemma completed_qnext : (completed err c b st).qnext = st.qnext := rfl
@[simp] lemma completed_ctrl : (completed err c b st).ctrl = none := rfl

end Completed

lemma ideintr_ok {err : Bool} {c : Cmd} {o : List Obs} (h : ideintr err c st = .ok (st', o)) :
    (st.idequeue = none ∧ st' = st ∧ o = []) ∨
    ∃ b, st.idequeue = some b ∧ o = [.done b (!(st.bufs b).dirty && err)] ∧
      ((st.qnext b = none ∧ st' = completed err c b st) ∨
       ∃ b', st.qnext b = some b' ∧ ((completed err c b st).bufs b').blockno < FSSIZE ∧
         st' = { completed err c b st with ctrl := some ((completed err c b st).bufs b').cmd }) := by
  unfold ideintr at h
  split at h
  · rename_i hq
    cases h
    exact .inl ⟨hq, rfl, rfl⟩
  · rename_i b hq
    dsimp only at h
    split at h
    · rename_i hn
      cases h
      exact .inr ⟨b, hq, rfl, .inl ⟨hn, rfl⟩⟩
    · rename_i b' hn
      split at h
      · cases h
      · rename_i c' hc
        cases h
        obtain ⟨hlt, rfl⟩ := idestart_ok hc
        exact .inr ⟨b, hq, rfl, .inr ⟨b', hn, hlt, rfl⟩⟩

variable {p : Fin NPROC} {b : Fin NBUF} {o : List Obs}

lemma step_bread {dev blockno : ℕ} (h : step havedisk1 st (.bread p dev blockno) = .ok st' o) :
    st.calls p = none ∧ o = [.get p dev blockno] ∧
      ∃ b st₁, bget st dev blockno = .ok (b, st₁) ∧ st' = st₁.setCall p (some (.acquire b)) := by
  unfold step at h
  dsimp only at h
  split_ifs at h with hc
  obtain ⟨⟨b, st₁⟩, hb, he⟩ := ofExcept_ok h
  cases he
  exact ⟨hc, rfl, b, st₁, hb, rfl⟩

lemma step_lock (h : step havedisk1 st (.lock p) = .ok st' o) :
    ∃ b, st.calls p = some (.acquire b) ∧ (st.bufs b).lock = none ∧
      (((st.bufs b).valid = true ∧ st' = (st.setBuf b { st.bufs b with lock := some p }).setCall p none ∧
          o = [.read p (st.bufs b).dev (st.bufs b).blockno (st.bufs b).data]) ∨
        ((st.bufs b).valid = false ∧ ∃ st₂, iderw havedisk1 p b (st.setBuf b { st.bufs b with lock := some p }) = .ok st₂ ∧
          st' = st₂.setCall p (some (.read b)) ∧ o = [.queued b])) := by
  unfold step at h
  dsimp only at h
  split at h
  · rename_i b hc
    split_ifs at h with hl hv
    · cases h
      exact ⟨b, hc, hl, .inl ⟨by simpa using hv, rfl, by simp⟩⟩
    · obtain ⟨st₂, hi, he⟩ := ofExcept_ok h
      cases he
      exact ⟨b, hc, hl, .inr ⟨by simpa using hv, st₂, hi, rfl, rfl⟩⟩
  · cases h

lemma step_wake (h : step havedisk1 st (.wake p) = .ok st' o) :
    ∃ b, (st.bufs b).valid = true ∧ (st.bufs b).dirty = false ∧ st' = st.setCall p none ∧
      ((st.calls p = some (.read b) ∧ o = [.read p (st.bufs b).dev (st.bufs b).blockno (st.bufs b).data]) ∨
        (st.calls p = some (.write b) ∧ o = [])) := by
  unfold step at h
  dsimp only at h
  split at h
  · rename_i b hc
    split_ifs at h with hv
    cases h
    simp only [Bool.and_eq_true, Bool.not_eq_eq_eq_not, Bool.not_true] at hv
    exact ⟨b, hv.1, hv.2, rfl, .inl ⟨hc, rfl⟩⟩
  · rename_i b hc
    split_ifs at h with hv
    cases h
    simp only [Bool.and_eq_true, Bool.not_eq_eq_eq_not, Bool.not_true] at hv
    exact ⟨b, hv.1, hv.2, rfl, .inr ⟨hc, rfl⟩⟩
  · cases h

lemma step_bwrite {data : Block} (h : step havedisk1 st (.bwrite p b data) = .ok st' o) :
    st.calls p = none ∧ (st.bufs b).lock = some p ∧
      ∃ st₂, iderw havedisk1 p b (st.setBuf b { st.bufs b with data := data, dirty := true }) = .ok st₂ ∧
        st' = st₂.setCall p (some (.write b)) ∧ o = [.wrote (st.bufs b).dev (st.bufs b).blockno data, .queued b] := by
  unfold step at h
  dsimp only at h
  split_ifs at h with hc hl
  obtain ⟨st₂, hi, he⟩ := ofExcept_ok h
  cases he
  exact ⟨hc, hl, st₂, hi, rfl, rfl⟩

lemma step_logWrite {data : Block} (h : step havedisk1 st (.logWrite p b data) = .ok st' o) :
    st.calls p = none ∧ (st.bufs b).lock = some p ∧
      st' = st.setBuf b { st.bufs b with data := data, dirty := true } ∧
      o = [.wrote (st.bufs b).dev (st.bufs b).blockno data] := by
  unfold step at h
  dsimp only at h
  split_ifs at h with hc
  cases h
  exact ⟨hc.1, hc.2, rfl, rfl⟩

lemma step_brelse (h : step havedisk1 st (.brelse p b) = .ok st' o) :
    st.calls p = none ∧ (st.bufs b).lock = some p ∧ o = [] ∧
      ((st.bufs b).refcnt - 1 = 0 ∧
          st' = { st.setBuf b { st.bufs b with lock := none, refcnt := (st.bufs b).refcnt - 1 } with
            links := (st.links.unlink b).pushFront b } ∨
        (st.bufs b).refcnt - 1 ≠ 0 ∧
          st' = st.setBuf b { st.bufs b with lock := none, refcnt := (st.bufs b).refcnt - 1 }) := by
  unfold step at h
  dsimp only at h
  split_ifs at h with hc hl hr
  · cases h
    exact ⟨hc, hl, rfl, .inl ⟨hr, rfl⟩⟩
  · cases h
    exact ⟨hc, hl, rfl, .inr ⟨hr, rfl⟩⟩

lemma step_intr {err : Bool} (h : step havedisk1 st (.intr err) = .ok st' o) :
    ∃ c, st.ctrl = some c ∧ ideintr err c { st with disk := c.finish st.disk } = .ok (st', o) := by
  unfold step at h
  dsimp only at h
  split at h
  · rename_i c hc
    obtain ⟨r, hr, he⟩ := ofExcept_ok h
    cases he
    exact ⟨c, hc, hr⟩
  · cases h

end Inversion

/-! ### Steps that can be taken

The other direction, for runs built step by step. -/

section Forward

variable {st st₁ : State} {havedisk1 : Bool} {p : Fin NPROC} {b : Fin NBUF} {dev blockno : ℕ}

lemma bget_of_recycle (hn : st.links.scanNext (fun b => hasBlock dev blockno (st.bufs b)) NBUF (st.links.next none) = none)
    (hp : st.links.scanPrev (fun b => recyclable (st.bufs b)) NBUF (st.links.prev none) = some b) :
    bget st dev blockno = .ok (b, st.setBuf b
      { st.bufs b with dev := dev, blockno := blockno, valid := false, dirty := false, refcnt := 1 }) := by
  unfold bget
  rw [hn, hp]

lemma bget_of_full (hn : st.links.scanNext (fun b => hasBlock dev blockno (st.bufs b)) NBUF (st.links.next none) = none)
    (hp : st.links.scanPrev (fun b => recyclable (st.bufs b)) NBUF (st.links.prev none) = none) :
    bget st dev blockno = .error "bget: no buffers" := by
  unfold bget
  rw [hn, hp]

lemma step_bread_of_ok (hc : st.calls p = none) (hb : bget st dev blockno = .ok (b, st₁)) :
    step havedisk1 st (.bread p dev blockno) = .ok (st₁.setCall p (some (.acquire b))) [.get p dev blockno] := by
  simp only [step, hc, if_true, hb, Outcome.ofExcept]

lemma step_bread_of_error {e : String} (hc : st.calls p = none) (hb : bget st dev blockno = .error e) :
    step havedisk1 st (.bread p dev blockno) = .panic e := by
  simp only [step, hc, if_true, hb, Outcome.ofExcept]

lemma iderw_of (hl : (st.bufs b).lock = some p) (hv : (st.bufs b).valid = false) (hd : (st.bufs b).dev = 0 ∨ havedisk1)
    (hbn : (st.bufs b).blockno < FSSIZE) :
    iderw havedisk1 p b st = .ok { st with
      idequeue := (append NBUF st.idequeue st.qnext b).1, qnext := (append NBUF st.idequeue st.qnext b).2,
      ctrl := if (append NBUF st.idequeue st.qnext b).1 = some b then some (st.bufs b).cmd else st.ctrl } := by
  have hs : idestart (st.bufs b) = .ok (st.bufs b).cmd := by simp [idestart, Nat.not_le.mpr hbn]
  unfold iderw
  simp only [hl, ne_eq, not_true_eq_false, if_false, hv, Bool.false_and, Bool.false_eq_true]
  rw [if_neg (by rcases hd with hd | hd <;> simp [hd])]
  split_ifs with hq
  · rw [hs]
  · rfl

lemma step_lock_of_read {st₂ : State} (hc : st.calls p = some (.acquire b)) (hl : (st.bufs b).lock = none)
    (hv : (st.bufs b).valid = false) (hi : iderw havedisk1 p b (st.setBuf b { st.bufs b with lock := some p }) = .ok st₂) :
    step havedisk1 st (.lock p) = .ok (st₂.setCall p (some (.read b))) [.queued b] := by
  unfold step
  simp only [hc, hl, if_true, State.setBuf_bufs, Function.update_self, hv, Bool.false_eq_true, if_false] at hi ⊢
  simp only [hi, Outcome.ofExcept]

lemma step_intr_of {c : Cmd} {err : Bool} {st' : State} {o : List Obs} (hc : st.ctrl = some c)
    (hi : ideintr err c { st with disk := c.finish st.disk } = .ok (st', o)) : step havedisk1 st (.intr err) = .ok st' o := by
  simp only [hc] at hi
  simp only [step, hc, hi, Outcome.ofExcept, id]

lemma ideintr_of_last {c : Cmd} {err : Bool} (hq : st.idequeue = some b) (hn : st.qnext b = none) :
    ideintr err c st = .ok (completed err c b st, [.done b (!(st.bufs b).dirty && err)]) := by
  unfold ideintr
  rw [hq]
  dsimp only
  split
  · rfl
  · rename_i b' hb'
    rw [hn] at hb'
    cases hb'

lemma step_wake_of_read (hc : st.calls p = some (.read b)) (hv : (st.bufs b).valid = true) (hd : (st.bufs b).dirty = false) :
    step havedisk1 st (.wake p) =
      .ok (st.setCall p none) [.read p (st.bufs b).dev (st.bufs b).blockno (st.bufs b).data] := by
  simp only [step, hc, hv, hd, Bool.not_false, Bool.and_self, if_true]

end Forward

inductive Run (havedisk1 : Bool) (st₀ : State) : State → List Obs → Prop
  | init : Run havedisk1 st₀ st₀ []
  | step {st st' : State} {obs o : List Obs} {e : Event} :
      Run havedisk1 st₀ st obs → step havedisk1 st e = .ok st' o → Run havedisk1 st₀ st' (obs ++ o)

end Xv6Net.Fs.Bio
