import Xv6Net.Fs.Log
import Xv6Net.Lib.Count
import Xv6Net.Lib.Except

/-! The open-file layer of `file.c`, `sysfile.c` and `pipe.c`: the table `ftable.file`, the
descriptors `p->ofile` and the working directory `p->cwd` of each process, the two ends of each pipe,
and the references to in-memory inodes that open files and working directories hold. A `Call` is one
system call, `fork` or `exit` of a process, run as a whole under the locks it takes; what `namei` or
`create`, `allocproc` and `kalloc` return to it is part of the call. -/

namespace Xv6Net.Fs.FileTable

open Xv6Net.Fs.Layout Xv6Net.Fs.Log Xv6Net.Lib.Count Xv6Net.Lib.Except

def NOFILE : ℕ := 16
def NFILE : ℕ := 100

def O_RDONLY : ℤ := 0x000
def O_WRONLY : ℤ := 0x001
def O_RDWR : ℤ := 0x002
def O_CREATE : ℤ := 0x200

/-- `struct file`'s `type`, with the pipe or the inode a file of that type points at. -/
inductive FdType where
  | FD_NONE
  | FD_PIPE (pipe : ℕ)
  | FD_INODE (ip : ℕ)
  deriving DecidableEq, Repr

/-- `struct file` as this layer reads it: `readable` and `off` are read only by `fileread` and
`filewrite`. -/
structure File where
  type : FdType
  ref : ℕ
  writable : Bool
  deriving DecidableEq, Repr

/-- `readopen` and `writeopen` of an allocated `struct pipe`. -/
structure PipeEnds where
  readopen : Bool
  writeopen : Bool
  deriving DecidableEq, Repr

/-- The layer's state. `alive q`: slot `q` holds a process that has not exited; `pipes pg` the pipe
in the page `pg`, if one is allocated there; `iref ip` the count `ip->ref`. -/
structure FState where
  files : Fin NFILE → File
  ofile : Fin NPROC → Fin NOFILE → Option (Fin NFILE)
  cwd : Fin NPROC → Option ℕ
  alive : Fin NPROC → Bool
  pipes : ℕ → Option PipeEnds
  iref : ℕ → ℕ

namespace FState

def setFile (s : FState) (f : Fin NFILE) (x : File) : FState := { s with files := Function.update s.files f x }

def setOfile (s : FState) (p : Fin NPROC) (fd : Fin NOFILE) (v : Option (Fin NFILE)) : FState :=
  { s with ofile := Function.update s.ofile p (Function.update (s.ofile p) fd v) }

@[simp] lemma setFile_files (s : FState) (f : Fin NFILE) (x : File) :
    (s.setFile f x).files = Function.update s.files f x := rfl
@[simp] lemma setFile_ofile (s : FState) (f : Fin NFILE) (x : File) : (s.setFile f x).ofile = s.ofile := rfl
@[simp] lemma setFile_cwd (s : FState) (f : Fin NFILE) (x : File) : (s.setFile f x).cwd = s.cwd := rfl
@[simp] lemma setFile_alive (s : FState) (f : Fin NFILE) (x : File) : (s.setFile f x).alive = s.alive := rfl
@[simp] lemma setFile_pipes (s : FState) (f : Fin NFILE) (x : File) : (s.setFile f x).pipes = s.pipes := rfl
@[simp] lemma setFile_iref (s : FState) (f : Fin NFILE) (x : File) : (s.setFile f x).iref = s.iref := rfl
@[simp] lemma setOfile_files (s : FState) (p : Fin NPROC) (fd : Fin NOFILE) (v : Option (Fin NFILE)) :
    (s.setOfile p fd v).files = s.files := rfl
@[simp] lemma setOfile_cwd (s : FState) (p : Fin NPROC) (fd : Fin NOFILE) (v : Option (Fin NFILE)) :
    (s.setOfile p fd v).cwd = s.cwd := rfl
@[simp] lemma setOfile_alive (s : FState) (p : Fin NPROC) (fd : Fin NOFILE) (v : Option (Fin NFILE)) :
    (s.setOfile p fd v).alive = s.alive := rfl
@[simp] lemma setOfile_pipes (s : FState) (p : Fin NPROC) (fd : Fin NOFILE) (v : Option (Fin NFILE)) :
    (s.setOfile p fd v).pipes = s.pipes := rfl
@[simp] lemma setOfile_iref (s : FState) (p : Fin NPROC) (fd : Fin NOFILE) (v : Option (Fin NFILE)) :
    (s.setOfile p fd v).iref = s.iref := rfl

lemma setOfile_ofile (s : FState) (p : Fin NPROC) (fd : Fin NOFILE) (v : Option (Fin NFILE)) (q : Fin NPROC)
    (i : Fin NOFILE) : (s.setOfile p fd v).ofile q i = if q = p ∧ i = fd then v else s.ofile q i := by
  unfold setOfile
  by_cases hq : q = p
  · subst hq
    by_cases hi : i = fd
    · subst hi
      simp
    · simp [hi]
  · simp [hq]

end FState

/-- `idup(ip)`, and the reference `namei` or `create` returns with `ip`: `ip->ref++`. -/
def idup (s : FState) (ip : ℕ) : FState := { s with iref := Function.update s.iref ip (s.iref ip + 1) }

/-- `iput(ip)` as far as the count goes: `ip->ref--`. Freeing an inode with no links is
`Fs.Namespace`'s. -/
def iput (s : FState) (ip : ℕ) : FState := { s with iref := Function.update s.iref ip (s.iref ip - 1) }

/-- `pipeclose(p, writable)`: the end is closed, and the page is freed with the second end. A pipe
that is not allocated is left alone. -/
def pipeclose (s : FState) (p : ℕ) (writable : Bool) : FState :=
  match s.pipes p with
  | none => s
  | some e =>
    let e := if writable then { e with writeopen := false } else { e with readopen := false }
    if !e.readopen && !e.writeopen then { s with pipes := Function.update s.pipes p none }
    else { s with pipes := Function.update s.pipes p (some e) }

/-- `filealloc`: the first free slot of `ftable.file`, now with one reference. -/
def filealloc (s : FState) : Option (Fin NFILE × FState) :=
  match (List.finRange NFILE).find? fun f => (s.files f).ref == 0 with
  | some f => some (f, s.setFile f { s.files f with ref := 1 })
  | none => none

def filedup (s : FState) (f : Fin NFILE) : Except String FState :=
  if (s.files f).ref < 1 then .error "filedup"
  else .ok (s.setFile f { s.files f with ref := (s.files f).ref + 1 })

/-- `fileclose`: the last reference frees the slot and closes the pipe end or puts the inode. -/
def fileclose (s : FState) (f : Fin NFILE) : Except String FState :=
  let ff := s.files f
  if ff.ref < 1 then .error "fileclose"
  else if ff.ref - 1 > 0 then .ok (s.setFile f { ff with ref := ff.ref - 1 })
  else
    let s := s.setFile f { ff with ref := 0, type := .FD_NONE }
    match ff.type with
    | .FD_PIPE p => .ok (pipeclose s p ff.writable)
    | .FD_INODE ip => .ok (iput s ip)
    | .FD_NONE => .ok s

/-- `fdalloc(f)` in process `p`: the first free descriptor now names `f`. -/
def fdalloc (s : FState) (p : Fin NPROC) (f : Fin NFILE) : Option (Fin NOFILE × FState) :=
  match (List.finRange NOFILE).find? fun fd => (s.ofile p fd).isNone with
  | some fd => some (fd, s.setOfile p fd (some f))
  | none => none

/-- The descriptor number `fd`, when `0 <= fd < NOFILE`. -/
def fdIndex (fd : ℤ) : Option (Fin NOFILE) :=
  if h : fd < 0 ∨ fd ≥ NOFILE then none else some ⟨fd.toNat, by omega⟩

/-- `argfd` once `argint` has fetched `fd`: the descriptor and the file it names. -/
def argfd (s : FState) (p : Fin NPROC) (fd : ℤ) : Option (Fin NOFILE × Fin NFILE) :=
  match fdIndex fd with
  | none => none
  | some i =>
    match s.ofile p i with
    | some f => some (i, f)
    | none => none

def sysDup (s : FState) (p : Fin NPROC) (fd : ℤ) : Except String (FState × ℤ) :=
  match argfd s p fd with
  | none => .ok (s, -1)
  | some (_, f) =>
    match fdalloc s p f with
    | none => .ok (s, -1)
    | some (fd, s) => (filedup s f).map fun s => (s, (fd : ℤ))

def sysClose (s : FState) (p : Fin NPROC) (fd : ℤ) : Except String (FState × ℤ) :=
  match argfd s p fd with
  | none => .ok (s, -1)
  | some (i, f) => (fileclose (s.setOfile p i none) f).map fun s => (s, 0)

/-- The end of `sys_open` from `filealloc` on, with `ip` from `namei` or `create`. -/
def openFile (s : FState) (p : Fin NPROC) (omode : ℤ) (ip : ℕ) : Except String (FState × ℤ) :=
  match filealloc s with
  | none => .ok (iput s ip, -1)
  | some (f, s) =>
    match fdalloc s p f with
    | none => (fileclose s f).map fun s => (iput s ip, -1)
    | some (fd, s) =>
      -- `f->writable = (omode & O_WRONLY) || (omode & O_RDWR)`
      let w := Int.land omode O_WRONLY ≠ 0 || Int.land omode O_RDWR ≠ 0
      .ok (s.setFile f { s.files f with type := .FD_INODE ip, writable := w }, (fd : ℤ))

/-- `sys_open`: `found` is the inode `create` (under `O_CREATE`) or `namei` returned, and whether it
is a directory. -/
def sysOpen (s : FState) (p : Fin NPROC) (omode : ℤ) (found : Option (ℕ × Bool)) : Except String (FState × ℤ) :=
  match found with
  | none => .ok (s, -1)
  | some (ip, isDir) =>
    let s := idup s ip
    if Int.land omode O_CREATE ≠ 0 then openFile s p omode ip
    else if isDir ∧ omode ≠ O_RDONLY then .ok (iput s ip, -1)
    else openFile s p omode ip

/-- `pipealloc`, with `page` what `kalloc` returned: the read and the write file. -/
def pipealloc (s : FState) (page : Option ℕ) : Except String (Option (Fin NFILE × Fin NFILE) × FState) :=
  match filealloc s with
  | none => .ok (none, s)
  | some (f0, s) =>
    match filealloc s with
    | none => (fileclose s f0).map fun s => (none, s)
    | some (f1, s) =>
      match page with
      | none => do
        let s ← fileclose s f0
        let s ← fileclose s f1
        pure (none, s)
      | some pg =>
        let s := { s with pipes := Function.update s.pipes pg (some ⟨true, true⟩) }
        let s := s.setFile f0 { s.files f0 with type := .FD_PIPE pg, writable := false }
        let s := s.setFile f1 { s.files f1 with type := .FD_PIPE pg, writable := true }
        .ok (some (f0, f1), s)

/-- `sys_pipe` up to its stores of the two descriptors in the user's array. -/
def sysPipe (s : FState) (p : Fin NPROC) (page : Option ℕ) : Except String (FState × ℤ) := do
  let (r, s) ← pipealloc s page
  match r with
  | none => pure (s, -1)
  | some (rf, wf) =>
    match fdalloc s p rf with
    | none => do
      let s ← fileclose s rf
      let s ← fileclose s wf
      pure (s, -1)
    | some (fd0, s) =>
      match fdalloc s p wf with
      | none => do
        let s ← fileclose (s.setOfile p fd0 none) rf
        let s ← fileclose s wf
        pure (s, -1)
      | some (_, s) => pure (s, 0)

/-- `sys_chdir`: `found` is the inode `namei` returned, and whether it is a directory. -/
def sysChdir (s : FState) (p : Fin NPROC) (found : Option (ℕ × Bool)) : FState × ℤ :=
  match found with
  | none => (s, -1)
  | some (ip, isDir) =>
    let s := idup s ip
    if !isDir then (iput s ip, -1)
    else
      let s := match s.cwd p with
        | some old => iput s old
        | none => s
      ({ s with cwd := Function.update s.cwd p (some ip) }, 0)

/-- `fork`'s loop `if(curproc->ofile[i]) np->ofile[i] = filedup(curproc->ofile[i]);` over `fds`. -/
def dupLoop (p c : Fin NPROC) : List (Fin NOFILE) → FState → Except String FState
  | [], s => .ok s
  | i :: is, s =>
    match s.ofile p i with
    | some f => do
      let s ← filedup s f
      dupLoop p c is (s.setOfile c i (some f))
    | none => dupLoop p c is s

/-- The file part of `fork` in `p`: `child` is the slot `allocproc` gave, `none` when `allocproc` or
`copyuvm` failed. The slot stands in for the child's pid. -/
def forkFiles (s : FState) (p : Fin NPROC) (child : Option (Fin NPROC)) : Except String (FState × ℤ) :=
  match child with
  | none => .ok (s, -1)
  | some c => do
    let s := { s with alive := Function.update s.alive c true }
    let s ← dupLoop p c (List.finRange NOFILE) s
    let s := match s.cwd p with
      | some ip => { idup s ip with cwd := Function.update s.cwd c (some ip) }
      | none => s
    pure (s, (c : ℤ))

/-- `exit`'s loop `if(curproc->ofile[fd]){ fileclose(curproc->ofile[fd]); curproc->ofile[fd] = 0; }`. -/
def closeLoop (p : Fin NPROC) : List (Fin NOFILE) → FState → Except String FState
  | [], s => .ok s
  | fd :: fds, s =>
    match s.ofile p fd with
    | some f => do
      let s ← fileclose s f
      closeLoop p fds (s.setOfile p fd none)
    | none => closeLoop p fds s

/-- `initproc`: `userinit`'s `allocproc` takes the first slot. -/
def initproc : Fin NPROC := ⟨0, NPROC_pos⟩

/-- The file part of `exit` in `p`, which then is a zombie. -/
def exitFiles (s : FState) (p : Fin NPROC) : Except String (FState × ℤ) :=
  if p = initproc then .error "init exiting"
  else do
    let s ← closeLoop p (List.finRange NOFILE) s
    let s := match s.cwd p with
      | some ip => iput s ip
      | none => s
    pure ({ s with cwd := Function.update s.cwd p none, alive := Function.update s.alive p false }, 0)

inductive Call where
  | open (omode : ℤ) (found : Option (ℕ × Bool))
  | dup (fd : ℤ)
  | close (fd : ℤ)
  | pipe (page : Option ℕ)
  | chdir (found : Option (ℕ × Bool))
  | fork (child : Option (Fin NPROC))
  | exit

def step (s : FState) (p : Fin NPROC) : Call → Except String (FState × ℤ)
  | .open omode found => sysOpen s p omode found
  | .dup fd => sysDup s p fd
  | .close fd => sysClose s p fd
  | .pipe page => sysPipe s p page
  | .chdir found => .ok (sysChdir s p found)
  | .fork child => forkFiles s p child
  | .exit => exitFiles s p

/-- What the rest of the kernel guarantees a call: its caller is a live process, `allocproc` hands out
a slot no live process holds, and `kalloc` a page that holds no pipe. -/
def Admissible (s : FState) (p : Fin NPROC) : Call → Prop
  | .fork (some c) => s.alive p = true ∧ s.alive c = false
  | .pipe (some pg) => s.alive p = true ∧ s.pipes pg = none
  | _ => s.alive p = true

/-- After `userinit`: every file slot free, and `initproc` alive with `cwd = namei("/")`. -/
def boot : FState where
  files := fun _ => ⟨.FD_NONE, 0, false⟩
  ofile := fun _ _ => none
  cwd := fun q => if q = initproc then some ROOTINO else none
  alive := fun q => q = initproc
  pipes := fun _ => none
  iref := fun ip => if ip = ROOTINO then 1 else 0

inductive Reachable : FState → Prop where
  | boot : Reachable boot
  | step {s s' : FState} {p : Fin NPROC} {c : Call} {r : ℤ} :
      Reachable s → Admissible s p c → step s p c = .ok (s', r) → Reachable s'

section Accounts

/-- The pipe end a file is: its pipe and whether it is the write end. -/
def File.pipeEnd (x : File) : Option (ℕ × Bool) :=
  match x.type with
  | .FD_PIPE pg => some (pg, x.writable)
  | _ => none

/-- The number of descriptors, over all processes, that name file `f`. -/
def descs (s : FState) (f : Fin NFILE) : ℕ := countAt (uncurried s.ofile) (some f)

/-- The references to `ip` this layer holds: the open files on `ip` and the working directories at
`ip`. -/
def holders (s : FState) (ip : ℕ) : ℕ :=
  countAt (File.type ∘ s.files) (.FD_INODE ip) + countAt s.cwd (some ip)

/-- The files that are end `w` of the pipe in page `pg`. -/
def endHolders (s : FState) (pg : ℕ) (w : Bool) : ℕ := countAt (File.pipeEnd ∘ s.files) (some (pg, w))

/-- 1 when page `pg` holds a pipe whose end `w` is open. -/
def openEnds (s : FState) (pg : ℕ) (w : Bool) : ℕ :=
  match s.pipes pg with
  | none => 0
  | some e => if (if w then e.writeopen else e.readopen) then 1 else 0

/-- The layer's accounts while the running call holds `held f` references to file `f` and `hold ip`
to inode `ip` in its local variables; between calls both are zero. Each count the kernel keeps is
the number of holders the layer has: `f->ref` of the descriptors, `ip->ref` of the open files and
working directories, and `readopen`, `writeopen` of the files that are that end. -/
structure Acct (s : FState) (held : Fin NFILE → ℕ) (hold : ℕ → ℕ) : Prop where
  ref_eq : ∀ f, (s.files f).ref = descs s f + held f
  free_none : ∀ f, (s.files f).ref = 0 → (s.files f).type = .FD_NONE
  dead : ∀ q, s.alive q = false → (∀ fd, s.ofile q fd = none) ∧ s.cwd q = none
  ends_eq : ∀ pg w, endHolders s pg w = openEnds s pg w
  pipe_used : ∀ pg e, s.pipes pg = some e → e.readopen = true ∨ e.writeopen = true
  iref_eq : ∀ ip, s.iref ip = holders s ip + hold ip

/-- The invariant between calls. -/
def Inv (s : FState) : Prop := Acct s 0 0

variable {s t : FState} {held held' : Fin NFILE → ℕ} {hold hold' : ℕ → ℕ}

/-! How one update changes each count. -/

lemma descs_setFile (s : FState) (f : Fin NFILE) (x : File) (g : Fin NFILE) : descs (s.setFile f x) g = descs s g :=
  rfl

lemma descs_setOfile (s : FState) (p : Fin NPROC) (i : Fin NOFILE) (v : Option (Fin NFILE)) (g : Fin NFILE) :
    descs (s.setOfile p i v) g + (if s.ofile p i = some g then 1 else 0) = descs s g + (if v = some g then 1 else 0) := by
  unfold descs FState.setOfile
  rw [uncurried_update]
  exact countAt_update _ (p, i) v (some g)

lemma holders_setFile (s : FState) (f : Fin NFILE) (x : File) (ip : ℕ) :
    holders (s.setFile f x) ip + (if (s.files f).type = .FD_INODE ip then 1 else 0) =
      holders s ip + (if x.type = .FD_INODE ip then 1 else 0) := by
  have h := countAt_update (File.type ∘ s.files) f x.type (.FD_INODE ip)
  simp only [holders, FState.setFile_files, FState.setFile_cwd, Function.comp_update, Function.comp_apply] at h ⊢
  omega

lemma holders_setCwd (s : FState) (p : Fin NPROC) (v : Option ℕ) (ip : ℕ) :
    holders { s with cwd := Function.update s.cwd p v } ip + (if s.cwd p = some ip then 1 else 0) =
      holders s ip + (if v = some ip then 1 else 0) := by
  have h := countAt_update s.cwd p v (some ip)
  simp only [holders] at h ⊢
  omega

lemma endHolders_setFile (s : FState) (f : Fin NFILE) (x : File) (pg : ℕ) (w : Bool) :
    endHolders (s.setFile f x) pg w + (if (s.files f).pipeEnd = some (pg, w) then 1 else 0) =
      endHolders s pg w + (if x.pipeEnd = some (pg, w) then 1 else 0) := by
  have h := countAt_update (File.pipeEnd ∘ s.files) f x.pipeEnd (some (pg, w))
  simpa only [endHolders, FState.setFile_files, Function.comp_update, Function.comp_apply] using h

lemma Acct.of_refs (ha : Acct s held hold)
    (hk : ∀ g, (t.files g).type = (s.files g).type ∧ (t.files g).writable = (s.files g).writable)
    (ho : ∀ q, t.alive q = false → t.ofile q = s.ofile q) (hc : t.cwd = s.cwd) (hal : t.alive = s.alive)
    (hp : t.pipes = s.pipes) (hi : t.iref = s.iref) (href : ∀ g, (t.files g).ref = descs t g + held' g)
    (hfree : ∀ g, (t.files g).ref = 0 → (t.files g).type = .FD_NONE) : Acct t held' hold where
  ref_eq := href
  free_none := hfree
  dead q hq := by
    rw [ho q hq, hc]
    exact ha.dead q (hal ▸ hq)
  ends_eq pg w := by
    have hend : ∀ g, (t.files g).pipeEnd = (s.files g).pipeEnd := fun g => by
      simp only [File.pipeEnd, (hk g).1, (hk g).2]
    simp only [endHolders, openEnds, Function.comp_def, hend, hp]
    exact ha.ends_eq pg w
  pipe_used pg e he := ha.pipe_used pg e (hp ▸ he)
  iref_eq ip := by
    have htype : ∀ g, (t.files g).type = (s.files g).type := fun g => (hk g).1
    rw [hi, ha.iref_eq ip]
    simp only [holders, Function.comp_def, hc, htype]

lemma Acct.setRef (ha : Acct s held hold) {f : Fin NFILE} {n : ℕ} (hn : n = descs s f + held' f)
    (hrest : ∀ g, g ≠ f → held' g = held g) (hzero : n = 0 → (s.files f).type = .FD_NONE) :
    Acct (s.setFile f { s.files f with ref := n }) held' hold := by
  refine ha.of_refs (fun g => ?_) (fun _ _ => rfl) rfl rfl rfl rfl (fun g => ?_) (fun g => ?_)
  · by_cases hg : g = f
    · subst hg
      simp
    · simp [Function.update_of_ne hg]
  · by_cases hg : g = f
    · subst hg
      simpa [descs_setFile] using hn
    · simpa [Function.update_of_ne hg, descs_setFile, hrest g hg] using ha.ref_eq g
  · by_cases hg : g = f
    · subst hg
      simpa using hzero
    · simpa [Function.update_of_ne hg] using ha.free_none g

lemma Acct.held_eq (ha : Acct s held hold) (h : ∀ g, held g = held' g) : Acct s held' hold :=
  funext h ▸ ha

end Accounts

section Primitives

variable {s t : FState} {held : Fin NFILE → ℕ} {hold : ℕ → ℕ} {p : Fin NPROC} {f : Fin NFILE}

lemma filealloc_some {i : Fin NFILE} (h : filealloc s = some (i, t)) :
    (s.files i).ref = 0 ∧ t = s.setFile i { s.files i with ref := 1 } := by
  unfold filealloc at h
  split at h
  · rename_i g hg
    obtain ⟨rfl, rfl⟩ := Prod.mk.inj (Option.some.inj h)
    exact ⟨by simpa using List.find?_some hg, rfl⟩
  · cases h

lemma fdalloc_some {fd : Fin NOFILE} (h : fdalloc s p f = some (fd, t)) :
    s.ofile p fd = none ∧ t = s.setOfile p fd (some f) := by
  unfold fdalloc at h
  split at h
  · rename_i g hg
    obtain ⟨rfl, rfl⟩ := Prod.mk.inj (Option.some.inj h)
    exact ⟨by simpa using List.find?_some hg, rfl⟩
  · cases h

lemma argfd_some {fd : ℤ} {i : Fin NOFILE} (h : argfd s p fd = some (i, f)) : s.ofile p i = some f := by
  unfold argfd at h
  split at h
  · cases h
  · split at h
    · obtain ⟨rfl, rfl⟩ := Prod.mk.inj (Option.some.inj h)
      assumption
    · cases h

lemma pipeclose_eq (s : FState) (pg : ℕ) (w : Bool) : pipeclose s pg w = { s with pipes := (pipeclose s pg w).pipes } := by
  unfold pipeclose
  split
  · rfl
  · dsimp only
    split_ifs <;> rfl

@[simp] lemma pipeclose_files (s : FState) (pg : ℕ) (w : Bool) : (pipeclose s pg w).files = s.files := by
  rw [pipeclose_eq]
@[simp] lemma pipeclose_ofile (s : FState) (pg : ℕ) (w : Bool) : (pipeclose s pg w).ofile = s.ofile := by
  rw [pipeclose_eq]
@[simp] lemma pipeclose_cwd (s : FState) (pg : ℕ) (w : Bool) : (pipeclose s pg w).cwd = s.cwd := by
  rw [pipeclose_eq]
@[simp] lemma pipeclose_alive (s : FState) (pg : ℕ) (w : Bool) : (pipeclose s pg w).alive = s.alive := by
  rw [pipeclose_eq]
@[simp] lemma pipeclose_iref (s : FState) (pg : ℕ) (w : Bool) : (pipeclose s pg w).iref = s.iref := by
  rw [pipeclose_eq]

lemma pipeclose_pipes_of_ne (s : FState) {pg pg' : ℕ} (w : Bool) (h : pg' ≠ pg) :
    (pipeclose s pg w).pipes pg' = s.pipes pg' := by
  unfold pipeclose
  split
  · rfl
  · dsimp only
    split_ifs <;> simp [Function.update_of_ne h]

lemma openEnds_pipeclose (s : FState) (pg : ℕ) (w : Bool) (pg' : ℕ) (w' : Bool) :
    openEnds (pipeclose s pg w) pg' w' = if pg' = pg ∧ w' = w then 0 else openEnds s pg' w' := by
  by_cases hpg : pg' = pg
  · subst hpg
    unfold openEnds pipeclose
    cases hp : s.pipes pg' with
    | none => simp [hp]
    | some e =>
      obtain ⟨r, wo⟩ := e
      cases w <;> cases w' <;> cases r <;> cases wo <;> simp
  · rw [if_neg (fun h => hpg h.1)]
    simp only [openEnds, pipeclose_pipes_of_ne s w hpg]

lemma pipeclose_used (h : ∀ pg e, s.pipes pg = some e → e.readopen = true ∨ e.writeopen = true) (pg : ℕ)
    (w : Bool) : ∀ pg' e, (pipeclose s pg w).pipes pg' = some e → e.readopen = true ∨ e.writeopen = true := by
  intro pg' e he
  by_cases hpg : pg' = pg
  · subst hpg
    unfold pipeclose at he
    cases hp : s.pipes pg' with
    | none => simp [hp] at he
    | some e0 =>
      obtain ⟨r, wo⟩ := e0
      simp only [hp] at he
      -- the pipe stays only while one of its ends is still open
      cases w <;> cases r <;> cases wo <;> simp at he <;> simp [← he]
  · exact h pg' e (by rwa [pipeclose_pipes_of_ne s w hpg] at he)

lemma Acct.alloc (ha : Acct s held hold) (hf : (s.files f).ref = 0) :
    Acct (s.setFile f { s.files f with ref := 1 }) (Function.update held f 1) hold := by
  have hr := ha.ref_eq f
  refine ha.setRef ?_ (fun g hg => Function.update_of_ne hg _ _) (by simp)
  simp only [Function.update_self]
  omega

lemma Acct.dup (ha : Acct s held hold) (hf : 1 ≤ (s.files f).ref) :
    Acct (s.setFile f { s.files f with ref := (s.files f).ref + 1 }) (Function.update held f (held f + 1)) hold := by
  have hr := ha.ref_eq f
  refine ha.setRef ?_ (fun g hg => Function.update_of_ne hg _ _) (by omega)
  simp only [Function.update_self]
  omega

lemma Acct.install {i : Fin NOFILE} (ha : Acct s held hold) (halive : s.alive p = true) (hi : s.ofile p i = none)
    (hh : 1 ≤ held f) : Acct (s.setOfile p i (some f)) (Function.update held f (held f - 1)) hold := by
  refine ha.of_refs (fun _ => ⟨rfl, rfl⟩) (fun q hq => ?_) rfl rfl rfl rfl (fun g => ?_) ha.free_none
  · have hqp : q ≠ p := by
      rintro rfl
      simp_all
    simp [FState.setOfile, Function.update_of_ne hqp]
  · have hd := descs_setOfile s p i (some f) g
    have hr := ha.ref_eq g
    rw [hi] at hd
    by_cases hg : g = f
    · subst hg
      simp only [FState.setOfile_files, Function.update_self] at hd ⊢
      simp at hd
      omega
    · simp only [FState.setOfile_files, Function.update_of_ne hg] at hd ⊢
      simp [Ne.symm hg] at hd
      omega

lemma Acct.uninstall {i : Fin NOFILE} (ha : Acct s held hold) (hi : s.ofile p i = some f) :
    Acct (s.setOfile p i none) (Function.update held f (held f + 1)) hold := by
  refine ha.of_refs (fun _ => ⟨rfl, rfl⟩) (fun q hq => ?_) rfl rfl rfl rfl (fun g => ?_) ha.free_none
  · have hqp : q ≠ p := by
      rintro rfl
      simp [(ha.dead q hq).1 i] at hi
    simp [FState.setOfile, Function.update_of_ne hqp]
  · have hd := descs_setOfile s p i none g
    have hr := ha.ref_eq g
    rw [hi] at hd
    by_cases hg : g = f
    · subst hg
      simp only [FState.setOfile_files, Function.update_self] at hd ⊢
      simp at hd
      omega
    · simp only [FState.setOfile_files, Function.update_of_ne hg] at hd ⊢
      simp [Ne.symm hg] at hd
      omega

end Primitives

section Close

variable {s t : FState} {held : Fin NFILE → ℕ} {hold : ℕ → ℕ} {f : Fin NFILE}

lemma openEnds_le_one (s : FState) (pg : ℕ) (w : Bool) : openEnds s pg w ≤ 1 := by
  unfold openEnds
  split
  · simp
  · split_ifs <;> simp

lemma Acct.idup (ha : Acct s held hold) (ip : ℕ) : Acct (idup s ip) held (Function.update hold ip (hold ip + 1)) :=
  { ha with
    iref_eq := fun ip' => by
      by_cases h : ip' = ip
      · subst h
        simp [FileTable.idup, holders, ha.iref_eq ip']
        omega
      · simp [FileTable.idup, holders, Function.update_of_ne h, ha.iref_eq ip'] }

lemma Acct.iput (ha : Acct s held hold) (ip : ℕ) (hh : 1 ≤ hold ip) :
    Acct (iput s ip) held (Function.update hold ip (hold ip - 1)) :=
  { ha with
    iref_eq := fun ip' => by
      by_cases h : ip' = ip
      · subst h
        simp [FileTable.iput, holders, ha.iref_eq ip']
        omega
      · simp [FileTable.iput, holders, Function.update_of_ne h, ha.iref_eq ip'] }

section Freed

variable (ha : Acct s held hold) (h1 : (s.files f).ref = 1) (hh : held f = 1)
include ha h1 hh

/-! The last reference to `f` goes: `fileclose` sets `f->ref = 0` and `f->type = FD_NONE`, keeping
the pipe end or the inode in its local copy `ff`. -/

lemma Acct.freed_ref (g : Fin NFILE) :
    ((s.setFile f { s.files f with ref := 0, type := .FD_NONE }).files g).ref =
      descs s g + Function.update held f 0 g := by
  have hr := ha.ref_eq g
  by_cases hg : g = f
  · subst hg
    simp only [FState.setFile_files, Function.update_self]
    omega
  · simp [Function.update_of_ne hg, hr]

lemma Acct.freed_none (g : Fin NFILE) :
    ((s.setFile f { s.files f with ref := 0, type := .FD_NONE }).files g).ref = 0 →
      ((s.setFile f { s.files f with ref := 0, type := .FD_NONE }).files g).type = .FD_NONE := by
  by_cases hg : g = f
  · subst hg
    simp
  · simpa [Function.update_of_ne hg] using ha.free_none g

lemma Acct.freeNone (ht : (s.files f).type = .FD_NONE) :
    Acct (s.setFile f { s.files f with ref := 0, type := .FD_NONE }) (Function.update held f 0) hold := by
  have hr := ha.ref_eq f
  rw [← ht]
  exact ha.setRef (by simp; omega) (fun g hg => Function.update_of_ne hg _ _) (fun _ => ht)

lemma Acct.freeInode {ip : ℕ} (ht : (s.files f).type = .FD_INODE ip) :
    Acct (s.setFile f { s.files f with ref := 0, type := .FD_NONE }) (Function.update held f 0)
      (Function.update hold ip (hold ip + 1)) where
  ref_eq := ha.freed_ref h1 hh
  free_none := ha.freed_none h1 hh
  dead := ha.dead
  ends_eq pg w := by
    have he := endHolders_setFile s f { s.files f with ref := 0, type := .FD_NONE } pg w
    simp only [File.pipeEnd, ht] at he
    simp only [reduceCtorEq, if_false, add_zero] at he
    rw [he]
    exact ha.ends_eq pg w
  pipe_used := ha.pipe_used
  iref_eq ip' := by
    have hc := holders_setFile s f { s.files f with ref := 0, type := .FD_NONE } ip'
    have hi := ha.iref_eq ip'
    by_cases h : ip' = ip
    · subst h
      simp only [ht, if_true, reduceCtorEq, if_false, add_zero] at hc
      simp only [FState.setFile_iref, Function.update_self]
      omega
    · have hne : FdType.FD_INODE ip ≠ .FD_INODE ip' := fun h' => h (FdType.FD_INODE.inj h').symm
      simp only [ht, hne, reduceCtorEq, if_false, add_zero] at hc
      simp only [FState.setFile_iref, Function.update_of_ne h]
      omega

lemma Acct.closePipe {pg : ℕ} (ht : (s.files f).type = .FD_PIPE pg) :
    Acct (pipeclose (s.setFile f { s.files f with ref := 0, type := .FD_NONE }) pg (s.files f).writable)
      (Function.update held f 0) hold where
  ref_eq g := by simpa [descs] using ha.freed_ref h1 hh g
  free_none g := by simpa using ha.freed_none h1 hh g
  dead q hq := by simpa using ha.dead q (by simpa using hq)
  ends_eq pg' w' := by
    have he := endHolders_setFile s f { s.files f with ref := 0, type := .FD_NONE } pg' w'
    have hs := ha.ends_eq pg' w'
    have hend : (s.files f).pipeEnd = some (pg, (s.files f).writable) := by simp [File.pipeEnd, ht]
    have hsame : endHolders (pipeclose (s.setFile f { s.files f with ref := 0, type := .FD_NONE }) pg
        (s.files f).writable) pg' w' = endHolders (s.setFile f { s.files f with ref := 0, type := .FD_NONE }) pg' w' := by
      simp [endHolders]
    have hnew : File.pipeEnd { s.files f with ref := 0, type := .FD_NONE } = none := rfl
    rw [hsame, openEnds_pipeclose]
    rw [hend, hnew] at he
    simp only [reduceCtorEq, if_false, add_zero] at he
    by_cases hx : pg' = pg ∧ w' = (s.files f).writable
    · obtain ⟨rfl, rfl⟩ := hx
      have hle := openEnds_le_one s pg' (s.files f).writable
      simp only [if_true, and_self] at he ⊢
      have : openEnds (s.setFile f { s.files f with ref := 0, type := .FD_NONE }) pg' (s.files f).writable =
        openEnds s pg' (s.files f).writable := rfl
      omega
    · have hne : some (pg, (s.files f).writable) ≠ some (pg', w') := by
        rintro h
        obtain ⟨rfl, rfl⟩ := Prod.mk.inj (Option.some.inj h)
        exact hx ⟨rfl, rfl⟩
      rw [if_neg hne, add_zero] at he
      rw [if_neg hx]
      have hop : openEnds (s.setFile f { s.files f with ref := 0, type := .FD_NONE }) pg' w' = openEnds s pg' w' := rfl
      dsimp only at he hop ⊢
      omega
  pipe_used := pipeclose_used (fun pg e he => ha.pipe_used pg e (by simpa using he)) _ _
  iref_eq ip := by
    have hc := holders_setFile s f { s.files f with ref := 0, type := .FD_NONE } ip
    simp only [ht, reduceCtorEq, if_false, add_zero] at hc
    have hsame : holders (pipeclose (s.setFile f { s.files f with ref := 0, type := .FD_NONE }) pg
        (s.files f).writable) ip = holders (s.setFile f { s.files f with ref := 0, type := .FD_NONE }) ip := by
      simp [holders]
    simp only [pipeclose_iref, FState.setFile_iref, hsame, hc]
    exact ha.iref_eq ip

end Freed

lemma Acct.release (ha : Acct s held hold) (hh : 1 ≤ held f) (hc : fileclose s f = .ok t) :
    Acct t (Function.update held f (held f - 1)) hold := by
  have hr := ha.ref_eq f
  unfold fileclose at hc
  dsimp only at hc
  rw [if_neg (by omega)] at hc
  by_cases hlast : (s.files f).ref - 1 > 0
  · rw [if_pos hlast] at hc
    cases hc
    exact ha.setRef (by simp; omega) (fun g hg => Function.update_of_ne hg _ _) (by omega)
  · rw [if_neg hlast] at hc
    have h1 : (s.files f).ref = 1 := by omega
    have hheld : held f = 1 := by omega
    rw [hheld, Nat.sub_self]
    split at hc
    · rename_i pg ht
      cases hc
      exact ha.closePipe h1 hheld ht
    · rename_i ip ht
      cases hc
      have hput := (ha.freeInode h1 hheld ht).iput ip (by simp)
      simpa using hput
    · rename_i ht
      cases hc
      exact ha.freeNone h1 hheld ht

lemma filedup_of_pos (h : 1 ≤ (s.files f).ref) :
    filedup s f = .ok (s.setFile f { s.files f with ref := (s.files f).ref + 1 }) := by
  unfold filedup
  rw [if_neg (by omega)]

lemma fileclose_ok_of_pos (h : 1 ≤ (s.files f).ref) : ∃ t, fileclose s f = .ok t := by
  unfold fileclose
  dsimp only
  rw [if_neg (by omega)]
  split_ifs
  · exact ⟨_, rfl⟩
  · split <;> exact ⟨_, rfl⟩

end Close

section Moves

variable {s t : FState} {held : Fin NFILE → ℕ} {hold hold' : ℕ → ℕ} {p : Fin NPROC} {f : Fin NFILE}

lemma descs_pos {q : Fin NPROC} {i : Fin NOFILE} (h : s.ofile q i = some f) : 0 < descs s f :=
  countAt_pos.mpr ⟨(q, i), h⟩

lemma Acct.ref_pos (ha : Acct s held hold) {q : Fin NPROC} {i : Fin NOFILE} (h : s.ofile q i = some f) :
    1 ≤ (s.files f).ref := by
  have := descs_pos h
  have := ha.ref_eq f
  omega

lemma Acct.release_ok (ha : Acct s held hold) (hh : 1 ≤ held f) :
    ∃ t, fileclose s f = .ok t ∧ Acct t (Function.update held f (held f - 1)) hold := by
  have hr := ha.ref_eq f
  obtain ⟨t, ht⟩ := fileclose_ok_of_pos (s := s) (f := f) (by omega)
  exact ⟨t, ht, ha.release hh ht⟩

lemma fileclose_frame (h : fileclose s f = .ok t) : t.ofile = s.ofile ∧ t.cwd = s.cwd ∧ t.alive = s.alive := by
  unfold fileclose at h
  dsimp only at h
  split_ifs at h
  · cases h
    exact ⟨rfl, rfl, rfl⟩
  · split at h <;> cases h <;> simp [FileTable.iput]

lemma pipeclose_setOfile (s : FState) (pg : ℕ) (w : Bool) (q : Fin NPROC) (i : Fin NOFILE) (v : Option (Fin NFILE)) :
    pipeclose (s.setOfile q i v) pg w = (pipeclose s pg w).setOfile q i v := by
  unfold pipeclose
  simp only [FState.setOfile_pipes]
  split
  · rfl
  · split_ifs <;> rfl

lemma fileclose_setOfile (s : FState) (f : Fin NFILE) (q : Fin NPROC) (i : Fin NOFILE) (v : Option (Fin NFILE)) :
    fileclose (s.setOfile q i v) f = (fileclose s f).map (·.setOfile q i v) := by
  unfold fileclose
  simp only [FState.setOfile_files]
  by_cases h1 : (s.files f).ref < 1
  · simp only [h1, if_true]
    rfl
  · by_cases h2 : (s.files f).ref - 1 > 0
    · simp only [h1, h2, if_true, if_false]
      rfl
    · simp only [h1, h2, if_false]
      split
      · exact congrArg Except.ok
          (pipeclose_setOfile (s.setFile f { s.files f with ref := 0, type := .FD_NONE }) _ _ q i v)
      · rfl
      · rfl

lemma Acct.setInode (ha : Acct s held hold) (ip : ℕ) (w : Bool) (ht : (s.files f).type = .FD_NONE)
    (hpos : (s.files f).ref ≠ 0) (hh : 1 ≤ hold ip) :
    Acct (s.setFile f { s.files f with type := .FD_INODE ip, writable := w }) held
      (Function.update hold ip (hold ip - 1)) where
  ref_eq g := by
    by_cases hg : g = f
    · subst hg
      simpa [descs_setFile] using ha.ref_eq g
    · simpa [Function.update_of_ne hg, descs_setFile] using ha.ref_eq g
  free_none g := by
    by_cases hg : g = f
    · subst hg
      simp [hpos]
    · simpa [Function.update_of_ne hg] using ha.free_none g
  dead := ha.dead
  ends_eq pg w' := by
    have he := endHolders_setFile s f { s.files f with type := .FD_INODE ip, writable := w } pg w'
    simp only [File.pipeEnd, ht, reduceCtorEq, if_false, add_zero] at he
    rw [he]
    exact ha.ends_eq pg w'
  pipe_used := ha.pipe_used
  iref_eq ip' := by
    have hc := holders_setFile s f { s.files f with type := .FD_INODE ip, writable := w } ip'
    have hi := ha.iref_eq ip'
    simp only [ht, reduceCtorEq, if_false, add_zero] at hc
    by_cases h : ip' = ip
    · subst h
      simp only [if_true, FState.setFile_iref, Function.update_self] at hc ⊢
      omega
    · have hne : FdType.FD_INODE ip ≠ .FD_INODE ip' := fun h' => h (FdType.FD_INODE.inj h').symm
      simp only [hne, if_false, add_zero, FState.setFile_iref, Function.update_of_ne h] at hc ⊢
      omega

lemma Acct.setCwd (ha : Acct s held hold) (v : Option ℕ) (hold' : ℕ → ℕ) (hlive : s.alive p = false → v = none)
    (hh : ∀ ip, hold' ip + (if v = some ip then 1 else 0) = hold ip + (if s.cwd p = some ip then 1 else 0)) :
    Acct { s with cwd := Function.update s.cwd p v } held hold' where
  ref_eq := ha.ref_eq
  free_none := ha.free_none
  dead q hq := by
    refine ⟨(ha.dead q hq).1, ?_⟩
    by_cases hqp : q = p
    · subst hqp
      simpa using hlive hq
    · simpa [Function.update_of_ne hqp] using (ha.dead q hq).2
  ends_eq := ha.ends_eq
  pipe_used := ha.pipe_used
  iref_eq ip := by
    have hc := holders_setCwd s p v ip
    have hi := ha.iref_eq ip
    have := hh ip
    dsimp only
    omega

lemma Acct.revive (ha : Acct s held hold) (c : Fin NPROC) :
    Acct { s with alive := Function.update s.alive c true } held hold :=
  { ha with
    dead := fun q hq => by
      by_cases hqc : q = c
      · subst hqc
        simp at hq
      · exact ha.dead q (by simpa [Function.update_of_ne hqc] using hq) }

lemma Acct.retire (ha : Acct s held hold) (hrow : ∀ fd, s.ofile p fd = none) (hcwd : s.cwd p = none) :
    Acct { s with alive := Function.update s.alive p false } held hold :=
  { ha with
    dead := fun q hq => by
      by_cases hqp : q = p
      · subst hqp
        exact ⟨hrow, hcwd⟩
      · exact ha.dead q (by simpa [Function.update_of_ne hqp] using hq) }

lemma Acct.pipeNew {f0 f1 : Fin NFILE} {pg : ℕ} (ha : Acct s held hold) (hne : f0 ≠ f1)
    (h0 : (s.files f0).type = .FD_NONE) (h1 : (s.files f1).type = .FD_NONE) (p0 : (s.files f0).ref ≠ 0)
    (p1 : (s.files f1).ref ≠ 0) (hpg : s.pipes pg = none) :
    Acct ((({ s with pipes := Function.update s.pipes pg (some ⟨true, true⟩) } : FState).setFile f0
        { s.files f0 with type := .FD_PIPE pg, writable := false }).setFile f1
        { (({ s with pipes := Function.update s.pipes pg (some ⟨true, true⟩) } : FState).setFile f0
          { s.files f0 with type := .FD_PIPE pg, writable := false }).files f1 with
          type := .FD_PIPE pg, writable := true }) held hold := by
  -- the state with the pipe and the read end only
  set s1 : FState := ({ s with pipes := Function.update s.pipes pg (some ⟨true, true⟩) } : FState).setFile f0
    { s.files f0 with type := .FD_PIPE pg, writable := false } with hs1
  have hf1 : s1.files f1 = s.files f1 := by simp [hs1, Function.update_of_ne hne.symm]
  rw [hf1]
  have hfiles : ∀ g, g ≠ f0 → g ≠ f1 → ((s1.setFile f1 { s.files f1 with type := .FD_PIPE pg, writable := true }).files g) =
      s.files g := fun g hg0 hg1 => by simp [hs1, Function.update_of_ne hg0, Function.update_of_ne hg1]
  constructor
  · intro g
    have hr := ha.ref_eq g
    by_cases hg1 : g = f1
    · subst hg1
      simpa [descs, hs1] using hr
    · by_cases hg0 : g = f0
      · subst hg0
        simpa [hs1, descs, Function.update_of_ne hg1] using hr
      · rw [hfiles g hg0 hg1]
        exact hr
  · intro g
    by_cases hg1 : g = f1
    · subst hg1
      simp [p1]
    · by_cases hg0 : g = f0
      · subst hg0
        simp [hs1, Function.update_of_ne hg1, p0]
      · rw [hfiles g hg0 hg1]
        exact ha.free_none g
  · exact ha.dead
  · intro pg' w'
    have e1 := endHolders_setFile s1 f1 { s.files f1 with type := .FD_PIPE pg, writable := true } pg' w'
    have e0 := endHolders_setFile { s with pipes := Function.update s.pipes pg (some ⟨true, true⟩) } f0
      { s.files f0 with type := .FD_PIPE pg, writable := false } pg' w'
    have hs := ha.ends_eq pg' w'
    rw [hf1] at e1
    rw [← hs1] at e0
    simp only [File.pipeEnd, h0, h1, reduceCtorEq, if_false, add_zero] at e0 e1
    have hbase : endHolders { s with pipes := Function.update s.pipes pg (some ⟨true, true⟩) } pg' w' =
      endHolders s pg' w' := rfl
    by_cases hpg' : pg' = pg
    · subst hpg'
      have hzero : openEnds s pg' w' = 0 := by simp [openEnds, hpg]
      have hnew : openEnds (s1.setFile f1 { s.files f1 with type := .FD_PIPE pg', writable := true }) pg' w' = 1 := by
        cases w' <;> simp [openEnds, hs1]
      rw [hnew]
      cases w' <;> simp at e0 e1 <;> dsimp only at e0 e1 hbase ⊢ <;> omega
    · have hsame : openEnds (s1.setFile f1 { s.files f1 with type := .FD_PIPE pg, writable := true }) pg' w' =
          openEnds s pg' w' := by
        simp [openEnds, hs1, Function.update_of_ne hpg']
      have hn : ∀ b : Bool, some (pg, b) ≠ some (pg', w') := fun b h => hpg' (Prod.mk.inj (Option.some.inj h)).1.symm
      simp only [hn, if_false, add_zero] at e0 e1
      rw [hsame]
      dsimp only at e0 e1 hbase ⊢
      omega
  · intro pg' e he
    by_cases hpg' : pg' = pg
    · subst hpg'
      simp [hs1] at he
      simp [← he]
    · exact ha.pipe_used pg' e (by simpa [hs1, Function.update_of_ne hpg'] using he)
  · intro ip
    have c1 := holders_setFile s1 f1 { s.files f1 with type := .FD_PIPE pg, writable := true } ip
    have c0 := holders_setFile { s with pipes := Function.update s.pipes pg (some ⟨true, true⟩) } f0
      { s.files f0 with type := .FD_PIPE pg, writable := false } ip
    rw [hf1] at c1
    rw [← hs1] at c0
    simp only [h0, h1, reduceCtorEq, if_false, add_zero] at c0 c1
    have hbase : holders { s with pipes := Function.update s.pipes pg (some ⟨true, true⟩) } ip = holders s ip := rfl
    have hi := ha.iref_eq ip
    simp only [FState.setFile_iref, hs1] at c0 c1 ⊢
    omega

end Moves

section Calls

variable {s : FState} {p : Fin NPROC}

lemma openFile_acct {ip : ℕ} (omode : ℤ) (ha : Acct s 0 (Function.update 0 ip 1)) (halive : s.alive p = true) :
    ∃ t r, openFile s p omode ip = .ok (t, r) ∧ Inv t := by
  unfold openFile
  split
  · refine ⟨_, _, rfl, ?_⟩
    simpa [Inv] using ha.iput ip (by simp)
  · rename_i f s1 hfa
    obtain ⟨hf0, rfl⟩ := filealloc_some hfa
    have ha1 := ha.alloc hf0
    split
    · -- no descriptor: the new file is closed again and the inode put
      obtain ⟨t, ht, hat⟩ := ha1.release_ok (f := f) (by simp)
      refine ⟨iput t ip, -1, by rw [ht]; rfl, ?_⟩
      simpa [Inv] using hat.iput ip (by simp)
    · rename_i fd s2 hfd
      obtain ⟨hfree, rfl⟩ := fdalloc_some hfd
      have ha2 := ha1.install (f := f) halive hfree (by simp)
      have htype : (((s.setFile f { s.files f with ref := 1 }).setOfile p fd (some f)).files f).type = .FD_NONE := by
        simpa using ha.free_none f hf0
      refine ⟨_, _, rfl, ?_⟩
      simpa [Inv] using ha2.setInode ip _ htype (by simp) (by simp)

lemma sysOpen_acct (omode : ℤ) (found : Option (ℕ × Bool)) (ha : Inv s) (halive : s.alive p = true) :
    ∃ t r, sysOpen s p omode found = .ok (t, r) ∧ Inv t := by
  unfold sysOpen
  cases found with
  | none => exact ⟨s, -1, rfl, ha⟩
  | some x =>
    obtain ⟨ip, isDir⟩ := x
    have ha1 : Acct (idup s ip) 0 (Function.update 0 ip 1) := by simpa using Acct.idup ha ip
    have halive1 : (idup s ip).alive p = true := halive
    dsimp only
    split_ifs
    · exact openFile_acct omode ha1 halive1
    · refine ⟨_, _, rfl, ?_⟩
      simpa [Inv] using ha1.iput ip (by simp)
    · exact openFile_acct omode ha1 halive1

lemma sysDup_acct (fd : ℤ) (ha : Inv s) (halive : s.alive p = true) :
    ∃ t r, sysDup s p fd = .ok (t, r) ∧ Inv t := by
  unfold sysDup
  split
  · exact ⟨s, -1, rfl, ha⟩
  · rename_i i f hfd
    have hof := argfd_some hfd
    split
    · exact ⟨s, -1, rfl, ha⟩
    · rename_i fd' s1 hal
      obtain ⟨hfree, rfl⟩ := fdalloc_some hal
      have hpos := ha.ref_pos hof
      rw [filedup_of_pos (by simpa using hpos)]
      refine ⟨_, _, rfl, ?_⟩
      -- `fdalloc` stores the descriptor before `filedup` raises the count; the two commute
      have h2 := (ha.dup hpos).install (f := f) halive hfree (by simp)
      simp only [Function.update_idem, Function.update_self, Pi.zero_apply, zero_add, Nat.sub_self,
        update_zero_zero] at h2
      exact h2

lemma sysClose_acct (fd : ℤ) (ha : Inv s) : ∃ t r, sysClose s p fd = .ok (t, r) ∧ Inv t := by
  unfold sysClose
  split
  · exact ⟨s, -1, rfl, ha⟩
  · rename_i i f hfd
    obtain ⟨t, ht, hat⟩ := (ha.uninstall (argfd_some hfd)).release_ok (f := f) (by simp)
    refine ⟨t, 0, by rw [ht]; rfl, ?_⟩
    simpa [Inv] using hat

lemma sysChdir_acct (found : Option (ℕ × Bool)) (ha : Inv s) (halive : s.alive p = true) :
    Inv (sysChdir s p found).1 := by
  unfold sysChdir
  cases found with
  | none => exact ha
  | some x =>
    obtain ⟨ip, isDir⟩ := x
    have ha1 : Acct (idup s ip) 0 (Function.update 0 ip 1) := by simpa using ha.idup ip
    dsimp only
    split_ifs
    · simpa [Inv] using ha1.iput ip (by simp)
    · split
      · -- `iput(curproc->cwd)` comes before `curproc->cwd = ip`: the old directory's reference passes
        -- through the call's hands
        rename_i old hcur
        have h2 := ha1.setCwd (p := p) (some ip) (Function.update 0 old 1) (fun h => by simp_all [FileTable.idup])
          (fun x => by
            rw [hcur]
            simp only [Function.update_apply, Pi.zero_apply, Option.some.injEq]
            split_ifs <;> omega)
        have h3 := h2.iput old (by simp)
        simp only [Function.update_idem, Function.update_self, Nat.sub_self, update_zero_zero] at h3
        exact h3
      · rename_i hnone
        exact ha1.setCwd (p := p) (some ip) 0 (fun h => by simp_all [FileTable.idup])
          (fun x => by
            rw [hnone]
            simp only [Function.update_apply, Pi.zero_apply, Option.some.injEq, reduceCtorEq, if_false]
            split_ifs <;> omega)

lemma dupLoop_acct {c : Fin NPROC} (is : List (Fin NOFILE)) :
    ∀ s, Inv s → s.alive c = true → is.Nodup → (∀ i ∈ is, s.ofile c i = none) →
      ∃ t, dupLoop p c is s = .ok t ∧ Inv t ∧ t.alive = s.alive ∧ t.cwd = s.cwd := by
  induction is with
  | nil =>
    intro s ha _ _ _
    exact ⟨s, rfl, ha, rfl, rfl⟩
  | cons i is ih =>
    intro s ha hc hnd hrow
    have hnd' := (List.nodup_cons.mp hnd).2
    cases hf : s.ofile p i with
    | none =>
      obtain ⟨t, ht, hat, hal, hcw⟩ := ih s ha hc hnd' (fun j hj => hrow j (List.mem_cons_of_mem _ hj))
      refine ⟨t, ?_, hat, hal, hcw⟩
      simp only [dupLoop, hf]
      exact ht
    | some f =>
      have hpos := ha.ref_pos hf
      have h1 := (ha.dup hpos).install (f := f) hc (hrow i List.mem_cons_self) (by simp)
      simp only [Function.update_idem, Function.update_self, Pi.zero_apply, zero_add, Nat.sub_self,
        update_zero_zero] at h1
      have hrow1 : ∀ j ∈ is, ((s.setFile f { s.files f with ref := (s.files f).ref + 1 }).setOfile c i (some f)).ofile c j
          = none := fun j hj => by
        have hji : j ≠ i := fun h => (List.nodup_cons.mp hnd).1 (h ▸ hj)
        rw [FState.setOfile_ofile, if_neg (fun h => hji h.2)]
        exact hrow j (List.mem_cons_of_mem _ hj)
      obtain ⟨t, ht, hat, hal, hcw⟩ := ih _ h1 hc hnd' hrow1
      refine ⟨t, ?_, hat, hal, hcw⟩
      simp only [dupLoop, hf]
      rw [filedup_of_pos hpos]
      exact ht

lemma forkFiles_acct (child : Option (Fin NPROC)) (ha : Inv s) (hadm : Admissible s p (.fork child)) :
    ∃ t r, forkFiles s p child = .ok (t, r) ∧ Inv t := by
  cases child with
  | none => exact ⟨s, -1, rfl, ha⟩
  | some c =>
    obtain ⟨-, hc⟩ := hadm
    obtain ⟨hrow, hcwd⟩ := ha.dead c hc
    obtain ⟨t, ht, hat, hal, hcw⟩ := dupLoop_acct (p := p) (List.finRange NOFILE) _ (ha.revive c) (by simp)
      (List.nodup_finRange _) (fun i _ => hrow i)
    unfold forkFiles
    simp only [ht]
    refine ⟨_, _, rfl, ?_⟩
    have htc : t.cwd c = none := by rw [hcw]; exact hcwd
    cases hcp : t.cwd p with
    | none => exact hat
    | some ip =>
      -- `np->cwd = idup(curproc->cwd)`
      exact (hat.idup ip).setCwd (p := c) (some ip) 0 (fun h => by simp_all [FileTable.idup])
        (fun x => by
          rw [show (idup t ip).cwd c = none from htc]
          simp only [Function.update_apply, Pi.zero_apply, Option.some.injEq, reduceCtorEq, if_false]
          split_ifs <;> omega)

lemma closeLoop_acct (fds : List (Fin NOFILE)) : ∀ s, Inv s →
    ∃ t, closeLoop p fds s = .ok t ∧ Inv t ∧ (∀ x, (x ∈ fds ∨ s.ofile p x = none) → t.ofile p x = none) ∧
      t.alive = s.alive ∧ t.cwd = s.cwd := by
  induction fds with
  | nil =>
    intro s ha
    exact ⟨s, rfl, ha, fun x hx => hx.resolve_left (by simp), rfl, rfl⟩
  | cons fd fds ih =>
    intro s ha
    cases hf : s.ofile p fd with
    | none =>
      obtain ⟨t, ht, hat, hrow, hal, hcw⟩ := ih s ha
      refine ⟨t, by simp only [closeLoop, hf]; exact ht, hat, fun x hx => hrow x ?_, hal, hcw⟩
      rcases hx with hx | hx
      · rcases List.mem_cons.mp hx with rfl | hx
        · exact Or.inr hf
        · exact Or.inl hx
      · exact Or.inr hx
    | some f =>
      obtain ⟨t1, ht1, hat1⟩ := (ha.uninstall hf).release_ok (f := f) (by simp)
      -- `fileclose` does not read the descriptor the loop clears after it
      rw [fileclose_setOfile] at ht1
      obtain ⟨s1, hc, rfl⟩ := map_ok ht1
      simp only [Function.update_idem, Function.update_self, Pi.zero_apply, zero_add, Nat.sub_self,
        update_zero_zero] at hat1
      obtain ⟨t, ht, hat, hrow, hal, hcw⟩ := ih _ hat1
      obtain ⟨ho, hcw1, hal1⟩ := fileclose_frame hc
      refine ⟨t, ?_, hat, fun x hx => hrow x ?_, by rw [hal, ← hal1]; rfl, by rw [hcw, ← hcw1]; rfl⟩
      · simp only [closeLoop, hf, hc, ok_bind]
        exact ht
      · rw [FState.setOfile_ofile, ho]
        by_cases hxf : x = fd
        · simp [hxf]
        · rw [if_neg (fun h => hxf h.2)]
          rcases hx with hx | hx
          · exact Or.inl ((List.mem_cons.mp hx).resolve_left hxf)
          · exact Or.inr hx

lemma exitFiles_acct (ha : Inv s) (hinit : p ≠ initproc) : ∃ t r, exitFiles s p = .ok (t, r) ∧ Inv t := by
  obtain ⟨t, ht, hat, hrow, -, -⟩ := closeLoop_acct (p := p) (List.finRange NOFILE) s ha
  have hrow' : ∀ fd, t.ofile p fd = none := fun fd => hrow fd (Or.inl (List.mem_finRange fd))
  unfold exitFiles
  rw [if_neg hinit]
  simp only [ht]
  refine ⟨_, _, rfl, ?_⟩
  cases hc : t.cwd p with
  | none =>
    have h1 := hat.setCwd (p := p) none 0 (fun _ => rfl) (fun x => by simp [hc])
    exact h1.retire hrow' (by simp)
  | some ip =>
    -- `iput(curproc->cwd)` before `curproc->cwd = 0`
    have h1 := hat.setCwd (p := p) none (Function.update 0 ip 1) (fun _ => rfl)
      (fun x => by
        rw [hc]
        simp only [Function.update_apply, Pi.zero_apply, Option.some.injEq, reduceCtorEq, if_false]
        split_ifs <;> omega)
    have h2 := h1.iput ip (by simp)
    simp only [Function.update_idem, Function.update_self, Nat.sub_self, update_zero_zero] at h2
    exact h2.retire hrow' (by simp [FileTable.iput])

lemma Acct.release_pair {f0 f1 : Fin NFILE} {held : Fin NFILE → ℕ} (ha : Acct s held 0) (hne : f0 ≠ f1)
    (hh : ∀ g, held g = (if g = f0 then 1 else 0) + (if g = f1 then 1 else 0)) :
    ∃ t1 t, fileclose s f0 = .ok t1 ∧ fileclose t1 f1 = .ok t ∧ Inv t := by
  obtain ⟨t1, ht1, hat1⟩ := ha.release_ok (f := f0) (by simp [hh])
  obtain ⟨t, ht, hat⟩ := hat1.release_ok (f := f1) (by simp [hh, Function.update_of_ne hne.symm])
  refine ⟨t1, t, ht1, ht, ?_⟩
  have hzero : Function.update (Function.update held f0 (held f0 - 1)) f1
      (Function.update held f0 (held f0 - 1) f1 - 1) = 0 := by
    funext g
    by_cases h1 : g = f1
    · subst h1
      simp [hh, Ne.symm hne]
    · by_cases h0 : g = f0
      · subst h0
        simp [hh, h1]
      · simp [hh, h0, h1]
  rw [hzero] at hat
  exact hat

lemma pipealloc_acct (page : Option ℕ) (ha : Inv s) (hpg : ∀ pg, page = some pg → s.pipes pg = none) :
    ∃ r t, pipealloc s page = .ok (r, t) ∧ t.alive = s.alive ∧ (r = none → Inv t) ∧
      ∀ f0 f1, r = some (f0, f1) → f0 ≠ f1 ∧ Acct t (Function.update (Function.update 0 f0 1) f1 1) 0 := by
  unfold pipealloc
  split
  · exact ⟨none, s, rfl, rfl, fun _ => ha, by simp⟩
  · rename_i f0 s1 hfa0
    obtain ⟨h0, rfl⟩ := filealloc_some hfa0
    have ha1 := ha.alloc h0
    split
    · obtain ⟨t, ht, hat⟩ := ha1.release_ok (f := f0) (by simp)
      refine ⟨none, t, by rw [ht]; rfl, (fileclose_frame ht).2.2, fun _ => by simpa [Inv] using hat, by simp⟩
    · rename_i f1 s2 hfa1
      obtain ⟨h1, rfl⟩ := filealloc_some hfa1
      have hne : f0 ≠ f1 := by
        rintro rfl
        simp at h1
      have ha2 := ha1.alloc h1
      split
      · -- `kalloc` failed: both files are closed again
        obtain ⟨t1, t, ht1, ht, hat⟩ := ha2.release_pair hne (update_update_zero hne)
        refine ⟨none, t, by simp only [ht1, ht, ok_bind, pure, Except.pure], ?_, fun _ => hat, by simp⟩
        rw [(fileclose_frame ht).2.2, (fileclose_frame ht1).2.2]
        rfl
      · rename_i pg
        refine ⟨some (f0, f1), _, rfl, rfl, by simp, fun g0 g1 h => ?_⟩
        obtain ⟨rfl, rfl⟩ : f0 = g0 ∧ f1 = g1 := by simpa using h
        refine ⟨hne, ha2.pipeNew hne ?_ ?_ (by simp [Function.update_of_ne hne]) (by simp) (hpg pg rfl)⟩
        · simpa [Function.update_of_ne hne] using ha.free_none f0 h0
        · simpa [Function.update_of_ne (Ne.symm hne)] using ha.free_none f1 (by simpa [Function.update_of_ne (Ne.symm hne)] using h1)

lemma sysPipe_acct (page : Option ℕ) (ha : Inv s) (hadm : Admissible s p (.pipe page)) :
    ∃ t r, sysPipe s p page = .ok (t, r) ∧ Inv t := by
  have halive : s.alive p = true := by
    cases page with
    | none => exact hadm
    | some pg => exact hadm.1
  have hpg : ∀ pg, page = some pg → s.pipes pg = none := by
    rintro pg rfl
    exact hadm.2
  obtain ⟨r, t, hpa, hal, hnone, hsome⟩ := pipealloc_acct page ha hpg
  have halive' : t.alive p = true := by rw [hal]; exact halive
  unfold sysPipe
  simp only [hpa, ok_bind]
  cases r with
  | none => exact ⟨t, -1, rfl, hnone rfl⟩
  | some x =>
    obtain ⟨rf, wf⟩ := x
    obtain ⟨hne, hat⟩ := hsome rf wf rfl
    have hpair := update_update_zero hne
    simp only
    split
    · obtain ⟨t1, t2, ht1, ht2, hinv⟩ := hat.release_pair hne hpair
      exact ⟨t2, -1, by simp only [ht1, ht2, ok_bind, pure, Except.pure], hinv⟩
    · rename_i fd0 t1 hfd0
      obtain ⟨hfree0, rfl⟩ := fdalloc_some hfd0
      have hat1 := hat.install (f := rf) halive' hfree0 (by simp [Function.update_of_ne hne])
      split
      · -- `myproc()->ofile[fd0] = 0`, then both files are closed
        have hat2 := hat1.uninstall (p := p) (i := fd0) (f := rf) (by simp [FState.setOfile_ofile])
        obtain ⟨t3, t4, ht3, ht4, hinv⟩ := hat2.release_pair hne (fun g => by
          rw [← hpair g]
          rcases eq_or_ne g rf with rfl | h0
          · simp [Function.update_of_ne hne]
          · simp [Function.update_of_ne h0])
        exact ⟨t4, -1, by simp only [ht3, ht4, ok_bind, pure, Except.pure], hinv⟩
      · rename_i fd1 t2 hfd1
        obtain ⟨hfree1, rfl⟩ := fdalloc_some hfd1
        have hat2 := hat1.install (f := wf) halive' hfree1 (by simp [Function.update_of_ne (Ne.symm hne)])
        refine ⟨_, 0, rfl, hat2.held_eq fun g => ?_⟩
        simp only [Function.update_apply, Pi.zero_apply]
        split_ifs <;> simp_all

end Calls

section Runs

variable {s t : FState} {p : Fin NPROC} {c : Call}

lemma Admissible.alive (h : Admissible s p c) : s.alive p = true := by
  unfold Admissible at h
  split at h
  · exact h.1
  · exact h.1
  · exact h

lemma step_acct (ha : Inv s) (hadm : Admissible s p c) (hexit : c = .exit → p ≠ initproc) :
    ∃ t r, step s p c = .ok (t, r) ∧ Inv t := by
  cases c with
  | «open» omode found => exact sysOpen_acct omode found ha hadm.alive
  | dup fd => exact sysDup_acct fd ha hadm.alive
  | close fd => exact sysClose_acct fd ha
  | pipe page => exact sysPipe_acct page ha hadm
  | chdir found => exact ⟨_, _, rfl, sysChdir_acct found ha hadm.alive⟩
  | fork child => exact forkFiles_acct child ha hadm
  | exit => exact exitFiles_acct ha (hexit rfl)

lemma boot_cwd : boot.cwd = Function.update (fun _ => none) initproc (some ROOTINO) := by
  funext q
  by_cases hq : q = initproc
  · subst hq
    simp [boot]
  · simp [boot, hq]

lemma boot_inv : Inv boot where
  ref_eq f := by
    have : descs boot f = 0 := countAt_eq_zero.mpr fun _ => by simp [uncurried, boot]
    rw [this]
    rfl
  free_none _ _ := rfl
  dead q hq := by
    have hq' : q ≠ initproc := by simpa [boot] using hq
    exact ⟨fun _ => rfl, by simp [boot, hq']⟩
  ends_eq pg w := by
    have : endHolders boot pg w = 0 := countAt_eq_zero.mpr fun _ => by simp [boot, File.pipeEnd]
    rw [this]
    rfl
  pipe_used pg e he := by simp [boot] at he
  iref_eq ip := by
    -- only `initproc`'s working directory holds an inode, the root
    have hfiles : countAt (File.type ∘ boot.files) (.FD_INODE ip) = 0 := countAt_eq_zero.mpr fun _ => by simp [boot]
    have hcwd := countAt_update (fun _ : Fin NPROC => (none : Option ℕ)) initproc (some ROOTINO) (some ip)
    have hnone : countAt (fun _ : Fin NPROC => (none : Option ℕ)) (some ip) = 0 := countAt_eq_zero.mpr fun _ => by simp
    rw [← boot_cwd] at hcwd
    simp only [hnone, reduceCtorEq, if_false, add_zero, zero_add, Option.some.injEq] at hcwd
    show (if ip = ROOTINO then 1 else 0) = holders boot ip + 0
    rw [holders, hfiles, hcwd]
    by_cases h : ip = ROOTINO
    · simp [h]
    · simp [h, Ne.symm h]

lemma Reachable.acct (h : Reachable s) : Inv s := by
  induction h with
  | boot => exact boot_inv
  | step _ hadm hstep ih =>
    rename_i s s' p c r _
    have hexit : c = .exit → p ≠ initproc := by
      rintro rfl rfl
      simp [FileTable.step, exitFiles] at hstep
    obtain ⟨t, r', ht, hinv⟩ := step_acct ih hadm hexit
    rw [ht] at hstep
    obtain ⟨rfl, -⟩ := Prod.mk.inj (Except.ok.inj hstep)
    exact hinv

/-- In every state the file layer reaches, each count the kernel keeps matches its holders:
`f->ref` the descriptors naming `f`, `ip->ref` the open files and working directories on `ip`, and
`readopen`, `writeopen` the files that are that end; a free slot is `FD_NONE`, an exited process
holds nothing, and an allocated pipe has an open end. -/
theorem reachable_inv (h : Reachable s) : Inv s := h.acct

/-- `initproc` opens inode 2 and forks: parent and child share the open file. -/
theorem forked_reachable_inv : ∃ s, Reachable s ∧ Inv s := by
  have h1 := Reachable.step .boot (p := initproc) (c := .open 0 (some (2, false))) rfl rfl
  have h2 := Reachable.step h1 (p := initproc) (c := .fork (some ⟨1, by decide⟩)) ⟨rfl, rfl⟩ rfl
  exact ⟨_, h2, reachable_inv h2⟩

/-- The panics `filedup` and `fileclose` never fire: from a reachable state the only admissible call
that fails is `exit` of `initproc`. -/
theorem step_error_init {msg : String} (h : Reachable s) (hadm : Admissible s p c)
    (herr : step s p c = .error msg) : c = .exit ∧ p = initproc ∧ msg = "init exiting" := by
  by_cases hexit : c = .exit ∧ p = initproc
  · obtain ⟨rfl, rfl⟩ := hexit
    simp only [step, exitFiles, if_true, Except.error.injEq] at herr
    exact ⟨rfl, rfl, herr.symm⟩
  · obtain ⟨t, r, ht, -⟩ := step_acct h.acct hadm (fun hc hp => hexit ⟨hc, hp⟩)
    rw [ht] at herr
    cases herr

theorem init_exit_error : Call.exit = .exit ∧ initproc = initproc ∧ "init exiting" = "init exiting" :=
  step_error_init (p := initproc) .boot rfl rfl

end Runs

section Rollback

variable {s t : FState} {f : Fin NFILE}

lemma iput_idup (s : FState) (ip : ℕ) : iput (idup s ip) ip = s := by
  simp [FileTable.iput, FileTable.idup]

lemma fileclose_fresh (hr : (s.files f).ref = 0) (ht : (s.files f).type = .FD_NONE) :
    fileclose (s.setFile f { s.files f with ref := 1 }) f = .ok s := by
  unfold fileclose
  simp only [FState.setFile_files, Function.update_self, ht]
  have hslot : ({ s.files f with ref := 0, type := .FD_NONE } : File) = s.files f := by
    cases hsf : s.files f
    simp_all
  simp only [Nat.lt_irrefl, if_false, Nat.sub_self, gt_iff_lt, FState.setFile]
  simp only [Function.update_idem]
  rw [show ({ type := .FD_NONE, ref := 0, writable := (s.files f).writable } : File) = s.files f from by
    rw [← hslot], Function.update_eq_self]

lemma openFile_fail {ip : ℕ} {p : Fin NPROC} {omode : ℤ} (ha : Inv s)
    (h : openFile (idup s ip) p omode ip = .ok (t, -1)) : t = s := by
  unfold openFile at h
  split at h
  · cases h
    exact iput_idup s ip
  · rename_i f s1 hfa
    obtain ⟨hf0, rfl⟩ := filealloc_some hfa
    split at h
    · -- no descriptor: the fresh file and the inode reference are given back
      rw [fileclose_fresh hf0 (ha.free_none f hf0)] at h
      cases h
      exact iput_idup s ip
    · -- a descriptor is never `-1`
      have hfd := congrArg (fun x => x.2) (Except.ok.inj h)
      simp only at hfd
      omega

/-- A failed `sys_open` leaves the file layer as it found it: the inode reference `namei` or
`create` took is put, and a file slot `filealloc` took is freed again. -/
theorem sysOpen_fail_unchanged (p : Fin NPROC) (omode : ℤ) (found : Option (ℕ × Bool)) (ha : Inv s)
    (h : sysOpen s p omode found = .ok (t, -1)) : t = s := by
  unfold sysOpen at h
  cases found with
  | none =>
    cases h
    rfl
  | some x =>
    obtain ⟨ip, isDir⟩ := x
    dsimp only at h
    split_ifs at h
    · exact openFile_fail ha h
    · cases h
      exact iput_idup s ip
    · exact openFile_fail ha h

theorem open_root_for_writing : iput (idup boot ROOTINO) ROOTINO = boot :=
  sysOpen_fail_unchanged initproc O_RDWR (some (ROOTINO, true)) boot_inv rfl

lemma fdIndex_coe (i : Fin NOFILE) : fdIndex (i : ℤ) = some i := by
  unfold fdIndex
  rw [dif_neg (by omega)]
  simp

/-- `close` of the descriptor `dup` has just returned gives the state back: the descriptor is free
again and the count is where it was. -/
theorem sysClose_sysDup (p : Fin NPROC) (fd : ℤ) {r : ℤ} (h : sysDup s p fd = .ok (t, r)) (hr : r ≠ -1) :
    sysClose t p r = .ok (s, 0) := by
  unfold sysDup at h
  split at h
  · cases h
    exact absurd rfl hr
  · rename_i i f _
    split at h
    · cases h
      exact absurd rfl hr
    · rename_i fd' s1 hfd
      obtain ⟨hfree, rfl⟩ := fdalloc_some hfd
      unfold filedup at h
      split_ifs at h with hpos
      · cases h
      · simp only [Except.map, Except.ok.injEq, Prod.mk.injEq] at h
        obtain ⟨rfl, rfl⟩ := h
        simp only [FState.setOfile_files] at hpos
        have hargfd : ∀ x : File, argfd ((s.setOfile p fd' (some f)).setFile f x) p fd' = some (fd', f) := by
          simp [argfd, fdIndex_coe, FState.setOfile_ofile]
        unfold sysClose
        rw [hargfd]
        -- the count was raised from at least one, so `fileclose` only lowers it
        unfold fileclose
        simp only [FState.setOfile_files, FState.setFile_files, Function.update_self]
        rw [if_neg (by omega), if_pos (by omega)]
        simp only [Except.map, Except.ok.injEq, Prod.mk.injEq, and_true]
        have hrow : Function.update (s.ofile p) fd' none = s.ofile p := by
          rw [← hfree, Function.update_eq_self]
        simp only [FState.setFile, FState.setOfile, Function.update_idem, Function.update_self, hrow,
          Function.update_eq_self, Nat.add_sub_cancel]

theorem dup_then_close : ∃ s t, sysOpen boot initproc O_RDONLY (some (ROOTINO, true)) = .ok (s, 0) ∧
    sysDup s initproc 0 = .ok (t, 1) ∧ sysClose t initproc 1 = .ok (s, 0) :=
  ⟨_, _, rfl, rfl, sysClose_sysDup initproc 0 rfl (by decide)⟩

end Rollback

section ForkExit

variable {s t : FState} {p c : Fin NPROC}

lemma Inv.ref_rows {q : Fin NPROC} {row : Fin NOFILE → Option (Fin NFILE)} (hs : Inv s) (ht : Inv t)
    (hrow : t.ofile = Function.update s.ofile q row) (f : Fin NFILE) :
    (t.files f).ref + countAt (s.ofile q) (some f) = (s.files f).ref + countAt row (some f) := by
  have h := countAt_uncurried_update s.ofile q row (some f)
  have hnew := ht.ref_eq f
  have hold := hs.ref_eq f
  simp only [descs, hrow, Pi.zero_apply, add_zero] at hnew hold
  omega

lemma dupLoop_ofile (is : List (Fin NOFILE)) : ∀ s t, dupLoop p c is s = .ok t →
    t.ofile = Function.update s.ofile c fun i => if i ∈ is ∧ s.ofile p i ≠ none then s.ofile p i else s.ofile c i := by
  induction is with
  | nil =>
    intro s t h
    cases h
    simp
  | cons i is ih =>
    intro s t h
    cases hf : s.ofile p i with
    | none =>
      simp only [dupLoop, hf] at h
      rw [ih s t h]
      congr 1
      funext j
      by_cases hj : j = i
      · subst hj
        simp [hf]
      · simp [hj]
    | some f =>
      simp only [dupLoop, hf] at h
      obtain ⟨s1, hd, h⟩ := bind_ok h
      have hs1 : s1.ofile = s.ofile := by
        unfold filedup at hd
        split_ifs at hd
        cases hd
        rfl
      rw [ih _ t h]
      funext q j
      by_cases hq : q = c
      · subst hq
        by_cases hj : j = i
        · subst hj
          simp [FState.setOfile_ofile, hs1, hf]
        · simp [FState.setOfile_ofile, hs1, hj]
      · simp [FState.setOfile_ofile, hs1, hq]

lemma closeLoop_ofile (fds : List (Fin NOFILE)) : ∀ s t, closeLoop p fds s = .ok t →
    ∀ q i, t.ofile q i = if q = p ∧ i ∈ fds then none else s.ofile q i := by
  induction fds with
  | nil =>
    intro s t h
    cases h
    simp
  | cons fd fds ih =>
    intro s t h q i
    cases hf : s.ofile p fd with
    | none =>
      simp only [closeLoop, hf] at h
      rw [ih s t h]
      by_cases hq : q = p
      · subst hq
        by_cases hi : i = fd
        · subst hi
          simp [hf]
        · simp [hi]
      · simp [hq]
    | some f =>
      simp only [closeLoop, hf] at h
      obtain ⟨s1, hc, h⟩ := bind_ok h
      rw [ih _ t h, FState.setOfile_ofile, (fileclose_frame hc).1]
      by_cases hq : q = p
      · subst hq
        by_cases hi : i = fd <;> simp [hi]
      · simp [hq]

/-- `fork` gives the child a copy of the parent's descriptors and its working directory, leaves
every other row alone, and raises each file's count by the number of the parent's descriptors that
name it. -/
theorem forkFiles_spec {r : ℤ} (ha : Inv s) (hadm : Admissible s p (.fork (some c)))
    (h : forkFiles s p (some c) = .ok (t, r)) :
    (∀ q i, t.ofile q i = if q = c then s.ofile p i else s.ofile q i) ∧ t.cwd c = s.cwd p ∧
      t.alive c = true ∧ r = c ∧ ∀ f, (t.files f).ref = (s.files f).ref + countAt (s.ofile p) (some f) := by
  obtain ⟨hrow, hcwd⟩ := ha.dead c hadm.2
  have hinv : Inv t := by
    obtain ⟨t', r', ht', hinv⟩ := forkFiles_acct (some c) ha hadm
    rw [ht'] at h
    obtain ⟨rfl, -⟩ := Prod.mk.inj (Except.ok.inj h)
    exact hinv
  obtain ⟨t1, ht1, -, hal, hcw⟩ := dupLoop_acct (p := p) (List.finRange NOFILE) _ (ha.revive c) (by simp)
    (List.nodup_finRange _) (fun i _ => hrow i)
  have hcw1 : t1.cwd = s.cwd := hcw
  unfold forkFiles at h
  simp only [ht1, ok_bind, pure, Except.pure, Except.ok.injEq, Prod.mk.injEq] at h
  obtain ⟨rfl, rfl⟩ := h
  -- the child's row was empty, so it is now the parent's
  have hofile : (match t1.cwd p with
      | some ip => { idup t1 ip with cwd := Function.update t1.cwd c (some ip) }
      | none => t1).ofile = Function.update s.ofile c (s.ofile p) := by
    have hsame : (match t1.cwd p with
        | some ip => { idup t1 ip with cwd := Function.update t1.cwd c (some ip) }
        | none => t1).ofile = t1.ofile := by
      split <;> rfl
    rw [hsame, dupLoop_ofile _ _ _ ht1]
    congr 1
    funext i
    by_cases hi : s.ofile p i = none
    · simp [hi, hrow i]
    · simp [hi]
  refine ⟨fun q i => ?_, ?_, ?_, rfl, fun f => ?_⟩
  · rw [hofile]
    by_cases hq : q = c
    · subst hq
      simp
    · simp [hq]
  · cases hcp : t1.cwd p with
    | none =>
      rw [hcw1] at hcp ⊢
      rw [hcp, hcwd]
    | some ip =>
      simp only [Function.update_self]
      rw [← hcp, hcw1]
  · have hal1 : t1.alive c = true := by simp [hal]
    split <;> exact hal1
  · have hempty : countAt (s.ofile c) (some f) = 0 := countAt_eq_zero.mpr fun i => by simp [hrow i]
    have := ha.ref_rows hinv hofile f
    omega

lemma one_lt_NPROC : 1 < NPROC := by decide

theorem fork_of_initproc : ∃ s t r, step boot initproc (.open 0 (some (2, false))) = .ok (s, 0) ∧
    forkFiles s initproc (some ⟨1, one_lt_NPROC⟩) = .ok (t, r) ∧
    (∀ q i, t.ofile q i = if q = ⟨1, one_lt_NPROC⟩ then s.ofile initproc i else s.ofile q i) ∧
    t.cwd ⟨1, one_lt_NPROC⟩ = s.cwd initproc ∧ t.alive ⟨1, one_lt_NPROC⟩ = true ∧
    r = (⟨1, one_lt_NPROC⟩ : Fin NPROC) ∧
    ∀ f, (t.files f).ref = (s.files f).ref + countAt (s.ofile initproc) (some f) := by
  have h1 := Reachable.step .boot (p := initproc) (c := .open 0 (some (2, false))) rfl rfl
  exact ⟨_, _, _, rfl, rfl, forkFiles_spec h1.acct ⟨rfl, rfl⟩ rfl⟩

/-- `exit` clears every descriptor of `p` and its working directory, leaves every other row alone,
and lowers each file's count by the number of `p`'s descriptors that named it. -/
theorem exitFiles_spec {r : ℤ} (ha : Inv s) (h : exitFiles s p = .ok (t, r)) :
    (∀ q i, t.ofile q i = if q = p then none else s.ofile q i) ∧ t.cwd p = none ∧ t.alive p = false ∧
      ∀ f, (t.files f).ref + countAt (s.ofile p) (some f) = (s.files f).ref := by
  have hinit : p ≠ initproc := by
    rintro rfl
    simp [exitFiles] at h
  have hinv : Inv t := by
    obtain ⟨t', r', ht', hinv⟩ := exitFiles_acct ha hinit
    rw [ht'] at h
    obtain ⟨rfl, -⟩ := Prod.mk.inj (Except.ok.inj h)
    exact hinv
  obtain ⟨t1, ht1, -, -, -, -⟩ := closeLoop_acct (p := p) (List.finRange NOFILE) s ha
  have hrows := closeLoop_ofile _ _ _ ht1
  have hlast : t.cwd p = none ∧ t.alive p = false ∧ t.ofile = t1.ofile := by
    unfold exitFiles at h
    simp only [if_neg hinit, ht1, ok_bind, pure, Except.pure, Except.ok.injEq, Prod.mk.injEq] at h
    obtain ⟨rfl, rfl⟩ := h
    refine ⟨by simp, by simp, ?_⟩
    split <;> rfl
  have hof : t.ofile = Function.update s.ofile p (fun _ => none) := by
    rw [hlast.2.2]
    funext q i
    rw [hrows]
    by_cases hq : q = p
    · subst hq
      simp
    · simp [hq]
  refine ⟨fun q i => ?_, hlast.1, hlast.2.1, fun f => ?_⟩
  · rw [hof]
    by_cases hq : q = p
    · subst hq
      simp
    · simp [hq]
  · have hempty : countAt (fun _ : Fin NOFILE => (none : Option (Fin NFILE))) (some f) = 0 :=
      countAt_eq_zero.mpr fun _ => by simp
    have := ha.ref_rows hinv hof f
    omega

/-- `initproc` opens inode 2 and forks; the child exits and gives up its copy of the descriptor. -/
theorem exit_of_forked_child : ∃ s t r, Reachable s ∧ s.ofile ⟨1, one_lt_NPROC⟩ ⟨0, by decide⟩ ≠ none ∧
    exitFiles s ⟨1, one_lt_NPROC⟩ = .ok (t, r) ∧
    (∀ q i, t.ofile q i = if q = ⟨1, one_lt_NPROC⟩ then none else s.ofile q i) ∧ t.cwd ⟨1, one_lt_NPROC⟩ = none ∧
    t.alive ⟨1, one_lt_NPROC⟩ = false ∧
    ∀ f, (t.files f).ref + countAt (s.ofile ⟨1, one_lt_NPROC⟩) (some f) = (s.files f).ref := by
  have h1 := Reachable.step .boot (p := initproc) (c := .open 0 (some (2, false))) rfl rfl
  have h2 := Reachable.step h1 (p := initproc) (c := .fork (some ⟨1, one_lt_NPROC⟩)) ⟨rfl, rfl⟩ rfl
  exact ⟨_, _, _, h2, by decide, rfl, exitFiles_spec h2.acct rfl⟩

end ForkExit

section Procs

/-! The descriptor calls never touch a working directory or the set of live processes; only `chdir`,
`fork` and `exit` do. -/

variable {s t : FState} {p : Fin NPROC} {r : ℤ}

lemma filealloc_procs {f : Fin NFILE} (h : filealloc s = some (f, t)) : t.cwd = s.cwd ∧ t.alive = s.alive := by
  obtain ⟨-, rfl⟩ := filealloc_some h
  exact ⟨rfl, rfl⟩

lemma fdalloc_procs {f : Fin NFILE} {fd : Fin NOFILE} (h : fdalloc s p f = some (fd, t)) :
    t.cwd = s.cwd ∧ t.alive = s.alive := by
  obtain ⟨-, rfl⟩ := fdalloc_some h
  exact ⟨rfl, rfl⟩

lemma fileclose_procs {f : Fin NFILE} (h : fileclose s f = .ok t) : t.cwd = s.cwd ∧ t.alive = s.alive :=
  ⟨(fileclose_frame h).2.1, (fileclose_frame h).2.2⟩

lemma openFile_procs {omode : ℤ} {ip : ℕ} (h : openFile s p omode ip = .ok (t, r)) :
    t.cwd = s.cwd ∧ t.alive = s.alive := by
  unfold openFile at h
  split at h
  · cases h
    exact ⟨rfl, rfl⟩
  · rename_i f s1 hfa
    have h1 := filealloc_procs hfa
    split at h
    · obtain ⟨s2, hc, hs2⟩ := map_ok h
      cases hs2
      have h2 := fileclose_procs hc
      exact ⟨h2.1.trans h1.1, h2.2.trans h1.2⟩
    · rename_i fd s2 hfd
      have h2 := fdalloc_procs hfd
      cases h
      exact ⟨h2.1.trans h1.1, h2.2.trans h1.2⟩

lemma sysOpen_procs {omode : ℤ} {found : Option (ℕ × Bool)} (h : sysOpen s p omode found = .ok (t, r)) :
    t.cwd = s.cwd ∧ t.alive = s.alive := by
  unfold sysOpen at h
  split at h
  · cases h
    exact ⟨rfl, rfl⟩
  · dsimp only at h
    split_ifs at h
    · have h' := openFile_procs h
      exact h'
    · cases h
      exact ⟨rfl, rfl⟩
    · have h' := openFile_procs h
      exact h'

lemma sysDup_procs {fd : ℤ} (h : sysDup s p fd = .ok (t, r)) : t.cwd = s.cwd ∧ t.alive = s.alive := by
  unfold sysDup at h
  split at h
  · cases h
    exact ⟨rfl, rfl⟩
  · rename_i f _
    split at h
    · cases h
      exact ⟨rfl, rfl⟩
    · rename_i fd' s1 hfd
      have h1 := fdalloc_procs hfd
      obtain ⟨s2, hd, hs2⟩ := map_ok h
      cases hs2
      unfold filedup at hd
      split_ifs at hd
      cases hd
      exact h1

lemma sysClose_procs {fd : ℤ} (h : sysClose s p fd = .ok (t, r)) : t.cwd = s.cwd ∧ t.alive = s.alive := by
  unfold sysClose at h
  split at h
  · cases h
    exact ⟨rfl, rfl⟩
  · obtain ⟨s1, hc, hs1⟩ := map_ok h
    cases hs1
    have h' := fileclose_procs hc
    exact h'

lemma fileclose_procs₂ {u v : FState} {f g : Fin NFILE} (h0 : fileclose s f = .ok u) (h1 : fileclose u g = .ok v) :
    v.cwd = s.cwd ∧ v.alive = s.alive :=
  ⟨(fileclose_procs h1).1.trans (fileclose_procs h0).1, (fileclose_procs h1).2.trans (fileclose_procs h0).2⟩

lemma pipealloc_procs {page : Option ℕ} {x : Option (Fin NFILE × Fin NFILE)} (h : pipealloc s page = .ok (x, t)) :
    t.cwd = s.cwd ∧ t.alive = s.alive := by
  unfold pipealloc at h
  split at h
  · cases h
    exact ⟨rfl, rfl⟩
  · rename_i f0 s1 hfa0
    have h1 := filealloc_procs hfa0
    split at h
    · obtain ⟨s2, hc, hs2⟩ := map_ok h
      cases hs2
      have h2 := fileclose_procs hc
      exact ⟨h2.1.trans h1.1, h2.2.trans h1.2⟩
    · rename_i f1 s2 hfa1
      have h2 := filealloc_procs hfa1
      split at h
      · -- `kalloc` failed: both files are closed again
        obtain ⟨s3, hc0, h⟩ := bind_ok h
        obtain ⟨s4, hc1, h⟩ := bind_ok h
        cases h
        have h3 := fileclose_procs₂ hc0 hc1
        exact ⟨h3.1.trans (h2.1.trans h1.1), h3.2.trans (h2.2.trans h1.2)⟩
      · cases h
        exact ⟨h2.1.trans h1.1, h2.2.trans h1.2⟩

lemma sysPipe_procs {page : Option ℕ} (h : sysPipe s p page = .ok (t, r)) : t.cwd = s.cwd ∧ t.alive = s.alive := by
  unfold sysPipe at h
  obtain ⟨⟨rr, s1⟩, hpa, h⟩ := bind_ok h
  have h1 := pipealloc_procs hpa
  dsimp only at h
  split at h
  · cases h
    exact h1
  · rename_i rf wf
    split at h
    · obtain ⟨s2, hc0, h⟩ := bind_ok h
      obtain ⟨s3, hc1, h⟩ := bind_ok h
      cases h
      have h2 := fileclose_procs₂ hc0 hc1
      exact ⟨h2.1.trans h1.1, h2.2.trans h1.2⟩
    · rename_i fd0 s2 hfd0
      have h2 := fdalloc_procs hfd0
      split at h
      · obtain ⟨s3, hc0, h⟩ := bind_ok h
        obtain ⟨s4, hc1, h⟩ := bind_ok h
        cases h
        have h3 := fileclose_procs₂ hc0 hc1
        exact ⟨h3.1.trans (h2.1.trans h1.1), h3.2.trans (h2.2.trans h1.2)⟩
      · rename_i fd1 s3 hfd1
        have h3 := fdalloc_procs hfd1
        cases h
        exact ⟨h3.1.trans (h2.1.trans h1.1), h3.2.trans (h2.2.trans h1.2)⟩

lemma dupLoop_procs {c : Fin NPROC} (is : List (Fin NOFILE)) : ∀ s t, dupLoop p c is s = .ok t →
    t.cwd = s.cwd ∧ t.alive = s.alive := by
  induction is with
  | nil =>
    intro s t h
    cases h
    exact ⟨rfl, rfl⟩
  | cons i is ih =>
    intro s t h
    cases hf : s.ofile p i with
    | none =>
      simp only [dupLoop, hf] at h
      exact ih s t h
    | some f =>
      simp only [dupLoop, hf] at h
      obtain ⟨s1, hd, h⟩ := bind_ok h
      unfold filedup at hd
      split_ifs at hd
      cases hd
      have h' := ih _ t h
      exact h'

lemma closeLoop_procs (fds : List (Fin NOFILE)) : ∀ s t, closeLoop p fds s = .ok t →
    t.cwd = s.cwd ∧ t.alive = s.alive := by
  induction fds with
  | nil =>
    intro s t h
    cases h
    exact ⟨rfl, rfl⟩
  | cons fd fds ih =>
    intro s t h
    cases hf : s.ofile p fd with
    | none =>
      simp only [closeLoop, hf] at h
      exact ih s t h
    | some f =>
      simp only [closeLoop, hf] at h
      obtain ⟨s1, hc, h⟩ := bind_ok h
      have h1 := ih _ t h
      have h2 := fileclose_procs hc
      exact ⟨h1.1.trans h2.1, h1.2.trans h2.2⟩

/-- The calls that may change a working directory or the set of live processes. -/
def Call.changesProcs : Call → Bool
  | .chdir _ | .fork _ | .exit => true
  | _ => false

lemma step_procs {c : Call} (h : step s p c = .ok (t, r)) (hc : c.changesProcs = false) :
    t.cwd = s.cwd ∧ t.alive = s.alive := by
  cases c with
  | «open» omode found => exact sysOpen_procs h
  | dup fd => exact sysDup_procs h
  | close fd => exact sysClose_procs h
  | pipe page => exact sysPipe_procs h
  | chdir found => cases hc
  | fork child => cases hc
  | exit => cases hc

/-- Every live process has a working directory. -/
def LiveCwd (s : FState) : Prop := ∀ q, s.alive q = true → s.cwd q ≠ none

lemma LiveCwd.of_procs (h : LiveCwd s) (ht : t.cwd = s.cwd ∧ t.alive = s.alive) : LiveCwd t := by
  intro q hq
  rw [ht.1]
  exact h q (ht.2 ▸ hq)

lemma sysChdir_live {found : Option (ℕ × Bool)} (h : LiveCwd s) : LiveCwd (sysChdir s p found).1 := by
  unfold sysChdir
  cases found with
  | none => exact h
  | some x =>
    obtain ⟨ip, isDir⟩ := x
    dsimp only
    split_ifs
    · exact h
    · intro q hq
      by_cases hqp : q = p
      · subst hqp
        simp
      · have hq' : s.alive q = true := by
          split at hq <;> exact hq
        have hcwd := h q hq'
        split <;> simpa [Function.update_of_ne hqp, FileTable.iput, FileTable.idup] using hcwd

lemma forkFiles_live {child : Option (Fin NPROC)} (h : LiveCwd s) (hp : s.alive p = true)
    (hf : forkFiles s p child = .ok (t, r)) : LiveCwd t := by
  unfold forkFiles at hf
  cases child with
  | none =>
    cases hf
    exact h
  | some c =>
    obtain ⟨t1, hd, hf⟩ := bind_ok hf
    simp only [pure, Except.pure, Except.ok.injEq, Prod.mk.injEq] at hf
    obtain ⟨rfl, rfl⟩ := hf
    obtain ⟨hcw, hal⟩ := dupLoop_procs _ _ _ hd
    -- the parent is live, so it has a directory for the child to share
    obtain ⟨ip, hip⟩ := Option.ne_none_iff_exists'.mp (h p hp)
    have hip1 : t1.cwd p = some ip := by rw [hcw]; exact hip
    simp only [hip1]
    intro q hq
    by_cases hqc : q = c
    · subst hqc
      simp
    · have hq' : s.alive q = true := by simpa [FileTable.idup, hal, Function.update_of_ne hqc] using hq
      simpa [FileTable.idup, hcw, Function.update_of_ne hqc] using h q hq'

lemma exitFiles_live (h : LiveCwd s) (he : exitFiles s p = .ok (t, r)) : LiveCwd t := by
  unfold exitFiles at he
  split_ifs at he
  obtain ⟨t1, hcl, he⟩ := bind_ok he
  simp only [pure, Except.pure, Except.ok.injEq, Prod.mk.injEq] at he
  obtain ⟨rfl, rfl⟩ := he
  obtain ⟨hcw, hal⟩ := closeLoop_procs _ _ _ hcl
  intro q hq
  by_cases hqp : q = p
  · subst hqp
    simp at hq
  · have hsame : ∀ u : FState, u.cwd = t1.cwd → u.alive = t1.alive →
        ({ u with cwd := Function.update u.cwd p none, alive := Function.update u.alive p false } : FState).alive q =
          true → ({ u with cwd := Function.update u.cwd p none, alive := Function.update u.alive p false } : FState).cwd q
          ≠ none := fun u hu ha hq => by
      simp only [Function.update_of_ne hqp, hu, ha, hcw, hal] at hq ⊢
      exact h q hq
    revert hq
    split <;> exact hsame _ rfl rfl

lemma Reachable.live (h : Reachable s) : LiveCwd s := by
  induction h with
  | boot =>
    intro q hq
    have hq' : q = initproc := by simpa [FileTable.boot] using hq
    simp [FileTable.boot, hq']
  | step _ hadm hstep ih =>
    rename_i s s' p c r _
    cases hc : c.changesProcs
    · exact ih.of_procs (step_procs hstep hc)
    cases c with
    | «open» | dup | close | pipe => cases hc
    | chdir found =>
      have hs' : (sysChdir s p found).1 = s' := congrArg Prod.fst (Except.ok.inj hstep)
      rw [← hs']
      exact sysChdir_live ih
    | fork child => exact forkFiles_live ih hadm.alive hstep
    | exit => exact exitFiles_live ih hstep

/-- Every live process of a reachable state has a working directory, so `fork`'s
`idup(curproc->cwd)` and `exit`'s `iput(curproc->cwd)` never get a null inode; and a call other than
`chdir`, `fork` and `exit` leaves every directory and the set of live processes as they were. -/
theorem reachable_live_cwd (h : Reachable s) :
    (∀ q, s.alive q = true → s.cwd q ≠ none) ∧
      ∀ p c t r, step s p c = .ok (t, r) → c.changesProcs = false → t.cwd = s.cwd ∧ t.alive = s.alive :=
  ⟨h.live, fun _ _ _ _ hs hc => step_procs hs hc⟩

/-- `initproc` opens inode 2 and forks process 1, which has a directory and closes the descriptor
it inherited. -/
theorem initproc_has_cwd :
    ∃ s t r, Reachable s ∧ s.alive ⟨1, one_lt_NPROC⟩ = true ∧ s.cwd ⟨1, one_lt_NPROC⟩ ≠ none ∧
      step s ⟨1, one_lt_NPROC⟩ (.close 0) = .ok (t, r) ∧ t.cwd = s.cwd ∧ t.alive = s.alive := by
  have h1 := Reachable.step .boot (p := initproc) (c := .open 0 (some (2, false))) rfl rfl
  have h2 := Reachable.step h1 (p := initproc) (c := .fork (some ⟨1, one_lt_NPROC⟩)) ⟨rfl, rfl⟩ rfl
  exact ⟨_, _, _, h2, rfl, (reachable_live_cwd h2).1 _ rfl, rfl, (reachable_live_cwd h2).2 ⟨1, one_lt_NPROC⟩ (.close 0) _ _ rfl rfl⟩

end Procs

end Xv6Net.Fs.FileTable
