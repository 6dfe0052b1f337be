import Xv6Net.Fs.Blocks

/-! The file-system namespace of `fs.c` and `sysfile.c`: inodes with their link counts and directory
entries, path lookup (`skipelem`, `namex`), `dirlookup`, `dirlink`, `ialloc`, `iput`, and the system
calls `mkdir`, `open(O_CREATE)`, `link`, `unlink` and `chdir`. The `iget`/`iput` pairs inside one
system call balance; an inode's `ref` here counts the references that outlive the call: the
processes' current directories and open files. -/

namespace Xv6Net.Fs.Namespace

open Xv6Net.Fs.Layout Xv6Net.Fs.Blocks

/-- An inode as its `ilock`ed in-memory copy holds it; a directory's contents are its `dirent`s in
order, a free slot having `inum = 0`. -/
structure DInode where
  type : UInt16
  nlink : ℤ
  ref : ℕ
  dirents : List (List Char × ℕ)

structure Ns where
  inodes : ℕ → DInode
  cwd : ℕ → ℕ

def namecmp (s t : List Char) : Bool := s.take DIRSIZ == t.take DIRSIZ

def dirlookup (dp : DInode) (name : List Char) : Option (ℕ × ℕ) :=
  ((List.range dp.dirents.length).find? fun k =>
      (dp.dirents.getD k ([], 0)).2 != 0 && namecmp name (dp.dirents.getD k ([], 0)).1).map
    fun k => ((dp.dirents.getD k ([], 0)).2, k)

-- The first free slot, or one past the last entry.
def freeSlot (dp : DInode) : ℕ :=
  ((List.range dp.dirents.length).find? fun k => (dp.dirents.getD k ([], 0)).2 == 0).getD dp.dirents.length

def setSlot (ents : List (List Char × ℕ)) (k : ℕ) (e : List Char × ℕ) : List (List Char × ℕ) :=
  if k < ents.length then ents.set k e else ents ++ [e]

def dirlink (dp : DInode) (name : List Char) (inum : ℕ) : Option DInode :=
  match dirlookup dp name with
  | some _ => none
  | none => some { dp with dirents := setSlot dp.dirents (freeSlot dp) (name.take DIRSIZ, inum) }

def skipelem (path : List Char) : Option (List Char × List Char) :=
  let path := path.dropWhile (· == '/')
  if path = [] then none
  else some ((path.takeWhile (· != '/')).take DIRSIZ, (path.dropWhile (· != '/')).dropWhile (· == '/'))

namespace Ns

def update (s : Ns) (i : ℕ) (f : DInode → DInode) : Ns := { s with inodes := Function.update s.inodes i (f (s.inodes i)) }

/-- The walk of `namex` from inode `ip`; each round consumes one element, so the path's length is
enough fuel. With `parent`, stop before the last element and return it. -/
def walk (s : Ns) (parent : Bool) : ℕ → ℕ → List Char → List Char → Option (ℕ × List Char)
  | 0, _, _, _ => none
  | fuel + 1, ip, path, name =>
    match skipelem path with
    | none => if parent then none else some (ip, name)
    | some (name, rest) =>
      if (s.inodes ip).type ≠ T_DIR then none
      else if parent ∧ rest = [] then some (ip, name)
      else match dirlookup (s.inodes ip) name with
        | none => none
        | some (next, _) => s.walk parent fuel next rest name

def namex (s : Ns) (pid : ℕ) (path : List Char) (parent : Bool) : Option (ℕ × List Char) :=
  s.walk parent (path.length + 1) (if path.head? = some '/' then ROOTINO else s.cwd pid) path []

def ialloc (s : Ns) (type : UInt16) : Option (ℕ × Ns) :=
  ((List.range NINODES).find? fun i => i ≠ 0 && (s.inodes i).type == 0).map fun i =>
    (i, s.update i fun ip => { ip with type := type, nlink := 0, dirents := [] })

/-- `iput` of a reference taken inside the call: with no link and no lasting reference the inode
is truncated and freed. -/
def iput (s : Ns) (i : ℕ) : Ns :=
  if (s.inodes i).nlink = 0 ∧ (s.inodes i).ref = 0 then s.update i fun ip => { ip with type := 0, dirents := [] }
  else s

-- `iput` of a lasting reference: it is dropped first.
def drop (s : Ns) (i : ℕ) : Ns := (s.update i fun ip => { ip with ref := ip.ref - 1 }).iput i

def create (s : Ns) (pid : ℕ) (path : List Char) (type : UInt16) : Except String (Option (ℕ × Ns)) :=
  match s.namex pid path true with
  | none => .ok none
  | some (dp, name) =>
    match dirlookup (s.inodes dp) name with
    | some (ip, _) => .ok (if type = T_FILE ∧ (s.inodes ip).type = T_FILE then some (ip, s) else none)
    | none =>
      match s.ialloc type with
      | none => .error "create: ialloc"
      | some (ip, s) =>
        let s := s.update ip fun i => { i with nlink := 1 }
        let dots : Except String Ns :=
          if type = T_DIR then
            let s := s.update dp fun d => { d with nlink := d.nlink + 1 }
            match dirlink (s.inodes ip) ['.'] ip with
            | none => .error "create dots"
            | some i =>
              match dirlink i ['.', '.'] dp with
              | none => .error "create dots"
              | some i => .ok (s.update ip fun _ => i)
          else .ok s
        match dots with
        | .error e => .error e
        | .ok s =>
          match dirlink (s.inodes dp) name ip with
          | none => .error "create: dirlink"
          | some d => .ok (some (ip, s.update dp fun _ => d))

end Ns

inductive Call where
  | mkdir (path : List Char)
  | openCreate (path : List Char)
  | link (old new : List Char)
  | unlink (path : List Char)
  | chdir (path : List Char)

def isdirempty (dp : DInode) : Bool := (dp.dirents.drop 2).all fun e => e.2 == 0

def syscall (s : Ns) (pid : ℕ) : Call → Except String (ℤ × Ns)
  | .mkdir path => do
    match ← s.create pid path T_DIR with
    | none => pure (-1, s)
    | some (_, s) => pure (0, s)
  | .openCreate path => do
    match ← s.create pid path T_FILE with
    | none => pure (-1, s)
    | some (ip, s) => pure (0, s.update ip fun i => { i with ref := i.ref + 1 })
  | .link old new =>
    match s.namex pid old false with
    | none => .ok (-1, s)
    | some (ip, _) =>
      if (s.inodes ip).type = T_DIR then .ok (-1, s)
      else
        let s := s.update ip fun i => { i with nlink := i.nlink + 1 }
        match s.namex pid new true with
        | none => .ok (-1, s.update ip fun i => { i with nlink := i.nlink - 1 })
        | some (dp, name) =>
          match dirlink (s.inodes dp) name ip with
          | none => .ok (-1, s.update ip fun i => { i with nlink := i.nlink - 1 })
          | some d => .ok (0, ((s.update dp fun _ => d).iput dp).iput ip)
  | .unlink path =>
    match s.namex pid path true with
    | none => .ok (-1, s)
    | some (dp, name) =>
      if namecmp name ['.'] ∨ namecmp name ['.', '.'] then .ok (-1, s.iput dp)
      else match dirlookup (s.inodes dp) name with
        | none => .ok (-1, s.iput dp)
        | some (ip, off) =>
          if (s.inodes ip).nlink < 1 then .error "unlink: nlink < 1"
          else if (s.inodes ip).type = T_DIR ∧ !isdirempty (s.inodes ip) then .ok (-1, (s.iput ip).iput dp)
          else
            let s := s.update dp fun d => { d with dirents := d.dirents.set off ([], 0) }
            let s := if (s.inodes ip).type = T_DIR then s.update dp fun d => { d with nlink := d.nlink - 1 } else s
            let s := s.iput dp
            let s := s.update ip fun i => { i with nlink := i.nlink - 1 }
            .ok (0, s.iput ip)
  | .chdir path =>
    match s.namex pid path false with
    | none => .ok (-1, s)
    | some (ip, _) =>
      if (s.inodes ip).type ≠ T_DIR then .ok (-1, s.iput ip)
      else
        let s := (s.update ip fun i => { i with ref := i.ref + 1 }).drop (s.cwd pid)
        .ok (0, { s with cwd := Function.update s.cwd pid ip })

/-! ### Link counts -/

/-- The entries naming inode `i`, other than `.`, in directories that are themselves linked. -/
def linkCount (s : Ns) (i : ℕ) : ℕ :=
  ((List.range NINODES).map fun d =>
    if (s.inodes d).type = T_DIR ∧ (s.inodes d).nlink ≥ 1 then
      ((s.inodes d).dirents.filter fun e => e.2 == i && e.1 != ['.']).length
    else 0).sum

def LinksMatch (s : Ns) : Prop :=
  ∀ i < NINODES, i ≠ 0 → (s.inodes i).type ≠ 0 → (s.inodes i).nlink = linkCount s i

instance (s : Ns) : Decidable (LinksMatch s) := inferInstanceAs (Decidable (∀ i < NINODES, _))

def mkfsRoot : Ns where
  inodes := fun i => if i = ROOTINO then ⟨T_DIR, 1, 1, [(['.'], ROOTINO), (['.', '.'], ROOTINO)]⟩ else ⟨0, 0, 0, []⟩
  cwd := fun _ => ROOTINO

def runCalls (s : Ns) : List Call → Except String Ns
  | [] => .ok s
  | c :: cs => do
    let (_, s) ← syscall s 0 c
    runCalls s cs

example : LinksMatch mkfsRoot := by decide +kernel

def unlinkedCwd : List Call :=
  [.mkdir "/a".toList, .chdir "/a".toList, .unlink "/a".toList, .openCreate "x".toList]

lemma ok_of_toOption {α : Type} {x : Except String α} {a : α} (h : x.toOption = some a) : x = .ok a := by
  cases x with
  | error e => cases h
  | ok b => cases h; rfl

theorem create_in_unlinked_cwd :
    ∃ s, runCalls mkfsRoot unlinkedCwd = .ok s ∧ ¬ LinksMatch s ∧ (s.inodes 3).nlink = 1 ∧ linkCount s 3 = 0 := by
  have h : ((runCalls mkfsRoot unlinkedCwd).toOption.any fun s =>
      decide (¬ LinksMatch s ∧ (s.inodes 3).nlink = 1 ∧ linkCount s 3 = 0)) = true := by
    decide +kernel
  obtain ⟨s, hs, hq⟩ := (Option.any_eq_true _ _).mp h
  exact ⟨s, ok_of_toOption hs, of_decide_eq_true hq⟩

end Xv6Net.Fs.Namespace
