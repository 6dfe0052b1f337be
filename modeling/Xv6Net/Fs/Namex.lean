import Xv6Net.Fs.Path
import Xv6Net.Lib.Except

/-! `namex` of `fs.c` over the inode cache: `iget`, `idup`, `ilock`, `iunlock`, `iput` and
`dirlookup` on `NINODE` slots with their reference counts, and the sleep-locks the calling process
takes and releases, logged in order. The inodes' contents are those of `Namespace`; `iput` of the
last reference to an inode with no links frees it there. A panic is an error. -/

namespace Xv6Net.Fs.Namex

open Xv6Net.Lib.Except Xv6Net.Fs.Layout Xv6Net.Fs.Blocks

def NINODE : ℕ := 50

inductive LockEv where
  | acquire (s : Fin NINODE)
  | release (s : Fin NINODE)
  deriving DecidableEq, Repr

/-- The slots' `inum`, `ref` and `valid`, the inodes on disk, the sleep-locks the process holds
and its lock operations so far. -/
structure Icache where
  inum : Fin NINODE → ℕ
  ref : Fin NINODE → ℕ
  valid : Fin NINODE → Bool
  disk : ℕ → Namespace.DInode
  held : List (Fin NINODE)
  events : List LockEv

def iget (c : Icache) (inum : ℕ) : Except String (Fin NINODE × Icache) :=
  match (List.finRange NINODE).find? fun s => 0 < c.ref s && c.inum s == inum with
  | some s => .ok (s, { c with ref := Function.update c.ref s (c.ref s + 1) })
  | none =>
    match (List.finRange NINODE).find? fun s => c.ref s == 0 with
    | none => .error "iget: no inodes"
    | some s =>
      .ok (s, { c with inum := Function.update c.inum s inum, ref := Function.update c.ref s 1,
                       valid := Function.update c.valid s false })

def idup (c : Icache) (s : Fin NINODE) : Icache := { c with ref := Function.update c.ref s (c.ref s + 1) }

def acquiresleep (c : Icache) (s : Fin NINODE) : Icache :=
  { c with held := s :: c.held, events := c.events ++ [.acquire s] }

def releasesleep (c : Icache) (s : Fin NINODE) : Icache :=
  { c with held := c.held.erase s, events := c.events ++ [.release s] }

def ilock (c : Icache) (s : Fin NINODE) : Except String Icache :=
  if c.ref s < 1 then .error "ilock"
  else
    let c := acquiresleep c s
    if c.valid s then .ok c
    else
      let c := { c with valid := Function.update c.valid s true }
      if (c.disk (c.inum s)).type = 0 then .error "ilock: no type" else .ok c

def iunlock (c : Icache) (s : Fin NINODE) : Except String Icache :=
  if s ∉ c.held ∨ c.ref s < 1 then .error "iunlock" else .ok (releasesleep c s)

def iput (c : Icache) (s : Fin NINODE) : Icache :=
  let c := acquiresleep c s
  -- `itrunc(ip); ip->type = 0; iupdate(ip); ip->valid = 0;`
  let c := if c.valid s ∧ (c.disk (c.inum s)).nlink = 0 ∧ c.ref s = 1 then
      { c with disk := Function.update c.disk (c.inum s) { c.disk (c.inum s) with type := 0, dirents := [] },
               valid := Function.update c.valid s false }
    else c
  let c := releasesleep c s
  { c with ref := Function.update c.ref s (c.ref s - 1) }

def iunlockput (c : Icache) (s : Fin NINODE) : Except String Icache := (iunlock c s).map fun c => iput c s

def dirlookup (c : Icache) (s : Fin NINODE) (name : List Char) : Except String (Option (Fin NINODE) × Icache) :=
  if (c.disk (c.inum s)).type ≠ T_DIR then .error "dirlookup not DIR"
  else
    match Namespace.dirlookup (c.disk (c.inum s)) name with
    | none => .ok (none, c)
    | some (inum, _) => (iget c inum).map fun (t, c) => (some t, c)

/-- The name `namecmp` reads from the `DIRSIZ`-byte buffer. -/
def cstr (name : List Char) : List Char := (name.take DIRSIZ).takeWhile (· != '\x00')

/-- `while((path = skipelem(path, name)) != 0)` of `namex`, for at most `fuel` rounds, from the
slot `ip` it holds a reference to: the slot it returns, `name`, and the cache. -/
def namexLoop (parent : Bool) : ℕ → Fin NINODE → List Char → List Char → Icache →
    Except String (Option (Fin NINODE) × List Char × Icache)
  | 0, _, _, _, _ => .error "namex: out of fuel"
  | fuel + 1, ip, path, name, c =>
    match Path.skipelem path name with
    | none => if parent then .ok (none, name, iput c ip) else .ok (some ip, name, c)
    | some (rest, name) => do
      let c ← ilock c ip
      if (c.disk (c.inum ip)).type ≠ T_DIR then
        let c ← iunlockput c ip
        pure (none, name, c)
      else if parent ∧ rest = [] then
        -- stop one level early
        let c ← iunlock c ip
        pure (some ip, name, c)
      else
        let (next, c) ← dirlookup c ip (cstr name)
        match next with
        | none =>
          let c ← iunlockput c ip
          pure (none, name, c)
        | some next =>
          let c ← iunlockput c ip
          namexLoop parent fuel next rest name c

/-- `namex(path, nameiparent, name)` of a process whose `cwd` is the slot `cwd`. -/
def namex (c : Icache) (cwd : Fin NINODE) (path : List Char) (parent : Bool) (name : List Char) :
    Except String (Option (Fin NINODE) × List Char × Icache) := do
  let (ip, c) ← if path.head? = some '/' then iget c ROOTINO else pure (cwd, idup c cwd)
  namexLoop parent (path.length + 1) ip path name c

/-- `namei(path)`, with `name` its uninitialized `char name[DIRSIZ]`. -/
def namei (c : Icache) (cwd : Fin NINODE) (path name : List Char) : Except String (Option (Fin NINODE) × Icache) :=
  (namex c cwd path false name).map fun (ip, _, c) => (ip, c)

/-- `nameiparent(path, name)`: the parent's slot and the last element in `name`. -/
def nameiparent (c : Icache) (cwd : Fin NINODE) (path name : List Char) :
    Except String (Option (Fin NINODE) × List Char × Icache) :=
  namex c cwd path true name

/-- Locks taken and released one at a time: each acquire followed by its release. -/
def pairs (ss : List (Fin NINODE)) : List LockEv := ss.flatMap fun s => [.acquire s, .release s]

/-! ### What each operation does to the counts and the locks -/

section Ops

variable {c c' : Icache} {s t : Fin NINODE}

lemma iget_spec {inum : ℕ} (h : iget c inum = .ok (s, c')) :
    (∀ t, c'.ref t = c.ref t + if t = s then 1 else 0) ∧ c'.held = c.held ∧ c'.events = c.events := by
  unfold iget at h
  split at h
  · cases h
    refine ⟨fun t => ?_, rfl, rfl⟩
    by_cases ht : t = s <;> simp [ht]
  · split at h
    · cases h
    · rename_i hs₀
      cases h
      have h0 : c.ref s = 0 := by simpa using List.find?_some (p := fun s => c.ref s == 0) hs₀
      refine ⟨fun t => ?_, rfl, rfl⟩
      by_cases ht : t = s
      · subst ht
        simp [h0]
      · simp [ht]

lemma idup_ref : (idup c s).ref t = c.ref t + if t = s then 1 else 0 := by
  by_cases ht : t = s <;> simp [idup, ht]

lemma ilock_spec (h : ilock c s = .ok c') :
    c'.ref = c.ref ∧ c'.held = s :: c.held ∧ c'.events = c.events ++ [.acquire s] := by
  dsimp only [ilock] at h
  split_ifs at h <;> cases h <;> exact ⟨rfl, rfl, rfl⟩

lemma iunlock_spec (h : iunlock c s = .ok c') :
    c'.ref = c.ref ∧ c'.held = c.held.erase s ∧ c'.events = c.events ++ [.release s] := by
  unfold iunlock at h
  split_ifs at h
  cases h
  exact ⟨rfl, rfl, rfl⟩

lemma iput_spec :
    (∀ t, (iput c s).ref t = if t = s then c.ref t - 1 else c.ref t) ∧ (iput c s).held = c.held ∧
      (iput c s).events = c.events ++ [.acquire s, .release s] := by
  dsimp only [iput]
  split_ifs <;>
  · refine ⟨fun t => ?_, by simp [releasesleep, acquiresleep], by simp [releasesleep, acquiresleep]⟩
    by_cases ht : t = s
    · subst ht
      simp [releasesleep, acquiresleep]
    · simp [releasesleep, acquiresleep, ht]

lemma iunlockput_spec (h : iunlockput c s = .ok c') :
    (∀ t, c'.ref t = if t = s then c.ref t - 1 else c.ref t) ∧ c'.held = c.held.erase s ∧
      c'.events = c.events ++ [.release s, .acquire s, .release s] := by
  obtain ⟨c₁, h₁, rfl⟩ := map_ok h
  obtain ⟨hr, hh, he⟩ := iunlock_spec h₁
  obtain ⟨hr', hh', he'⟩ := iput_spec (c := c₁) (s := s)
  refine ⟨fun t => by rw [hr', hr], by rw [hh', hh], by simp [he', he]⟩

lemma dirlookup_spec {name : List Char} {r : Option (Fin NINODE)} (h : dirlookup c s name = .ok (r, c')) :
    (∀ t, c'.ref t = c.ref t + if r = some t then 1 else 0) ∧ c'.held = c.held ∧ c'.events = c.events := by
  unfold dirlookup at h
  split_ifs at h
  split at h
  · cases h
    exact ⟨fun t => by simp, rfl, rfl⟩
  · obtain ⟨⟨t₀, c₁⟩, h₁, he⟩ := map_ok h
    cases he
    obtain ⟨hr, hh, hev⟩ := iget_spec h₁
    exact ⟨fun t => by simp [hr t, eq_comm], hh, hev⟩

end Ops

/-! ### The loop -/

/-- From `c` to `c'`, the reference held on `ip` went to `r`, the held locks are those of `c`, and
the locks taken in between were taken and released one at a time. -/
structure Balanced (c c' : Icache) (ip : Fin NINODE) (r : Option (Fin NINODE)) : Prop where
  ref : ∀ t, c'.ref t + (if t = ip then 1 else 0) = c.ref t + (if r = some t then 1 else 0)
  held : c'.held = c.held
  events : ∃ ss, c'.events = c.events ++ pairs ss

section Rounds

variable {c c₁ c₂ c₃ : Icache} {ip : Fin NINODE}

lemma balanced_keep : Balanced c c ip (some ip) := ⟨fun t => by simp [eq_comm], rfl, ⟨[], by simp [pairs]⟩⟩

lemma balanced_iput (hr : 1 ≤ c.ref ip) : Balanced c (iput c ip) ip none := by
  obtain ⟨href, hheld, hev⟩ := iput_spec (c := c) (s := ip)
  refine ⟨fun t => ?_, hheld, ⟨[ip], by simp [hev, pairs]⟩⟩
  rw [href]
  by_cases ht : t = ip
  · rw [if_pos ht, if_pos ht, ht]
    simp only [reduceCtorEq, if_false]
    omega
  · simp [ht]

lemma balanced_drop (hr : 1 ≤ c.ref ip) (h₁ : ilock c ip = .ok c₁)
    (hmid : c₂.ref = c₁.ref ∧ c₂.held = c₁.held ∧ c₂.events = c₁.events) (h₃ : iunlockput c₂ ip = .ok c₃) :
    Balanced c c₃ ip none := by
  obtain ⟨hr₁, hh₁, he₁⟩ := ilock_spec h₁
  obtain ⟨hr₃, hh₃, he₃⟩ := iunlockput_spec h₃
  refine ⟨fun t => ?_, by simp [hh₃, hmid.2.1, hh₁], ⟨[ip, ip], by simp [he₃, hmid.2.2, he₁, pairs]⟩⟩
  rw [hr₃, hmid.1, hr₁]
  by_cases ht : t = ip
  · rw [if_pos ht, if_pos ht, ht]
    simp only [reduceCtorEq, if_false]
    omega
  · simp [ht]

lemma balanced_stop (h₁ : ilock c ip = .ok c₁) (h₂ : iunlock c₁ ip = .ok c₂) : Balanced c c₂ ip (some ip) := by
  obtain ⟨hr₁, hh₁, he₁⟩ := ilock_spec h₁
  obtain ⟨hr₂, hh₂, he₂⟩ := iunlock_spec h₂
  refine ⟨fun t => ?_, by simp [hh₂, hh₁], ⟨[ip], by simp [he₂, he₁, pairs]⟩⟩
  simp [hr₂, hr₁, eq_comm]

lemma balanced_step {next : Fin NINODE} {c' : Icache} {r : Option (Fin NINODE)} {name : List Char}
    (hr : 1 ≤ c.ref ip) (h₁ : ilock c ip = .ok c₁) (h₂ : dirlookup c₁ ip name = .ok (some next, c₂))
    (h₃ : iunlockput c₂ ip = .ok c₃) (ih : 1 ≤ c₃.ref next → Balanced c₃ c' next r) : Balanced c c' ip r := by
  obtain ⟨hr₁, hh₁, he₁⟩ := ilock_spec h₁
  obtain ⟨hr₂, hh₂, he₂⟩ := dirlookup_spec h₂
  obtain ⟨hr₃, hh₃, he₃⟩ := iunlockput_spec h₃
  -- the count of each slot after the round, before the rest of the walk
  have hc₃ : ∀ t, c₃.ref t + (if t = ip then 1 else 0) = c.ref t + (if t = next then 1 else 0) := by
    intro t
    rw [hr₃, hr₂, hr₁]
    by_cases ht : t = ip
    · subst ht
      by_cases hn : t = next
      · subst hn
        simp
      · simp [hn, Ne.symm hn]
        omega
    · by_cases hn : t = next
      · subst hn
        simp [ht]
      · simp [ht, hn, Ne.symm hn]
  have hnext : 1 ≤ c₃.ref next := by
    have := hc₃ next
    by_cases hn : next = ip <;> simp [hn] at this ⊢ <;> omega
  obtain ⟨href, hheld, ss, hev⟩ := ih hnext
  refine ⟨fun t => ?_, by rw [hheld, hh₃, hh₂, hh₁, List.erase_cons_head], ⟨ip :: ip :: ss, ?_⟩⟩
  · have h₁ := href t
    have h₂ := hc₃ t
    by_cases hn : t = next <;> simp only [hn, if_true, if_false] at h₁ h₂ ⊢ <;> omega
  · simp [hev, he₃, he₂, he₁, pairs]

end Rounds

/-- Each round of `namex`'s loop keeps the balance: by induction on the rounds, the reference the
loop holds goes to the slot it returns, and every lock it takes it releases before the next. -/
theorem namexLoop_balanced {parent : Bool} : ∀ {fuel : ℕ} {ip : Fin NINODE} {path name name' : List Char}
    {c c' : Icache} {r : Option (Fin NINODE)}, namexLoop parent fuel ip path name c = .ok (r, name', c') →
    1 ≤ c.ref ip → Balanced c c' ip r
  | 0, _, _, _, _, _, _, _, h, _ => by cases h
  | fuel + 1, ip, path, name, name', c, c', r, h, hr => by
    rw [namexLoop] at h
    split at h
    · split_ifs at h
      · cases h
        exact balanced_iput hr
      · cases h
        exact balanced_keep
    · obtain ⟨c₁, h₁, h⟩ := bind_ok h
      split_ifs at h
      · obtain ⟨c₂, h₂, h⟩ := bind_ok h
        cases h
        exact balanced_drop hr h₁ ⟨rfl, rfl, rfl⟩ h₂
      · obtain ⟨c₂, h₂, h⟩ := bind_ok h
        cases h
        exact balanced_stop h₁ h₂
      · obtain ⟨⟨next, c₂⟩, h₂, h⟩ := bind_ok h
        cases next with
        | none =>
          obtain ⟨c₃, h₃, h⟩ := bind_ok h
          cases h
          obtain ⟨hr₂, hh₂, he₂⟩ := dirlookup_spec h₂
          exact balanced_drop hr h₁ ⟨funext fun t => by simpa using hr₂ t, hh₂, he₂⟩ h₃
        | some next =>
          obtain ⟨c₃, h₃, h⟩ := bind_ok h
          exact balanced_step hr h₁ h₂ h₃ (namexLoop_balanced h)

/-- `namex` (so `namei` and `nameiparent`), from any cache, whenever it returns rather than
panics: it adds one reference to the slot it returns and none when it returns 0, ends holding the
locks it was called with, and takes each lock after releasing the one before. -/
theorem namex_refs_balanced {c c' : Icache} {cwd : Fin NINODE} {path : List Char} {parent : Bool}
    {name name' : List Char} {r : Option (Fin NINODE)} (h : namex c cwd path parent name = .ok (r, name', c')) :
    (∀ t, c'.ref t = c.ref t + if r = some t then 1 else 0) ∧ c'.held = c.held ∧
      ∃ ss, c'.events = c.events ++ pairs ss := by
  -- the start: `iget(ROOTDEV, ROOTINO)` or `idup(myproc()->cwd)`, one reference on `ip`
  obtain ⟨ip, c₀, hstart, h⟩ : ∃ ip c₀, ((∀ t, c₀.ref t = c.ref t + if t = ip then 1 else 0) ∧
      c₀.held = c.held ∧ c₀.events = c.events) ∧ namexLoop parent (path.length + 1) ip path name c₀ = .ok (r, name', c') := by
    rw [namex] at h
    split_ifs at h
    · obtain ⟨⟨ip, c₀⟩, h₀, h⟩ := bind_ok h
      exact ⟨ip, c₀, iget_spec h₀, h⟩
    · exact ⟨cwd, idup c cwd, ⟨fun t => idup_ref, rfl, rfl⟩, h⟩
  obtain ⟨href₀, hheld₀, hev₀⟩ := hstart
  obtain ⟨href, hheld, ss, hev⟩ := namexLoop_balanced h (by simp [href₀])
  refine ⟨fun t => ?_, by rw [hheld, hheld₀], ⟨ss, by rw [hev, hev₀]⟩⟩
  have := href t
  rw [href₀] at this
  omega

/-- The root directory, inode 1, cached in slot 0 as the process's `cwd`, holding a file `a`,
inode 2, that no slot holds. -/
def sampleIcache : Icache where
  inum := fun s => if s.val = 0 then 1 else 0
  ref := fun s => if s.val = 0 then 1 else 0
  valid := fun s => s.val = 0
  disk := fun i =>
    if i = 1 then ⟨T_DIR, 1, 0, [(['.'], 1), (['.', '.'], 1), (['a'], 2)]⟩
    else if i = 2 then ⟨T_FILE, 1, 0, []⟩ else ⟨0, 0, 0, []⟩
  held := []
  events := []

theorem namex_refs_balanced_sample :
    ∃ r name' c', namex sampleIcache ⟨0, by decide⟩ "/a".toList false (List.replicate DIRSIZ '\x00') = .ok (r, name', c') ∧
      (∀ t, c'.ref t = sampleIcache.ref t + if r = some t then 1 else 0) ∧ c'.held = sampleIcache.held ∧
      ∃ ss, c'.events = sampleIcache.events ++ pairs ss := by
  obtain ⟨r, name', c', h⟩ : ∃ r name' c', namex sampleIcache ⟨0, by decide⟩ "/a".toList false
      (List.replicate DIRSIZ '\x00') = .ok (r, name', c') := ⟨_, _, _, rfl⟩
  exact ⟨r, name', c', h, namex_refs_balanced h⟩

end Xv6Net.Fs.Namex
