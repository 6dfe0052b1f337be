import Xv6Net.Fs.Layout

/-! The process table of `proc.c`: `allocproc`, `fork`, `exit`, `wait`, `sleep`, `wakeup`, `kill`,
`yield` and the per-CPU `scheduler`. A step is a section under `ptable.lock`. A process that calls
`sched` keeps the lock and hands it to its CPU's scheduler, which scans on from the slot after it
(`scan`); each step of that scan switches to the next `RUNNABLE` process and runs it until it
releases the lock or calls `sched` again. -/

namespace Xv6Net.Kernel.Proc

open Xv6Net.Fs.Layout

inductive procstate where
  | UNUSED
  | EMBRYO
  | SLEEPING
  | RUNNABLE
  | RUNNING
  | ZOMBIE
  deriving DecidableEq, Repr

abbrev Slot := Fin NPROC
abbrev Cpu := Fin NCPU

instance : NeZero NPROC := ⟨by decide⟩
instance : NeZero NCPU := ⟨by decide⟩

-- A sleep channel: the address of a `struct proc` (the one `wait` sleeps on) or any other.
inductive Chan where
  | proc (p : Slot)
  | addr (a : ℕ)
  deriving DecidableEq, Repr

-- Where a kernel thread resumes when the scheduler switches to it.
inductive KState where
  | user
  | yielded
  | slept
  | waited
  | fresh
  deriving DecidableEq, Repr

/-- The fields of `struct proc` the table's code reads and writes, with the saved kernel context
(`kstate`) and `fork`'s local `np` while a `fork` is under way (`forkChild`). -/
structure proc where
  state : procstate
  pid : ℤ
  parent : Option Slot
  chan : Option Chan
  killed : Bool
  kstate : KState
  forkChild : Option Slot
  deriving DecidableEq

/-- `ptable`, `nextpid`, each CPU's `c->proc`, and for a CPU inside its scheduler's loop holding
`ptable.lock` the index the loop continues from. -/
structure Sys where
  procs : Slot → proc
  nextpid : ℤ
  cpus : Cpu → Option Slot
  scan : Cpu → Option ℕ

def Sys.lockFree (s : Sys) : Prop := ∀ c, s.scan c = none

instance (s : Sys) : Decidable s.lockFree := inferInstanceAs (Decidable (∀ c, s.scan c = none))

/-- What a step returns to its callers. -/
inductive Obs where
  | forkRet (p : Slot) (r : ℤ)
  | waitReap (p q : Slot) (pid : ℤ)
  | waitFail (p : Slot)
  | killRet (p : Slot) (r : ℤ)
  deriving DecidableEq, Repr

def Sys.setProc (s : Sys) (p : Slot) (f : proc → proc) : Sys :=
  { s with procs := Function.update s.procs p (f (s.procs p)) }

@[simp] lemma Sys.setProc_same (s : Sys) (p : Slot) (f : proc → proc) : (s.setProc p f).procs p = f (s.procs p) := by
  simp [Sys.setProc]

@[simp] lemma Sys.setProc_ne (s : Sys) {p q : Slot} (f : proc → proc) (h : q ≠ p) :
    (s.setProc p f).procs q = s.procs q := by
  simp [Sys.setProc, h]

lemma Sys.setProc_procs (s : Sys) (p : Slot) (f : proc → proc) (q : Slot) :
    (s.setProc p f).procs q = if q = p then f (s.procs p) else s.procs q := by
  simp [Sys.setProc, Function.update_apply]

@[simp] lemma Sys.setProc_cpus (s : Sys) (p : Slot) (f : proc → proc) : (s.setProc p f).cpus = s.cpus := rfl
@[simp] lemma Sys.setProc_scan (s : Sys) (p : Slot) (f : proc → proc) : (s.setProc p f).scan = s.scan := rfl
@[simp] lemma Sys.setProc_nextpid (s : Sys) (p : Slot) (f : proc → proc) : (s.setProc p f).nextpid = s.nextpid := rfl

def Sys.setCpu (s : Sys) (c : Cpu) (v : Option Slot) : Sys := { s with cpus := Function.update s.cpus c v }

@[simp] lemma Sys.setCpu_cpus (s : Sys) (c : Cpu) (v : Option Slot) :
    (s.setCpu c v).cpus = Function.update s.cpus c v := rfl
@[simp] lemma Sys.setCpu_procs (s : Sys) (c : Cpu) (v : Option Slot) : (s.setCpu c v).procs = s.procs := rfl
@[simp] lemma Sys.setCpu_nextpid (s : Sys) (c : Cpu) (v : Option Slot) : (s.setCpu c v).nextpid = s.nextpid := rfl
@[simp] lemma Sys.setCpu_scan (s : Sys) (c : Cpu) (v : Option Slot) : (s.setCpu c v).scan = s.scan := rfl

def Sys.setScan (s : Sys) (c : Cpu) (v : Option ℕ) : Sys := { s with scan := Function.update s.scan c v }

@[simp] lemma Sys.setScan_scan (s : Sys) (c : Cpu) (v : Option ℕ) :
    (s.setScan c v).scan = Function.update s.scan c v := rfl
@[simp] lemma Sys.setScan_procs (s : Sys) (c : Cpu) (v : Option ℕ) : (s.setScan c v).procs = s.procs := rfl
@[simp] lemma Sys.setScan_cpus (s : Sys) (c : Cpu) (v : Option ℕ) : (s.setScan c v).cpus = s.cpus := rfl
@[simp] lemma Sys.setScan_nextpid (s : Sys) (c : Cpu) (v : Option ℕ) : (s.setScan c v).nextpid = s.nextpid := rfl

def unusedProc : proc := ⟨.UNUSED, 0, none, none, false, .user, none⟩

-- `int` arithmetic wrapping as two's complement: the value in `[-2^31, 2^31)` congruent mod `2^32`.
def wrapInt (z : ℤ) : ℤ := z.bmod (2 ^ 32)

-- `for(p = ptable.proc; p < &ptable.proc[NPROC]; p++) if(p->state == UNUSED) goto found;`
def allocproc (s : Sys) : Option (Slot × Sys) :=
  match (List.finRange NPROC).find? fun q => (s.procs q).state = .UNUSED with
  | none => none
  | some q =>
    some (q, { s.setProc q (fun pr => { pr with state := .EMBRYO, pid := s.nextpid, kstate := .fresh }) with
      nextpid := wrapInt (s.nextpid + 1) })

lemma allocproc_some {s s' : Sys} {q : Slot} (h : allocproc s = some (q, s')) :
    (s.procs q).state = .UNUSED ∧
      s' = { s.setProc q (fun pr => { pr with state := .EMBRYO, pid := s.nextpid, kstate := .fresh }) with
        nextpid := wrapInt (s.nextpid + 1) } := by
  unfold allocproc at h
  split at h
  · cases h
  · rename_i q' hq
    cases h
    have := List.find?_some hq
    simp only [decide_eq_true_eq] at this
    exact ⟨this, rfl⟩

def wakeup1 (ch : Option Chan) (s : Sys) : Sys :=
  { s with procs := fun q =>
      if (s.procs q).state = .SLEEPING ∧ (s.procs q).chan = ch then { s.procs q with state := .RUNNABLE }
      else s.procs q }

@[simp] lemma wakeup1_parent (ch : Option Chan) (s : Sys) (q : Slot) :
    ((wakeup1 ch s).procs q).parent = (s.procs q).parent := by
  simp only [wakeup1]; split <;> rfl

-- The empty table as the kernel image holds it, then `userinit`'s `allocproc` and `RUNNABLE`.
def userinit : Sys :=
  let s : Sys := ⟨fun _ => unusedProc, 1, fun _ => none, fun _ => none⟩
  match allocproc s with
  | none => s
  | some (p, s) => s.setProc p fun pr => { pr with state := .RUNNABLE }

def initproc : Slot := 0

def kill (pid : ℤ) (s : Sys) : ℤ × Sys :=
  match (List.finRange NPROC).find? fun q => (s.procs q).pid = pid with
  | none => (-1, s)
  | some q =>
    (0, s.setProc q fun pr =>
      { pr with killed := true, state := if pr.state = .SLEEPING then .RUNNABLE else pr.state })

-- `p->parent = initproc; if(p->state == ZOMBIE) wakeup1(initproc);` if `q` is a child of `cur`.
def reparentOne (cur : Slot) (s : Sys) (q : Slot) : Sys :=
  if (s.procs q).parent = some cur then
    let s := s.setProc q fun pr => { pr with parent := some initproc }
    if (s.procs q).state = .ZOMBIE then wakeup1 (some (.proc initproc)) s else s
  else s

def reparent (cur : Slot) (s : Sys) : Sys := (List.finRange NPROC).foldl (reparentOne cur) s

inductive WaitResult where
  | reaped (q : Slot) (pid : ℤ) (s : Sys)
  | failed
  | sleeps

-- One pass of `wait`'s `for(;;)` loop for the process `cur`.
def waitScan (cur : Slot) (s : Sys) : WaitResult :=
  match (List.finRange NPROC).find? fun q => (s.procs q).parent = some cur ∧ (s.procs q).state = .ZOMBIE with
  | some q =>
    .reaped q (s.procs q).pid
      (s.setProc q fun pr => { pr with pid := 0, parent := none, killed := false, state := .UNUSED })
  | none =>
    if (∀ q, (s.procs q).parent ≠ some cur) ∨ (s.procs cur).killed = true then .failed else .sleeps

lemma waitScan_reaped {cur q : Slot} {pid : ℤ} {s t : Sys} (h : waitScan cur s = .reaped q pid t) :
    (s.procs q).parent = some cur ∧ (s.procs q).state = .ZOMBIE ∧ pid = (s.procs q).pid ∧
      t = s.setProc q fun pr => { pr with pid := 0, parent := none, killed := false, state := .UNUSED } := by
  unfold waitScan at h
  split at h
  · rename_i q' hq
    cases h
    have := List.find?_some hq
    simp only [decide_eq_true_eq] at this
    exact ⟨this.1, this.2, rfl, rfl⟩
  · split at h <;> cases h

lemma waitScan_failed {cur : Slot} {s : Sys} (h : waitScan cur s = .failed) :
    (∀ q, (s.procs q).parent ≠ some cur) ∨ (s.procs cur).killed = true := by
  unfold waitScan at h
  split at h
  · cases h
  · split at h
    · assumption
    · cases h

-- `sched()` from the process in slot `p` on `c`: `c->proc = 0`, and the scheduler's loop goes on
-- after `p` with the lock still held.
def sched (c : Cpu) (p : Slot) (s : Sys) : Sys := (s.setCpu c none).setScan c (some (p.val + 1))

@[simp] lemma sched_procs (c : Cpu) (p : Slot) (s : Sys) : (sched c p s).procs = s.procs := rfl
@[simp] lemma sched_cpus (c : Cpu) (p : Slot) (s : Sys) :
    (sched c p s).cpus = Function.update s.cpus c none := rfl
@[simp] lemma sched_scan (c : Cpu) (p : Slot) (s : Sys) :
    (sched c p s).scan = Function.update s.scan c (some (p.val + 1)) := rfl

-- `sleep(curproc, &ptable.lock)` in `wait`.
def waitSleep (c : Cpu) (cur : Slot) (s : Sys) : Sys :=
  sched c cur (s.setProc cur fun pr => { pr with chan := some (.proc cur), state := .SLEEPING, kstate := .waited })

/-- What the thread of `q` does after the scheduler of `c` switched to it, up to the release of the
lock or its next `sched`. -/
def resume (c : Cpu) (q : Slot) (s : Sys) : Sys × List Obs :=
  match (s.procs q).kstate with
  | .waited =>
    -- back in `wait`'s loop, still holding the lock
    let s := s.setProc q fun pr => { pr with chan := none, kstate := .user }
    match waitScan q s with
    | .reaped z pid s => (s, [.waitReap q z pid])
    | .failed => (s, [.waitFail q])
    | .sleeps => (waitSleep c q s, [])
  | .slept => (s.setProc q fun pr => { pr with chan := none, kstate := .user }, [])
  | _ => (s.setProc q fun pr => { pr with kstate := .user }, [])

inductive Event where
  | schedule (c : Cpu)
  | schedNext (c : Cpu)
  | yield (c : Cpu)
  | sleep (c : Cpu) (a : ℕ)
  | wakeup (c : Cpu) (a : ℕ)
  | kill (c : Cpu) (pid : ℤ)
  | exit (c : Cpu)
  | wait (c : Cpu)
  | forkAlloc (c : Cpu)
  | forkFail (c : Cpu)
  | forkDone (c : Cpu)

inductive Outcome where
  | ok (s : Sys) (obs : List Obs)
  | panic (msg : String)
  | disabled

-- The process `c` runs in its own code when the lock is free (inside `fork` exactly when `inFork`).
def current (s : Sys) (c : Cpu) (inFork : Bool) : Option Slot :=
  if s.lockFree then
    match s.cpus c with
    | some p => if (s.procs p).kstate = .user ∧ (s.procs p).forkChild.isSome = inFork then some p else none
    | none => none
  else none

lemma current_some {s : Sys} {c : Cpu} {b : Bool} {p : Slot} (h : current s c b = some p) :
    s.lockFree ∧ s.cpus c = some p ∧ (s.procs p).kstate = .user ∧ (s.procs p).forkChild.isSome = b := by
  unfold current at h
  split_ifs at h with hl
  split at h
  · rename_i p' hp
    split_ifs at h with hk
    cases h
    exact ⟨hl, hp, hk.1, hk.2⟩
  · cases h

lemma current_of {s : Sys} {c : Cpu} {b : Bool} {p : Slot} (hl : s.lockFree) (hc : s.cpus c = some p)
    (hk : (s.procs p).kstate = .user) (hf : (s.procs p).forkChild.isSome = b) : current s c b = some p := by
  unfold current
  rw [if_pos hl, hc]
  dsimp only
  rw [if_pos ⟨hk, hf⟩]

def step (s : Sys) : Event → Outcome
  | .schedule c =>
    -- `acquire(&ptable.lock)` at the top of the scheduler's loop
    if s.lockFree ∧ s.cpus c = none then .ok (s.setScan c (some 0)) [] else .disabled
  | .schedNext c =>
    match s.scan c with
    | some i =>
      match (List.finRange NPROC).find? fun q => i ≤ q.val ∧ (s.procs q).state = .RUNNABLE with
      | none => .ok (s.setScan c none) []
      | some q =>
        let s := ((s.setProc q fun pr => { pr with state := .RUNNING }).setCpu c (some q)).setScan c none
        let (s, obs) := resume c q s
        .ok s obs
    | none => .disabled
  | .wakeup _ a => if s.lockFree then .ok (wakeup1 (some (.addr a)) s) [] else .disabled
  | .yield c =>
    -- the timer interrupt's `yield`, also inside `fork`
    if s.lockFree then
      match s.cpus c with
      | some p =>
        if (s.procs p).kstate = .user then
          .ok (sched c p (s.setProc p fun pr => { pr with state := .RUNNABLE, kstate := .yielded })) []
        else .disabled
      | none => .disabled
    else .disabled
  | .sleep c a =>
    match current s c false with
    | some p =>
      .ok (sched c p (s.setProc p fun pr => { pr with chan := some (.addr a), state := .SLEEPING, kstate := .slept })) []
    | none => .disabled
  | .kill c pid =>
    match current s c false with
    | some p =>
      let (r, s) := kill pid s
      .ok s [.killRet p r]
    | none => .disabled
  | .exit c =>
    match current s c false with
    | some p =>
      if p = initproc then .panic "init exiting"
      else
        let s := wakeup1 ((s.procs p).parent.map Chan.proc) s
        let s := reparent p s
        .ok (sched c p (s.setProc p fun pr => { pr with state := .ZOMBIE })) []
    | none => .disabled
  | .wait c =>
    match current s c false with
    | some p =>
      match waitScan p s with
      | .reaped q pid s => .ok s [.waitReap p q pid]
      | .failed => .ok s [.waitFail p]
      | .sleeps => .ok (waitSleep c p s) []
    | none => .disabled
  | .forkAlloc c =>
    match current s c false with
    | some p =>
      match allocproc s with
      | none => .ok s [.forkRet p (-1)]
      | some (q, s) => .ok (s.setProc p fun pr => { pr with forkChild := some q }) []
    | none => .disabled
  | .forkFail c =>
    -- `kalloc` of the kernel stack or `copyuvm` failed: `np->state = UNUSED`
    match current s c true with
    | some p =>
      match (s.procs p).forkChild with
      | some q =>
        let s := s.setProc q fun pr => { pr with state := .UNUSED }
        .ok (s.setProc p fun pr => { pr with forkChild := none }) [.forkRet p (-1)]
      | none => .disabled
    | none => .disabled
  | .forkDone c =>
    -- `np->parent = curproc`, then `np->state = RUNNABLE` under the lock
    match current s c true with
    | some p =>
      match (s.procs p).forkChild with
      | some q =>
        let pid := (s.procs q).pid
        let s := s.setProc q fun pr => { pr with parent := some p, state := .RUNNABLE }
        .ok (s.setProc p fun pr => { pr with forkChild := none }) [.forkRet p pid]
      | none => .disabled
    | none => .disabled

/-! ### What each event can do

One inversion lemma per event, with its guards, so that the invariant proofs never unfold `step`. -/

section StepCases

variable {s t : Sys} {obs : List Obs}

lemma step_schedule {c : Cpu} (h : step s (.schedule c) = .ok t obs) :
    s.lockFree ∧ s.cpus c = none ∧ t = s.setScan c (some 0) ∧ obs = [] := by
  unfold step at h
  dsimp only at h
  split_ifs at h with hc
  cases h
  exact ⟨hc.1, hc.2, rfl, rfl⟩

-- The state right after the scheduler of `c` switched to `q`.
def switched (c : Cpu) (q : Slot) (s : Sys) : Sys :=
  ((s.setProc q fun pr => { pr with state := .RUNNING }).setCpu c (some q)).setScan c none

@[simp] lemma switched_procs (c : Cpu) (q : Slot) (s : Sys) :
    (switched c q s).procs = Function.update s.procs q { s.procs q with state := .RUNNING } := rfl
@[simp] lemma switched_cpus (c : Cpu) (q : Slot) (s : Sys) :
    (switched c q s).cpus = Function.update s.cpus c (some q) := rfl
@[simp] lemma switched_scan (c : Cpu) (q : Slot) (s : Sys) :
    (switched c q s).scan = Function.update s.scan c none := rfl

lemma step_schedNext {c : Cpu} (h : step s (.schedNext c) = .ok t obs) :
    ∃ i, s.scan c = some i ∧ ((t = s.setScan c none ∧ obs = []) ∨
      ∃ q, i ≤ q.val ∧ (s.procs q).state = .RUNNABLE ∧ resume c q (switched c q s) = (t, obs)) := by
  unfold step at h
  dsimp only at h
  split at h
  · rename_i i hi
    refine ⟨i, hi, ?_⟩
    split at h
    · cases h
      exact .inl ⟨rfl, rfl⟩
    · rename_i q hq
      have hq' := List.find?_some hq
      simp only [decide_eq_true_eq] at hq'
      refine .inr ⟨q, hq'.1, hq'.2, ?_⟩
      cases h
      rfl
  · cases h

lemma step_wakeup {c : Cpu} {a : ℕ} (h : step s (.wakeup c a) = .ok t obs) :
    s.lockFree ∧ t = wakeup1 (some (.addr a)) s ∧ obs = [] := by
  unfold step at h
  dsimp only at h
  split_ifs at h with hl
  cases h
  exact ⟨hl, rfl, rfl⟩

lemma step_yield {c : Cpu} (h : step s (.yield c) = .ok t obs) :
    ∃ p, s.lockFree ∧ s.cpus c = some p ∧ (s.procs p).kstate = .user ∧
      t = sched c p (s.setProc p fun pr => { pr with state := .RUNNABLE, kstate := .yielded }) ∧ obs = [] := by
  unfold step at h
  dsimp only at h
  split_ifs at h with hl
  split at h
  · rename_i p hp
    split_ifs at h with hk
    cases h
    exact ⟨p, hl, hp, hk, rfl, rfl⟩
  · cases h

lemma step_sleep {c : Cpu} {a : ℕ} (h : step s (.sleep c a) = .ok t obs) :
    ∃ p, current s c false = some p ∧
      t = sched c p (s.setProc p fun pr => { pr with chan := some (.addr a), state := .SLEEPING, kstate := .slept }) ∧
      obs = [] := by
  unfold step at h
  dsimp only at h
  split at h
  · rename_i p hp
    cases h
    exact ⟨p, hp, rfl, rfl⟩
  · cases h

lemma step_kill {c : Cpu} {pid : ℤ} (h : step s (.kill c pid) = .ok t obs) :
    ∃ p, current s c false = some p ∧ t = (kill pid s).2 ∧ obs = [.killRet p (kill pid s).1] := by
  unfold step at h
  dsimp only at h
  split at h
  · rename_i p hp
    cases h
    exact ⟨p, hp, rfl, rfl⟩
  · cases h

lemma step_exit {c : Cpu} (h : step s (.exit c) = .ok t obs) :
    ∃ p, current s c false = some p ∧ p ≠ initproc ∧
      t = sched c p ((reparent p (wakeup1 ((s.procs p).parent.map Chan.proc) s)).setProc p
        fun pr => { pr with state := .ZOMBIE }) ∧ obs = [] := by
  unfold step at h
  dsimp only at h
  split at h
  · rename_i p hp
    split_ifs at h with hi
    cases h
    exact ⟨p, hp, hi, rfl, rfl⟩
  · cases h

lemma step_wait {c : Cpu} (h : step s (.wait c) = .ok t obs) :
    ∃ p, current s c false = some p ∧
      ((∃ q pid, waitScan p s = .reaped q pid t ∧ obs = [.waitReap p q pid]) ∨
       (waitScan p s = .failed ∧ t = s ∧ obs = [.waitFail p]) ∨
       (waitScan p s = .sleeps ∧ t = waitSleep c p s ∧ obs = [])) := by
  unfold step at h
  dsimp only at h
  split at h
  · rename_i p hp
    refine ⟨p, hp, ?_⟩
    split at h <;> rename_i hw <;> cases h
    · exact .inl ⟨_, _, hw, rfl⟩
    · exact .inr (.inl ⟨hw, rfl, rfl⟩)
    · exact .inr (.inr ⟨hw, rfl, rfl⟩)
  · cases h

lemma step_forkAlloc {c : Cpu} (h : step s (.forkAlloc c) = .ok t obs) :
    ∃ p, current s c false = some p ∧
      ((allocproc s = none ∧ t = s ∧ obs = [.forkRet p (-1)]) ∨
       ∃ q u, allocproc s = some (q, u) ∧ t = u.setProc p (fun pr => { pr with forkChild := some q }) ∧
         obs = []) := by
  unfold step at h
  dsimp only at h
  split at h
  · rename_i p hp
    refine ⟨p, hp, ?_⟩
    split at h <;> rename_i ha <;> cases h
    · exact .inl ⟨ha, rfl, rfl⟩
    · exact .inr ⟨_, _, ha, rfl, rfl⟩
  · cases h

lemma step_forkFail {c : Cpu} (h : step s (.forkFail c) = .ok t obs) :
    ∃ p q, current s c true = some p ∧ (s.procs p).forkChild = some q ∧
      t = (s.setProc q fun pr => { pr with state := .UNUSED }).setProc p (fun pr => { pr with forkChild := none }) ∧
      obs = [.forkRet p (-1)] := by
  unfold step at h
  dsimp only at h
  split at h
  · rename_i p hp
    split at h
    · rename_i q hq
      cases h
      exact ⟨p, q, hp, hq, rfl, rfl⟩
    · cases h
  · cases h

lemma step_forkDone {c : Cpu} (h : step s (.forkDone c) = .ok t obs) :
    ∃ p q, current s c true = some p ∧ (s.procs p).forkChild = some q ∧
      t = (s.setProc q fun pr => { pr with parent := some p, state := .RUNNABLE }).setProc p
        (fun pr => { pr with forkChild := none }) ∧
      obs = [.forkRet p (s.procs q).pid] := by
  unfold step at h
  dsimp only at h
  split at h
  · rename_i p hp
    split at h
    · rename_i q hq
      cases h
      exact ⟨p, q, hp, hq, rfl, rfl⟩
    · cases h
  · cases h

-- The thread `q` resumed by the scheduler of `c`, by where it had stopped.
lemma resume_cases {c : Cpu} {q : Slot} (h : resume c q s = (t, obs)) :
    ((s.procs q).kstate = .waited ∧
      let s' := s.setProc q fun pr => { pr with chan := none, kstate := .user }
      ((∃ z pid, waitScan q s' = .reaped z pid t ∧ obs = [.waitReap q z pid]) ∨
       (waitScan q s' = .failed ∧ t = s' ∧ obs = [.waitFail q]) ∨
       (waitScan q s' = .sleeps ∧ t = waitSleep c q s' ∧ obs = []))) ∨
    ((s.procs q).kstate = .slept ∧ t = s.setProc q (fun pr => { pr with chan := none, kstate := .user }) ∧
      obs = []) ∨
    ((s.procs q).kstate ≠ .waited ∧ (s.procs q).kstate ≠ .slept ∧
      t = s.setProc q (fun pr => { pr with kstate := .user }) ∧ obs = []) := by
  unfold resume at h
  split at h
  · rename_i hk
    refine .inl ⟨hk, ?_⟩
    dsimp only at h ⊢
    split at h <;> rename_i hw <;> cases h
    · exact .inl ⟨_, _, hw, rfl⟩
    · exact .inr (.inl ⟨hw, rfl, rfl⟩)
    · exact .inr (.inr ⟨hw, rfl, rfl⟩)
  · rename_i hk
    cases h
    exact .inr (.inl ⟨hk, rfl, rfl⟩)
  · rename_i hk₁ hk₂
    cases h
    exact .inr (.inr ⟨hk₁, hk₂, rfl, rfl⟩)

end StepCases

inductive Reachable : Sys → Prop where
  | init : Reachable userinit
  | step {s s' : Sys} {obs : List Obs} (e : Event) : Reachable s → step s e = .ok s' obs → Reachable s'

/-- `kill(0)` from `init`, then `fork`: `kill` finds the unused slot 1, whose `pid` is still 0, marks it
killed and returns 0, and `allocproc` hands that slot, `killed` set, to the new child. -/
theorem kill_zero_marks_unused :
    ∃ s t u, Reachable s ∧ (∀ q, (s.procs q).state ≠ .UNUSED → (s.procs q).pid ≠ 0) ∧
      step s (.kill 0 0) = .ok t [.killRet initproc 0] ∧ (t.procs 1).state = .UNUSED ∧
      (t.procs 1).killed = true ∧ step t (.forkAlloc 0) = .ok u [] ∧ (u.procs 1).state = .EMBRYO ∧
      (u.procs 1).killed = true := by
  refine ⟨_, _, _, .step (.schedNext 0) (.step (.schedule 0) .init rfl) rfl, ?_, rfl, ?_, ?_, rfl, ?_, ?_⟩
  all_goals decide +kernel

end Xv6Net.Kernel.Proc
