import Xv6Net.Kernel.ProcInv

/-! What the process table guarantees over whole runs: what each CPU's `c->proc` says, who has a
parent, and which step frees a `ZOMBIE` and what `wait` returns then. -/

namespace Xv6Net.Kernel.ProcSafety

open Xv6Net.Fs.Layout Xv6Net.Kernel.Proc Xv6Net.Kernel.ProcInv

/-- Every reachable state, the ones where `ptable.lock` is free among them: each CPU runs a
`RUNNING` process or none, every `RUNNING` process is on exactly one CPU, and no two CPUs run the
same one. -/
theorem cpus_run_distinct_processes {s : Sys} (hs : Reachable s) :
    (∀ c p, s.cpus c = some p → (s.procs p).state = .RUNNING) ∧
    (∀ p, (s.procs p).state = .RUNNING → ∃! c, s.cpus c = some p) ∧
    (∀ c c' p, s.cpus c = some p → s.cpus c' = some p → c = c') := by
  have hi := inv_of_reachable hs
  refine ⟨hi.cpu_running, fun p hp => ?_, hi.cpu_inj⟩
  obtain ⟨c, hc⟩ := hi.running_cpu p hp
  exact ⟨c, hc, fun c' hc' => hi.cpu_inj c' c p hc' hc⟩

/-- `init` runs on CPU 0 and forks; the scheduler of CPU 1 then runs the child. -/
theorem cpus_run_distinct_processes_fork :
    ∃ s, Reachable s ∧ s.cpus 0 = some initproc ∧ s.cpus 1 = some 1 ∧
      (∀ c p, s.cpus c = some p → (s.procs p).state = .RUNNING) ∧
      (∀ p, (s.procs p).state = .RUNNING → ∃! c, s.cpus c = some p) ∧
      (∀ c c' p, s.cpus c = some p → s.cpus c' = some p → c = c') := by
  have hr := Reachable.step (.schedNext 1) (.step (.schedule 1) (.step (.forkDone 0) (.step (.forkAlloc 0)
    (.step (.schedNext 0) (.step (.schedule 0) .init rfl) rfl) rfl) rfl) rfl) rfl
  exact ⟨_, hr, rfl, rfl, cpus_run_distinct_processes hr⟩

/-! ### Which steps free a `ZOMBIE` -/

/-- No `ZOMBIE` of `s` has left that state in `t`. -/
def KeepsZombies (s t : Sys) : Prop := ∀ x, (s.procs x).state = .ZOMBIE → (t.procs x).state = .ZOMBIE

section KeepsZombies

variable {s t u : Sys}

lemma KeepsZombies.refl (s : Sys) : KeepsZombies s s := fun _ h => h

lemma KeepsZombies.trans (h₁ : KeepsZombies s t) (h₂ : KeepsZombies t u) : KeepsZombies s u :=
  fun x h => h₂ x (h₁ x h)

lemma KeepsZombies.of_procs (h : t.procs = s.procs) : KeepsZombies s t := fun x hx => by rw [h]; exact hx

lemma keepsZombies_of_wakes (h : Wakes s t) : KeepsZombies s t := fun x hx => by
  rw [h.state_of_not_sleeping (by rw [hx]; decide)]
  exact hx

-- An update of a slot that is no `ZOMBIE`, or that keeps its state.
lemma keepsZombies_setProc {p : Slot} (f : proc → proc)
    (hp : (s.procs p).state ≠ .ZOMBIE ∨ (f (s.procs p)).state = (s.procs p).state) :
    KeepsZombies s (s.setProc p f) := fun x hx => by
  rw [Sys.setProc_procs]
  split_ifs with h
  · subst h
    rcases hp with hp | hp
    · exact absurd hx hp
    · rw [hp]; exact hx
  · exact hx

lemma keepsZombies_sched {c : Cpu} {p : Slot} (h : KeepsZombies s t) : KeepsZombies s (sched c p t) := h

end KeepsZombies

lemma reap_zombie {s u t : Sys} {p z : Slot} {pid : ℤ} (hw : waitScan p u = .reaped z pid t)
    (hu : ∀ x, (u.procs x).state = .ZOMBIE → u.procs x = s.procs x) (hk : KeepsZombies s u) :
    (s.procs z).state = .ZOMBIE ∧ (s.procs z).parent = some p ∧ pid = (s.procs z).pid ∧
      (t.procs z).state = .UNUSED ∧ ∀ x, x ≠ z → (s.procs x).state = .ZOMBIE → (t.procs x).state = .ZOMBIE := by
  obtain ⟨hp, hz, rfl, rfl⟩ := waitScan_reaped hw
  have hs := hu z hz
  refine ⟨hs ▸ hz, hs ▸ hp, by rw [hs], by simp, fun x hx hsx => ?_⟩
  rw [Sys.setProc_ne _ _ hx]
  exact hk x hsx

section Reaps

variable {s t : Sys} {obs : List Obs}

lemma resume_reaps {c : Cpu} {q : Slot} (hq : (s.procs q).state = .RUNNABLE)
    (h : resume c q (switched c q s) = (t, obs)) :
    (KeepsZombies s t ∧ ∀ p z pid, .waitReap p z pid ∉ obs) ∨
    ∃ p z, (s.procs z).state = .ZOMBIE ∧ (s.procs z).parent = some p ∧
      obs = [.waitReap p z (s.procs z).pid] ∧ (t.procs z).state = .UNUSED ∧
      ∀ x, x ≠ z → (s.procs x).state = .ZOMBIE → (t.procs x).state = .ZOMBIE := by
  have hqz : (s.procs q).state ≠ .ZOMBIE := by rw [hq]; decide
  have hsw : KeepsZombies s (switched c q s) :=
    keepsZombies_setProc (p := q) (fun pr => { pr with state := .RUNNING }) (.inl hqz)
  -- `q`'s thread back in its own code: only `q`'s context changes
  have hres : ∀ g : proc → proc, (∀ pr, (g pr).state = pr.state) →
      KeepsZombies s ((switched c q s).setProc q g) :=
    fun g hg => hsw.trans (keepsZombies_setProc g (.inr (hg _)))
  rcases resume_cases h with ⟨-, hr⟩ | ⟨-, rfl, rfl⟩ | ⟨-, -, rfl, rfl⟩
  · have hs2 := hres (fun pr => { pr with chan := none, kstate := .user }) fun _ => rfl
    rcases hr with ⟨z, pid, hz, rfl⟩ | ⟨-, rfl, rfl⟩ | ⟨-, rfl, rfl⟩
    · refine .inr ⟨q, z, ?_⟩
      have hu : ∀ x, (((switched c q s).setProc q fun pr => { pr with chan := none, kstate := .user }).procs x).state =
          .ZOMBIE → ((switched c q s).setProc q fun pr => { pr with chan := none, kstate := .user }).procs x =
            s.procs x := by
        intro x hx
        have hxq : x ≠ q := by rintro rfl; simp at hx
        simp [Sys.setProc_ne _ _ hxq, Function.update_of_ne hxq]
      obtain ⟨hzz, hzp, rfl, hzt, hrest⟩ := reap_zombie hz hu hs2
      exact ⟨hzz, hzp, rfl, hzt, hrest⟩
    · exact .inl ⟨hs2, by simp⟩
    · refine .inl ⟨keepsZombies_sched (hs2.trans (keepsZombies_setProc _ (.inl ?_))), by simp⟩
      simp
  · exact .inl ⟨hres _ fun _ => rfl, by simp⟩
  · exact .inl ⟨hres _ fun _ => rfl, by simp⟩

lemma step_reaps (hi : Inv s) {e : Event} (h : step s e = .ok t obs) :
    (KeepsZombies s t ∧ ∀ p z pid, .waitReap p z pid ∉ obs) ∨
    ∃ p z, (s.procs z).state = .ZOMBIE ∧ (s.procs z).parent = some p ∧
      obs = [.waitReap p z (s.procs z).pid] ∧ (t.procs z).state = .UNUSED ∧
      ∀ x, x ≠ z → (s.procs x).state = .ZOMBIE → (t.procs x).state = .ZOMBIE := by
  -- the process a CPU runs is no `ZOMBIE`
  have hrun : ∀ {c p}, s.cpus c = some p → (s.procs p).state ≠ .ZOMBIE := fun hc => by
    rw [hi.cpu_running _ _ hc]; decide
  cases e with
  | schedule c =>
    obtain ⟨-, -, rfl, rfl⟩ := step_schedule h
    exact .inl ⟨.of_procs rfl, by simp⟩
  | schedNext c =>
    obtain ⟨i, -, ⟨rfl, rfl⟩ | ⟨q, -, hq, hres⟩⟩ := step_schedNext h
    · exact .inl ⟨.of_procs rfl, by simp⟩
    · exact resume_reaps hq hres
  | yield c =>
    obtain ⟨p, -, hc, -, rfl, rfl⟩ := step_yield h
    exact .inl ⟨keepsZombies_sched (keepsZombies_setProc _ (.inl (hrun hc))), by simp⟩
  | sleep c a =>
    obtain ⟨p, hcur, rfl, rfl⟩ := step_sleep h
    exact .inl ⟨keepsZombies_sched (keepsZombies_setProc _ (.inl (hrun (current_some hcur).2.1))), by simp⟩
  | wakeup c a =>
    obtain ⟨-, rfl, rfl⟩ := step_wakeup h
    exact .inl ⟨keepsZombies_of_wakes (wakeup1_wakes _ _), by simp⟩
  | kill c pid =>
    obtain ⟨p, -, rfl, rfl⟩ := step_kill h
    exact .inl ⟨keepsZombies_of_wakes (kill_wakes pid s), by simp⟩
  | exit c =>
    obtain ⟨p, hcur, -, rfl, rfl⟩ := step_exit h
    have hW := (wakeup1_wakes ((s.procs p).parent.map Chan.proc) s).trans (reparent_wakes p _)
    have hp := hrun (current_some hcur).2.1
    refine .inl ⟨keepsZombies_sched ((keepsZombies_of_wakes hW).trans (keepsZombies_setProc _ (.inl ?_))), by simp⟩
    rwa [hW.state_of_not_sleeping (by rw [hi.cpu_running _ _ (current_some hcur).2.1]; decide)]
  | wait c =>
    obtain ⟨p, hcur, ⟨z, pid, hz, rfl⟩ | ⟨-, rfl, rfl⟩ | ⟨-, rfl, rfl⟩⟩ := step_wait h
    · obtain ⟨hzz, hzp, rfl, hzt, hrest⟩ := reap_zombie hz (fun _ _ => rfl) (.refl _)
      exact .inr ⟨p, z, hzz, hzp, rfl, hzt, hrest⟩
    · exact .inl ⟨.refl _, by simp⟩
    · exact .inl ⟨keepsZombies_sched (keepsZombies_setProc _ (.inl (hrun (current_some hcur).2.1))), by simp⟩
  | forkAlloc c =>
    obtain ⟨p, -, ⟨-, rfl, rfl⟩ | ⟨q, u, ha, rfl, rfl⟩⟩ := step_forkAlloc h
    · exact .inl ⟨.refl _, by simp⟩
    · obtain ⟨hq, rfl⟩ := allocproc_some ha
      have hk : KeepsZombies s (s.setProc q fun pr => { pr with state := .EMBRYO, pid := s.nextpid, kstate := .fresh }) :=
        keepsZombies_setProc _ (.inl (by rw [hq]; decide))
      -- `allocproc`'s `nextpid` update leaves the table as it is
      exact .inl ⟨fun x hx => keepsZombies_setProc _ (.inr rfl) x (hk x hx), by simp⟩
  | forkFail c =>
    obtain ⟨p, q, hcur, hpf, rfl, rfl⟩ := step_forkFail h
    have hq : (s.procs q).state ≠ .ZOMBIE := by rw [(hi.child_embryo p q hpf).2]; decide
    exact .inl ⟨(keepsZombies_setProc _ (.inl hq)).trans (keepsZombies_setProc _ (.inr rfl)), by simp⟩
  | forkDone c =>
    obtain ⟨p, q, hcur, hpf, rfl, rfl⟩ := step_forkDone h
    have hq : (s.procs q).state ≠ .ZOMBIE := by rw [(hi.child_embryo p q hpf).2]; decide
    exact .inl ⟨(keepsZombies_setProc _ (.inl hq)).trans (keepsZombies_setProc _ (.inr rfl)), by simp⟩

lemma step_waitFail {e : Event} {p : Slot} (h : step s e = .ok t obs) (hp : .waitFail p ∈ obs) :
    waitScan p t = .failed := by
  cases e with
  | schedule c => obtain ⟨-, -, -, rfl⟩ := step_schedule h; simp at hp
  | schedNext c =>
    obtain ⟨i, -, ⟨-, rfl⟩ | ⟨q, -, -, hres⟩⟩ := step_schedNext h
    · simp at hp
    · rcases resume_cases hres with ⟨-, ⟨z, pid, -, rfl⟩ | ⟨hw, rfl, rfl⟩ | ⟨-, -, rfl⟩⟩ | ⟨-, -, rfl⟩ |
          ⟨-, -, -, rfl⟩
      · simp at hp
      · simp only [List.mem_singleton, Obs.waitFail.injEq] at hp
        rw [hp]
        exact hw
      all_goals simp at hp
  | yield c => obtain ⟨p, -, -, -, -, rfl⟩ := step_yield h; simp at hp
  | sleep c a => obtain ⟨p, -, -, rfl⟩ := step_sleep h; simp at hp
  | wakeup c a => obtain ⟨-, -, rfl⟩ := step_wakeup h; simp at hp
  | kill c pid => obtain ⟨p, -, -, rfl⟩ := step_kill h; simp at hp
  | exit c => obtain ⟨p, -, -, -, rfl⟩ := step_exit h; simp at hp
  | wait c =>
    obtain ⟨p', -, ⟨z, pid, -, rfl⟩ | ⟨hw, rfl, rfl⟩ | ⟨-, -, rfl⟩⟩ := step_wait h
    · simp at hp
    · simp only [List.mem_singleton, Obs.waitFail.injEq] at hp
      rw [hp]
      exact hw
    · simp at hp
  | forkAlloc c =>
    obtain ⟨p', -, ⟨-, -, rfl⟩ | ⟨q, u, -, -, rfl⟩⟩ := step_forkAlloc h <;> simp at hp
  | forkFail c => obtain ⟨p', q, -, -, -, rfl⟩ := step_forkFail h; simp at hp
  | forkDone c => obtain ⟨p', q, -, -, -, rfl⟩ := step_forkDone h; simp at hp

end Reaps

/-! ### The parent discipline -/

/-- `fork`'s child between `allocproc` and `np->parent = curproc` is in use and has no parent: the
first part of the discipline below fails for it as the table's invariant states it for all slots. -/
theorem embryo_has_no_parent :
    ¬ ∀ s, Reachable s → ∀ q, q ≠ initproc → (s.procs q).state ≠ .UNUSED →
      ∃ p, (s.procs q).parent = some p ∧ (s.procs p).state ≠ .UNUSED := by
  intro h
  have key : ∀ s, Reachable s → (s.procs 1).state ≠ .UNUSED → (s.procs 1).parent = none → False := by
    intro s hs hu hn
    obtain ⟨p, hp, -⟩ := h s hs 1 (by decide) hu
    rw [hn] at hp
    cases hp
  -- `init` is scheduled on CPU 0 and calls `fork`, whose `allocproc` takes slot 1
  exact key _ (.step (.forkAlloc 0) (.step (.schedNext 0) (.step (.schedule 0) .init rfl) rfl) rfl)
    (by decide +kernel) (by decide +kernel)

/-- Every process past `fork` other than `init` has a parent that is in use; a `ZOMBIE` is freed only
by the `wait` of its current parent, which returns that child's pid in that step and in no other;
`wait` returns -1 only to a caller with no children or that has been killed; and `init` is never a
`ZOMBIE`. -/
theorem ptable_parent_discipline :
    (∀ s, Reachable s → ∀ q, q ≠ initproc → (s.procs q).state ≠ .UNUSED → (s.procs q).state ≠ .EMBRYO →
      ∃ p, (s.procs q).parent = some p ∧ (s.procs p).state ≠ .UNUSED) ∧
    (∀ s e t obs, Reachable s → step s e = .ok t obs → ∀ q,
      (s.procs q).state = .ZOMBIE → (t.procs q).state = .UNUSED →
        ∃ p, (s.procs q).parent = some p ∧ obs = [.waitReap p q (s.procs q).pid]) ∧
    (∀ s e t obs, Reachable s → step s e = .ok t obs → ∀ p q pid, .waitReap p q pid ∈ obs →
      (s.procs q).state = .ZOMBIE ∧ (s.procs q).parent = some p ∧ pid = (s.procs q).pid ∧
        (t.procs q).state = .UNUSED) ∧
    (∀ s e t obs, Reachable s → step s e = .ok t obs → ∀ p, .waitFail p ∈ obs →
      (∀ q, (t.procs q).parent ≠ some p) ∨ (t.procs p).killed = true) ∧
    (∀ s, Reachable s → (s.procs initproc).state ≠ .ZOMBIE) := by
  refine ⟨fun s hs q hq hu he => ?_, fun s e t obs hs h q hz hu => ?_, fun s e t obs hs h p q pid hm => ?_,
    fun s e t obs hs h p hm => waitScan_failed (step_waitFail h hm), fun s hs h => ?_⟩
  · -- the parent of a slot past `fork` is live
    have hi := inv_of_reachable hs
    obtain ⟨p, hp⟩ := Option.ne_none_iff_exists'.mp ((hi.wf q).has_parent hq hu he)
    refine ⟨p, hp, fun h => ?_⟩
    have hl := hi.parent_live q p hp
    rw [h] at hl
    exact absurd hl (by decide)
  · rcases step_reaps (inv_of_reachable hs) h with ⟨hk, -⟩ | ⟨p, z, -, hzp, rfl, -, hrest⟩
    · rw [hk q hz] at hu; cases hu
    · by_cases hqz : q = z
      · subst hqz
        exact ⟨p, hzp, rfl⟩
      · rw [hrest q hqz hz] at hu; cases hu
  · rcases step_reaps (inv_of_reachable hs) h with ⟨-, hno⟩ | ⟨p', z, hzz, hzp, rfl, hzt, -⟩
    · exact absurd hm (hno p q pid)
    · simp only [List.mem_singleton, Obs.waitReap.injEq] at hm
      obtain ⟨rfl, rfl, rfl⟩ := hm
      exact ⟨hzz, hzp, rfl, hzt⟩
  · have hl := ((inv_of_reachable hs).wf initproc).init_live rfl
    rw [h] at hl
    exact absurd hl (by decide)

/-! ### `nextpid` wraps

`allocproc` hands out `nextpid++` with no check against the live processes, also when the `fork` that
called it fails afterwards. `init` forking and failing `2^32 - 1` times brings the counter back to 1. -/

section Wrap

-- `init` runs in its own code on CPU 0 outside `fork`, and slot 1 is unused.
structure ForkReady (s : Sys) : Prop where
  current : current s 0 false = some initproc
  init_live : (s.procs initproc).state ≠ .UNUSED
  slot1 : (s.procs 1).state = .UNUSED

lemma allocproc_slot1 {s : Sys} (h0 : (s.procs 0).state ≠ .UNUSED) (h1 : (s.procs 1).state = .UNUSED) :
    allocproc s = some (1, { s.setProc 1 (fun pr => { pr with state := .EMBRYO, pid := s.nextpid, kstate := .fresh }) with
      nextpid := wrapInt (s.nextpid + 1) }) := by
  have hf : (List.finRange NPROC).find? (fun q => (s.procs q).state = .UNUSED) = some 1 := by
    rw [List.find?_eq_some_iff_getElem]
    refine ⟨by simpa using h1, 1, by decide, rfl, fun j hj => ?_⟩
    obtain rfl : j = 0 := by omega
    simpa using h0
  unfold allocproc
  rw [hf]

-- The table after `fork` in `init` has taken slot 1: `np` is `EMBRYO` with pid `nextpid`.
def forkedAt1 (s : Sys) : Sys :=
  ({ s.setProc 1 (fun pr => { pr with state := .EMBRYO, pid := s.nextpid, kstate := .fresh }) with
    nextpid := wrapInt (s.nextpid + 1) } : Sys).setProc initproc fun pr => { pr with forkChild := some 1 }

lemma forkedAt1_init (s : Sys) : (forkedAt1 s).procs initproc = { s.procs initproc with forkChild := some 1 } := by
  rw [forkedAt1, Sys.setProc_same]
  dsimp only
  rw [Sys.setProc_ne _ _ (by decide)]

lemma forkedAt1_slot1 (s : Sys) :
    (forkedAt1 s).procs 1 = { s.procs 1 with state := .EMBRYO, pid := s.nextpid, kstate := .fresh } := by
  rw [forkedAt1, Sys.setProc_ne _ _ (by decide)]
  dsimp only
  rw [Sys.setProc_same]

lemma step_forkAlloc_ready {s : Sys} (h : ForkReady s) : step s (.forkAlloc 0) = .ok (forkedAt1 s) [] := by
  unfold step
  dsimp only
  rw [h.current]
  dsimp only
  rw [allocproc_slot1 h.init_live h.slot1]
  rfl

lemma current_forkedAt1 {s : Sys} (h : ForkReady s) : current (forkedAt1 s) 0 true = some initproc := by
  obtain ⟨hl, hc, hk, -⟩ := current_some h.current
  exact current_of hl hc (by rw [forkedAt1_init]; exact hk) (by rw [forkedAt1_init]; rfl)

lemma fork_fail_cycle {s : Sys} (h : ForkReady s) :
    ∃ u, step (forkedAt1 s) (.forkFail 0) = .ok u [.forkRet initproc (-1)] ∧
      ForkReady u ∧ (u.procs initproc).pid = (s.procs initproc).pid ∧ u.nextpid = wrapInt (s.nextpid + 1) := by
  obtain ⟨hl, hc, hk, hf⟩ := current_some h.current
  set u := ((forkedAt1 s).setProc 1 fun pr => { pr with state := .UNUSED }).setProc initproc
    fun pr => { pr with forkChild := none } with hu
  have hfail : step (forkedAt1 s) (.forkFail 0) = .ok u [.forkRet initproc (-1)] := by
    unfold step
    dsimp only
    rw [current_forkedAt1 h]
    dsimp only
    rw [forkedAt1_init]
  have hu0 : u.procs initproc = s.procs initproc := by
    rw [hu, Sys.setProc_same, Sys.setProc_ne _ _ (by decide), forkedAt1_init]
    cases hs : s.procs initproc
    rw [hs] at hf
    simp_all
  have hu1 : (u.procs 1).state = .UNUSED := by
    rw [hu, Sys.setProc_ne _ _ (by decide), Sys.setProc_same]
  refine ⟨u, hfail, ⟨current_of hl hc (by rw [hu0]; exact hk) (by rw [hu0]; exact hf), ?_, hu1⟩, by rw [hu0], rfl⟩
  rw [hu0]
  exact h.init_live

theorem boot_forkReady :
    let s := (resume 0 initproc (switched 0 initproc (userinit.setScan 0 (some 0)))).1
    Reachable s ∧ ForkReady s ∧ (s.procs initproc).pid = 1 ∧ s.nextpid = wrapInt 2 := by
  intro s
  refine ⟨.step (.schedNext 0) (.step (.schedule 0) .init rfl) rfl, ⟨?_, ?_, ?_⟩, ?_, ?_⟩ <;> decide +kernel

/-- `k` failed `fork`s of `init` after boot. -/
theorem fork_fail_runs : ∀ k : ℕ, ∃ s, Reachable s ∧ ForkReady s ∧ (s.procs initproc).pid = 1 ∧
    s.nextpid = wrapInt (2 + k)
  | 0 => ⟨_, boot_forkReady⟩
  | k + 1 => by
    obtain ⟨s, hr, hs, hp, hn⟩ := fork_fail_runs k
    obtain ⟨u, hfail, hu, hpu, hnu⟩ := fork_fail_cycle hs
    refine ⟨u, .step (.forkFail 0) (.step (.forkAlloc 0) hr (step_forkAlloc_ready hs)) hfail, hu, by rw [hpu, hp], ?_⟩
    rw [hnu, hn, wrapInt, wrapInt, wrapInt, Int.bmod_add_bmod]
    push_cast
    ring_nf

/-- After `2^32 - 1` failed `fork`s, `fork` in `init` gives the child pid 1, `init`'s own. -/
theorem pid_reused_after_wrap :
    ∃ s, Reachable s ∧ ∃ p q, p ≠ q ∧ (s.procs p).state ≠ .UNUSED ∧ (s.procs q).state ≠ .UNUSED ∧
      (s.procs p).pid = (s.procs q).pid := by
  obtain ⟨s, hr, hs, hp, hn⟩ := fork_fail_runs (2 ^ 32 - 1)
  have hn1 : s.nextpid = 1 := by rw [hn]; rfl
  have h01 : (1 : Slot) ≠ initproc := by decide
  -- `fork` completes: the child in slot 1 becomes `RUNNABLE` with pid 1
  set u := ((forkedAt1 s).setProc 1 fun pr => { pr with parent := some initproc, state := .RUNNABLE }).setProc initproc
    fun pr => { pr with forkChild := none } with hu
  have hdone : step (forkedAt1 s) (.forkDone 0) = .ok u [.forkRet initproc ((forkedAt1 s).procs 1).pid] := by
    unfold step
    dsimp only
    rw [current_forkedAt1 hs]
    dsimp only
    rw [forkedAt1_init]
  refine ⟨u, .step (.forkDone 0) (.step (.forkAlloc 0) hr (step_forkAlloc_ready hs)) hdone, initproc, 1, h01.symm,
    ?_, ?_, ?_⟩
  · rw [hu, Sys.setProc_same, Sys.setProc_ne _ _ h01.symm, forkedAt1_init]
    exact hs.init_live
  · rw [hu, Sys.setProc_ne _ _ h01, Sys.setProc_same]
    exact fun h => nomatch h
  · rw [hu, Sys.setProc_same, Sys.setProc_ne _ _ h01.symm, forkedAt1_init, Sys.setProc_ne _ _ h01, Sys.setProc_same,
      forkedAt1_slot1, hn1]
    exact hp

end Wrap

end Xv6Net.Kernel.ProcSafety
