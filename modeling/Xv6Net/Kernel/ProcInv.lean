import Xv6Net.Kernel.Proc

/-! What holds of the process table in every reachable state: the lock and the CPUs' `c->proc`,
where each kernel thread is stopped, and the parent links. -/

namespace Xv6Net.Kernel.ProcInv

open Xv6Net.Fs.Layout Xv6Net.Kernel.Proc

def Live (st : procstate) : Prop := st = .SLEEPING ∨ st = .RUNNABLE ∨ st = .RUNNING

instance : DecidablePred Live := fun _ => inferInstanceAs (Decidable (_ ∨ _ ∨ _))

/-- What each slot satisfies on its own: the saved context fits the state, and the parent link is
set exactly for the processes past `fork`. -/
structure Wf (q : Slot) (pr : proc) : Prop where
  running_user : pr.state = .RUNNING → pr.kstate = .user
  runnable_k : pr.state = .RUNNABLE → pr.kstate ≠ .user
  sleeping_k : pr.state = .SLEEPING → pr.kstate = .slept ∨ pr.kstate = .waited
  embryo_fresh : pr.state = .EMBRYO → pr.kstate = .fresh
  fork_k : pr.forkChild ≠ none → pr.kstate = .user ∨ pr.kstate = .yielded
  orphan : pr.state = .UNUSED ∨ pr.state = .EMBRYO → pr.parent = none
  has_parent : q ≠ initproc → pr.state ≠ .UNUSED → pr.state ≠ .EMBRYO → pr.parent ≠ none
  init_live : q = initproc → Live pr.state

structure Inv (s : Sys) : Prop where
  wf : ∀ q, Wf q (s.procs q)
  lock_excl : ∀ c c', s.scan c ≠ none → s.scan c' ≠ none → c = c'
  scan_idle : ∀ c, s.scan c ≠ none → s.cpus c = none
  cpu_running : ∀ c p, s.cpus c = some p → (s.procs p).state = .RUNNING
  running_cpu : ∀ p, (s.procs p).state = .RUNNING → ∃ c, s.cpus c = some p
  cpu_inj : ∀ c c' p, s.cpus c = some p → s.cpus c' = some p → c = c'
  child_embryo : ∀ p q, (s.procs p).forkChild = some q →
    ((s.procs p).state = .RUNNING ∨ (s.procs p).state = .RUNNABLE) ∧ (s.procs q).state = .EMBRYO
  child_unique : ∀ p p' q, (s.procs p).forkChild = some q → (s.procs p').forkChild = some q → p = p'
  embryo_child : ∀ q, (s.procs q).state = .EMBRYO → ∃ p, (s.procs p).forkChild = some q
  parent_live : ∀ q p, (s.procs q).parent = some p → Live (s.procs p).state

/-! ### Wake-ups

`wakeup1`, `kill` and `exit`'s re-parenting loop only turn `SLEEPING` processes `RUNNABLE` and move
parent links to `initproc`. -/

structure Wakes (s t : Sys) : Prop where
  cpus : t.cpus = s.cpus
  scan : t.scan = s.scan
  kstate : ∀ q, (t.procs q).kstate = (s.procs q).kstate
  forkChild : ∀ q, (t.procs q).forkChild = (s.procs q).forkChild
  state : ∀ q, (t.procs q).state = (s.procs q).state ∨
    ((s.procs q).state = .SLEEPING ∧ (t.procs q).state = .RUNNABLE)
  parent_none : ∀ q, (t.procs q).parent = none ↔ (s.procs q).parent = none
  parent_some : ∀ q p, (t.procs q).parent = some p → (s.procs q).parent = some p ∨ p = initproc

section Wakes

variable {s t u : Sys}

lemma Wakes.refl (s : Sys) : Wakes s s :=
  ⟨rfl, rfl, fun _ => rfl, fun _ => rfl, fun _ => .inl rfl, fun _ => Iff.rfl, fun _ _ h => .inl h⟩

lemma Wakes.trans (h₁ : Wakes s t) (h₂ : Wakes t u) : Wakes s u where
  cpus := h₂.cpus.trans h₁.cpus
  scan := h₂.scan.trans h₁.scan
  kstate q := (h₂.kstate q).trans (h₁.kstate q)
  forkChild q := (h₂.forkChild q).trans (h₁.forkChild q)
  state q := by
    rcases h₁.state q with h | ⟨hs, ht⟩ <;> rcases h₂.state q with h' | ⟨hs', ht'⟩
    · exact .inl (h'.trans h)
    · exact .inr ⟨h ▸ hs', ht'⟩
    · exact .inr ⟨hs, h'.trans ht⟩
    · rw [ht] at hs'
      cases hs'
  parent_none q := (h₂.parent_none q).trans (h₁.parent_none q)
  parent_some q p h := by
    rcases h₂.parent_some q p h with h' | h'
    · exact h₁.parent_some q p h'
    · exact .inr h'

lemma Wakes.state_of_ne (h : Wakes s t) {q : Slot} (hq : (t.procs q).state ≠ .RUNNABLE) :
    (t.procs q).state = (s.procs q).state := by
  rcases h.state q with h' | ⟨_, h'⟩
  · exact h'
  · exact absurd h' hq

lemma Wakes.state_of_not_sleeping (h : Wakes s t) {q : Slot} (hq : (s.procs q).state ≠ .SLEEPING) :
    (t.procs q).state = (s.procs q).state := by
  rcases h.state q with h' | ⟨h', _⟩
  · exact h'
  · exact absurd h' hq

lemma Wakes.live (h : Wakes s t) {q : Slot} (hq : Live (s.procs q).state) : Live (t.procs q).state := by
  rcases h.state q with h' | ⟨_, h'⟩
  · rwa [h']
  · exact .inr (.inl h')

lemma Wakes.wf (h : Wakes s t) {q : Slot} (hq : Wf q (s.procs q)) : Wf q (t.procs q) := by
  have hk := h.kstate q
  rcases h.state q with hs | ⟨hs, ht⟩
  · exact
      { running_user := fun h' => hk ▸ hq.running_user (hs ▸ h')
        runnable_k := fun h' => hk ▸ hq.runnable_k (hs ▸ h')
        sleeping_k := fun h' => hk ▸ hq.sleeping_k (hs ▸ h')
        embryo_fresh := fun h' => hk ▸ hq.embryo_fresh (hs ▸ h')
        fork_k := fun h' => hk ▸ hq.fork_k (h.forkChild q ▸ h')
        orphan := fun h' => (h.parent_none q).2 (hq.orphan (hs ▸ h'))
        has_parent := fun h₁ h₂ h₃ => by rw [Ne, h.parent_none]; exact hq.has_parent h₁ (hs ▸ h₂) (hs ▸ h₃)
        init_live := fun h' => h.live (hq.init_live h') }
  · -- the slot was woken: it had slept, so its saved context is `slept` or `waited`
    have hsk := hq.sleeping_k hs
    exact
      { running_user := fun h' => by rw [ht] at h'; cases h'
        runnable_k := fun _ => by rw [hk]; rcases hsk with h' | h' <;> rw [h'] <;> decide
        sleeping_k := fun h' => by rw [ht] at h'; cases h'
        embryo_fresh := fun h' => by rw [ht] at h'; cases h'
        fork_k := fun h' => hk ▸ hq.fork_k (h.forkChild q ▸ h')
        orphan := fun h' => by rw [ht] at h'; rcases h' with h' | h' <;> cases h'
        has_parent := fun h₁ _ _ => by
          rw [Ne, h.parent_none]; exact hq.has_parent h₁ (by rw [hs]; decide) (by rw [hs]; decide)
        init_live := fun h' => h.live (hq.init_live h') }

lemma Inv.of_wakes (hi : Inv s) (h : Wakes s t) : Inv t where
  wf q := h.wf (hi.wf q)
  lock_excl := by rw [h.scan]; exact hi.lock_excl
  scan_idle := by rw [h.scan, h.cpus]; exact hi.scan_idle
  cpu_running c p hc := by
    rw [h.cpus] at hc
    have := hi.cpu_running c p hc
    rw [h.state_of_not_sleeping (by rw [this]; decide), this]
  running_cpu p hp := by
    rw [h.cpus]
    exact hi.running_cpu p (by rw [← h.state_of_ne (by rw [hp]; decide), hp])
  cpu_inj := by rw [h.cpus]; exact hi.cpu_inj
  child_embryo p q hpq := by
    rw [h.forkChild] at hpq
    obtain ⟨hp, hq⟩ := hi.child_embryo p q hpq
    refine ⟨?_, by rw [h.state_of_not_sleeping (by rw [hq]; decide), hq]⟩
    rcases hp with hp | hp
    · exact .inl (by rw [h.state_of_not_sleeping (by rw [hp]; decide), hp])
    · exact .inr (by rw [h.state_of_not_sleeping (by rw [hp]; decide), hp])
  child_unique p p' q := by rw [h.forkChild, h.forkChild]; exact hi.child_unique p p' q
  embryo_child q hq := by
    obtain ⟨p, hp⟩ := hi.embryo_child q (by rw [← h.state_of_ne (by rw [hq]; decide), hq])
    exact ⟨p, by rw [h.forkChild]; exact hp⟩
  parent_live q p hq := by
    rcases h.parent_some q p hq with hq | rfl
    · exact h.live (hi.parent_live q p hq)
    · exact h.live ((hi.wf initproc).init_live rfl)

lemma wakeup1_wakes (ch : Option Chan) (s : Sys) : Wakes s (wakeup1 ch s) where
  cpus := rfl
  scan := rfl
  kstate q := by simp only [wakeup1]; split <;> rfl
  forkChild q := by simp only [wakeup1]; split <;> rfl
  state q := by
    simp only [wakeup1]
    split
    · rename_i h
      exact .inr ⟨h.1, rfl⟩
    · exact .inl rfl
  parent_none q := by simp only [wakeup1]; split <;> rfl
  parent_some q p h := by
    simp only [wakeup1] at h
    split at h <;> exact .inl h

lemma Wakes.setProc (s : Sys) (q : Slot) (f : proc → proc)
    (hk : (f (s.procs q)).kstate = (s.procs q).kstate) (hc : (f (s.procs q)).forkChild = (s.procs q).forkChild)
    (hs : (f (s.procs q)).state = (s.procs q).state ∨
      ((s.procs q).state = .SLEEPING ∧ (f (s.procs q)).state = .RUNNABLE))
    (hpn : (f (s.procs q)).parent = none ↔ (s.procs q).parent = none)
    (hps : ∀ p, (f (s.procs q)).parent = some p → (s.procs q).parent = some p ∨ p = initproc) :
    Wakes s (s.setProc q f) where
  cpus := rfl
  scan := rfl
  kstate q' := by
    rw [Sys.setProc_procs]
    split_ifs with h
    · subst h; exact hk
    · rfl
  forkChild q' := by
    rw [Sys.setProc_procs]
    split_ifs with h
    · subst h; exact hc
    · rfl
  state q' := by
    rw [Sys.setProc_procs]
    split_ifs with h
    · subst h; exact hs
    · exact .inl rfl
  parent_none q' := by
    rw [Sys.setProc_procs]
    split_ifs with h
    · subst h; exact hpn
    · exact Iff.rfl
  parent_some q' p := by
    rw [Sys.setProc_procs]
    split_ifs with h
    · subst h; exact hps p
    · exact .inl

lemma kill_wakes (pid : ℤ) (s : Sys) : Wakes s (kill pid s).2 := by
  unfold kill
  split
  · exact Wakes.refl s
  · rename_i q _
    dsimp only
    apply Wakes.setProc
    · rfl
    · rfl
    · dsimp only
      split
      · rename_i h
        exact .inr ⟨h, rfl⟩
      · exact .inl rfl
    · exact Iff.rfl
    · intro p h
      exact .inl h

lemma reparentOne_wakes (cur : Slot) (s : Sys) (q : Slot) : Wakes s (reparentOne cur s q) := by
  unfold reparentOne
  split
  · rename_i hcur
    have hset : Wakes s (s.setProc q fun pr => { pr with parent := some initproc }) := by
      apply Wakes.setProc
      · rfl
      · rfl
      · exact .inl rfl
      · simp [hcur]
      · intro p h
        exact .inr (Option.some_injective _ h).symm
    dsimp only
    split
    · exact hset.trans (wakeup1_wakes _ _)
    · exact hset
  · exact Wakes.refl s

lemma reparent_wakes (cur : Slot) (s : Sys) : Wakes s (reparent cur s) := by
  unfold reparent
  generalize List.finRange NPROC = l
  induction l generalizing s with
  | nil => exact Wakes.refl s
  | cons q l ih => exact (reparentOne_wakes cur s q).trans (ih _)

end Wakes

lemma reparentOne_parent (cur q : Slot) (s : Sys) (q' : Slot) :
    ((reparentOne cur s q).procs q').parent =
      if q' = q ∧ (s.procs q).parent = some cur then some initproc else (s.procs q').parent := by
  unfold reparentOne
  by_cases h : (s.procs q).parent = some cur
  · rw [if_pos h]
    have hp : ((s.setProc q fun pr => { pr with parent := some initproc }).procs q').parent =
        if q' = q ∧ (s.procs q).parent = some cur then some initproc else (s.procs q').parent := by
      rw [Sys.setProc_procs]
      by_cases hq : q' = q <;> simp [hq, h]
    have hw : ∀ (P : Prop) [Decidable P] (u : Sys),
        ((if P then wakeup1 (some (.proc initproc)) u else u).procs q').parent = (u.procs q').parent := by
      intro P _ u
      split <;> simp
    dsimp only
    rw [hw, hp]
  · simp [h]

lemma reparent_no_child {cur : Slot} (hcur : cur ≠ initproc) (s : Sys) (q : Slot) :
    ((reparent cur s).procs q).parent ≠ some cur := by
  unfold reparent
  suffices ∀ (l : List Slot) (s : Sys), (q ∈ l ∨ (s.procs q).parent ≠ some cur) →
      ((l.foldl (reparentOne cur) s).procs q).parent ≠ some cur from
    this _ s (.inl (List.mem_finRange q))
  intro l
  induction l with
  | nil =>
    intro s h
    simpa using h
  | cons a l ih =>
    intro s h
    apply ih
    by_cases hl : q ∈ l
    · exact .inl hl
    · right
      rw [reparentOne_parent]
      split_ifs with h'
      · exact fun e => hcur (Option.some_injective _ e).symm
      · rcases h with h | h
        · have hqa : q = a := by simpa [hl] using h
          subst hqa
          exact fun e => h' ⟨rfl, e⟩
        · exact h

section Facts

variable {s : Sys} {q : Slot}

-- Only a process on its way through `fork` has a child under construction.
lemma Inv.forkChild_eq_none (hi : Inv s) (hr : (s.procs q).state ≠ .RUNNING)
    (hr' : (s.procs q).state ≠ .RUNNABLE) : (s.procs q).forkChild = none := by
  rcases hf : (s.procs q).forkChild with _ | x
  · rfl
  · rcases (hi.child_embryo q x hf).1 with h | h
    · exact absurd h hr
    · exact absurd h hr'

lemma Inv.ne_initproc (hi : Inv s) (hq : ¬ Live (s.procs q).state) : q ≠ initproc := by
  rintro rfl
  exact hq ((hi.wf initproc).init_live rfl)

lemma Inv.parent_ne (hi : Inv s) (hq : ¬ Live (s.procs q).state) (x : Slot) : (s.procs x).parent ≠ some q :=
  fun hx => hq (hi.parent_live x q hx)

end Facts

/-! ### One lemma per kind of step

Each takes the pre-state's invariant and the new values of the table, the CPUs and the scan
positions, so that a step whose code differs only in the order of its updates still uses it. -/

section Steps

variable {s t : Sys} {c : Cpu} {p q : Slot}

lemma update_eq_some {α β : Type} [DecidableEq α] {f : α → Option β} {a a' : α} {v : Option β} {x : β}
    (h : Function.update f a v a' = some x) : (a' = a ∧ v = some x) ∨ (a' ≠ a ∧ f a' = some x) := by
  by_cases ha : a' = a
  · subst ha
    rw [Function.update_self] at h
    exact .inl ⟨rfl, h⟩
  · rw [Function.update_of_ne ha] at h
    exact .inr ⟨ha, h⟩

lemma update_ne_none {α β : Type} [DecidableEq α] {f : α → Option β} {a a' : α}
    (h : Function.update f a none a' ≠ none) : a' ≠ a ∧ f a' ≠ none := by
  by_cases ha : a' = a
  · subst ha
    rw [Function.update_self] at h
    exact absurd rfl h
  · rw [Function.update_of_ne ha] at h
    exact ⟨ha, h⟩

lemma Wf.descheduled {pr r : proc} (hw : Wf q pr) (hr : pr.state = .RUNNING)
    (hst : r.state = .RUNNABLE ∨ r.state = .SLEEPING ∨ r.state = .ZOMBIE)
    (hrk : r.state = .RUNNABLE → r.kstate ≠ .user)
    (hsk : r.state = .SLEEPING → r.kstate = .slept ∨ r.kstate = .waited)
    (hfk : r.forkChild ≠ none → r.kstate = .user ∨ r.kstate = .yielded)
    (hpar : r.parent = pr.parent) (hinit : q = initproc → Live r.state) : Wf q r where
  running_user h := by rcases hst with h' | h' | h' <;> rw [h'] at h <;> cases h
  runnable_k := hrk
  sleeping_k := hsk
  embryo_fresh h := by rcases hst with h' | h' | h' <;> rw [h'] at h <;> cases h
  fork_k := hfk
  orphan h := by rcases hst with h' | h' | h' <;> rcases h with h | h <;> rw [h'] at h <;> cases h
  has_parent h _ _ := by rw [hpar]; exact hw.has_parent h (by rw [hr]; decide) (by rw [hr]; decide)
  init_live := hinit

lemma Wf.of_unused {pr : proc} (hs : pr.state = .UNUSED) (hp : pr.parent = none)
    (hf : pr.forkChild = none) (hq : q ≠ initproc) : Wf q pr where
  running_user h := by rw [hs] at h; cases h
  runnable_k h := by rw [hs] at h; cases h
  sleeping_k h := by rw [hs] at h; cases h
  embryo_fresh h := by rw [hs] at h; cases h
  fork_k h := absurd hf h
  orphan _ := hp
  has_parent _ h _ := absurd hs h
  init_live h := absurd h hq

lemma Inv.sched (hi : Inv s) (hl : s.lockFree) (hc : s.cpus c = some p) {r : proc} (hwf : Wf p r)
    (hst : r.state = .RUNNABLE ∨ r.state = .SLEEPING ∨ r.state = .ZOMBIE)
    (hpar : r.parent = (s.procs p).parent) (hfc : r.forkChild = (s.procs p).forkChild)
    (hfork : (s.procs p).forkChild ≠ none → r.state = .RUNNABLE)
    (hlive : ¬ Live r.state → ∀ q, (s.procs q).parent ≠ some p) {n : ℕ}
    (htp : t.procs = Function.update s.procs p r) (htc : t.cpus = Function.update s.cpus c none)
    (hts : t.scan = Function.update s.scan c (some n)) : Inv t := by
  have hpr : (s.procs p).state = .RUNNING := hi.cpu_running c p hc
  have hrr : r.state ≠ .RUNNING := by rcases hst with h | h | h <;> rw [h] <;> decide
  have hre : r.state ≠ .EMBRYO := by rcases hst with h | h | h <;> rw [h] <;> decide
  have hfc' : ∀ q, (t.procs q).forkChild = (s.procs q).forkChild := by
    intro q
    rw [htp, Function.update_apply]
    split_ifs with h
    · rw [h, hfc]
    · rfl
  have hscan : ∀ c', t.scan c' ≠ none → c' = c := by
    intro c' h
    by_contra hne
    rw [hts, Function.update_of_ne hne, hl c'] at h
    exact h rfl
  -- the slots other than `p` keep their state
  have hother : ∀ q, q ≠ p → t.procs q = s.procs q := fun q h => by rw [htp, Function.update_of_ne h]
  refine
    { wf := fun q => ?_
      lock_excl := fun c₁ c₂ h₁ h₂ => (hscan c₁ h₁).trans (hscan c₂ h₂).symm
      scan_idle := fun c' h => by rw [hscan c' h, htc, Function.update_self]
      cpu_running := fun c' p' h => ?_
      running_cpu := fun p' h => ?_
      cpu_inj := fun c₁ c₂ p' h₁ h₂ => ?_
      child_embryo := fun p' q' h => ?_
      child_unique := fun p₁ p₂ q' => by rw [hfc', hfc']; exact hi.child_unique p₁ p₂ q'
      embryo_child := fun q' h => ?_
      parent_live := fun q' p' h => ?_ }
  · by_cases h : q = p
    · subst h
      rw [htp, Function.update_self]
      exact hwf
    · rw [hother q h]
      exact hi.wf q
  · rw [htc] at h
    rcases update_eq_some h with ⟨_, h⟩ | ⟨hne, h⟩
    · cases h
    · have hp' : p' ≠ p := by rintro rfl; exact hne (hi.cpu_inj c' c p' h hc)
      rw [hother p' hp']
      exact hi.cpu_running c' p' h
  · have hp' : p' ≠ p := by rintro rfl; rw [htp, Function.update_self] at h; exact hrr h
    rw [hother p' hp'] at h
    obtain ⟨c', hc'⟩ := hi.running_cpu p' h
    have hne : c' ≠ c := by rintro rfl; rw [hc] at hc'; exact hp' (Option.some_injective _ hc').symm
    exact ⟨c', by rw [htc, Function.update_of_ne hne]; exact hc'⟩
  · rw [htc] at h₁ h₂
    rcases update_eq_some h₁ with ⟨_, h₁⟩ | ⟨_, h₁⟩
    · cases h₁
    rcases update_eq_some h₂ with ⟨_, h₂⟩ | ⟨_, h₂⟩
    · cases h₂
    exact hi.cpu_inj c₁ c₂ p' h₁ h₂
  · rw [hfc'] at h
    obtain ⟨hp', hq'⟩ := hi.child_embryo p' q' h
    have hqp : q' ≠ p := by rintro rfl; rw [hpr] at hq'; cases hq'
    refine ⟨?_, by rw [hother q' hqp]; exact hq'⟩
    by_cases hpp : p' = p
    · subst hpp
      rw [htp, Function.update_self]
      exact .inr (hfork (by rw [h]; simp))
    · rw [hother p' hpp]
      exact hp'
  · have hqp : q' ≠ p := by rintro rfl; rw [htp, Function.update_self] at h; exact hre h
    rw [hother q' hqp] at h
    obtain ⟨p', hp'⟩ := hi.embryo_child q' h
    exact ⟨p', by rw [hfc']; exact hp'⟩
  · have h' : (s.procs q').parent = some p' := by
      by_cases hq : q' = p
      · subst hq
        rw [htp, Function.update_self, hpar] at h
        exact h
      · rwa [hother q' hq] at h
    by_cases hpp : p' = p
    · subst hpp
      rw [htp, Function.update_self]
      by_contra hn
      exact hlive hn q' h'
    · rw [hother p' hpp]
      exact hi.parent_live q' p' h'

lemma Inv.switch (hi : Inv s) (hsc : s.scan c ≠ none) (hq : (s.procs q).state = .RUNNABLE) {r : proc}
    (hrs : r.state = .RUNNING) (hrk : r.kstate = .user) (hrp : r.parent = (s.procs q).parent)
    (hrf : r.forkChild = (s.procs q).forkChild)
    (htp : t.procs = Function.update s.procs q r) (htc : t.cpus = Function.update s.cpus c (some q))
    (hts : t.scan = Function.update s.scan c none) : Inv t := by
  have hidle : s.cpus c = none := hi.scan_idle c hsc
  have hother : ∀ q', q' ≠ q → t.procs q' = s.procs q' := fun q' h => by rw [htp, Function.update_of_ne h]
  have hnr : ∀ q', (s.procs q').state = .RUNNING → q' ≠ q := by rintro q' h rfl; rw [hq] at h; cases h
  have hne : ∀ q', (s.procs q').state = .EMBRYO → q' ≠ q := by rintro q' h rfl; rw [hq] at h; cases h
  have hfc' : ∀ q', (t.procs q').forkChild = (s.procs q').forkChild := by
    intro q'
    by_cases h : q' = q
    · subst h; rw [htp, Function.update_self, hrf]
    · rw [hother q' h]
  have hpar' : ∀ q', (t.procs q').parent = (s.procs q').parent := by
    intro q'
    by_cases h : q' = q
    · subst h; rw [htp, Function.update_self, hrp]
    · rw [hother q' h]
  refine
    { wf := fun q' => ?_
      lock_excl := fun c₁ c₂ h₁ h₂ => by
        rw [hts] at h₁ h₂
        exact hi.lock_excl c₁ c₂ (update_ne_none h₁).2 (update_ne_none h₂).2
      scan_idle := fun c' h => by
        rw [hts] at h
        obtain ⟨hne, h⟩ := update_ne_none h
        rw [htc, Function.update_of_ne hne]
        exact hi.scan_idle c' h
      cpu_running := fun c' p' h => ?_
      running_cpu := fun p' h => ?_
      cpu_inj := fun c₁ c₂ p' h₁ h₂ => ?_
      child_embryo := fun p' q' h => ?_
      child_unique := fun p₁ p₂ q' => by rw [hfc', hfc']; exact hi.child_unique p₁ p₂ q'
      embryo_child := fun q' h => ?_
      parent_live := fun q' p' h => ?_ }
  · by_cases h : q' = q
    · subst h
      rw [htp, Function.update_self]
      have hw := hi.wf q'
      exact
        { running_user := fun _ => hrk
          runnable_k := fun h' => by rw [hrs] at h'; cases h'
          sleeping_k := fun h' => by rw [hrs] at h'; cases h'
          embryo_fresh := fun h' => by rw [hrs] at h'; cases h'
          fork_k := fun _ => .inl hrk
          orphan := fun h' => by rw [hrs] at h'; rcases h' with h' | h' <;> cases h'
          has_parent := fun h₁ _ _ => by
            rw [hrp]; exact hw.has_parent h₁ (by rw [hq]; decide) (by rw [hq]; decide)
          init_live := fun _ => by rw [hrs]; decide }
    · rw [hother q' h]
      exact hi.wf q'
  · rw [htc] at h
    rcases update_eq_some h with ⟨_, h⟩ | ⟨_, h⟩
    · cases h
      rw [htp, Function.update_self]
      exact hrs
    · have hp := hi.cpu_running c' p' h
      rw [hother p' (hnr p' hp)]
      exact hp
  · by_cases hp : p' = q
    · subst hp
      exact ⟨c, by rw [htc, Function.update_self]⟩
    · rw [hother p' hp] at h
      obtain ⟨c', hc'⟩ := hi.running_cpu p' h
      have hcc : c' ≠ c := by rintro rfl; rw [hidle] at hc'; cases hc'
      exact ⟨c', by rw [htc, Function.update_of_ne hcc]; exact hc'⟩
  · rw [htc] at h₁ h₂
    rcases update_eq_some h₁ with ⟨hc₁, h₁⟩ | ⟨_, h₁⟩ <;>
      rcases update_eq_some h₂ with ⟨hc₂, h₂⟩ | ⟨_, h₂⟩
    · exact hc₁.trans hc₂.symm
    · rw [← Option.some_injective _ h₁] at h₂
      exact absurd rfl (hnr q (hi.cpu_running c₂ q h₂))
    · rw [← Option.some_injective _ h₂] at h₁
      exact absurd rfl (hnr q (hi.cpu_running c₁ q h₁))
    · exact hi.cpu_inj c₁ c₂ p' h₁ h₂
  · rw [hfc'] at h
    obtain ⟨hp', hq'⟩ := hi.child_embryo p' q' h
    refine ⟨?_, by rw [hother q' (hne q' hq')]; exact hq'⟩
    by_cases hp : p' = q
    · subst hp
      rw [htp, Function.update_self]
      exact .inl hrs
    · rw [hother p' hp]
      exact hp'
  · have hq' : q' ≠ q := by rintro rfl; rw [htp, Function.update_self, hrs] at h; cases h
    rw [hother q' hq'] at h
    obtain ⟨p', hp'⟩ := hi.embryo_child q' h
    exact ⟨p', by rw [hfc']; exact hp'⟩
  · rw [hpar'] at h
    by_cases hp : p' = q
    · subst hp
      rw [htp, Function.update_self, hrs]
      decide
    · rw [hother p' hp]
      exact hi.parent_live q' p' h

lemma Inv.reap (hi : Inv s) {z : Slot} (hz : (s.procs z).state = .ZOMBIE)
    (htp : t.procs = Function.update s.procs z
      { s.procs z with pid := 0, parent := none, killed := false, state := .UNUSED })
    (htc : t.cpus = s.cpus) (hts : t.scan = s.scan) : Inv t := by
  have hzi : z ≠ initproc := hi.ne_initproc (by rw [hz]; decide)
  have hzf : (s.procs z).forkChild = none := hi.forkChild_eq_none (by rw [hz]; decide) (by rw [hz]; decide)
  have hother : ∀ q', q' ≠ z → t.procs q' = s.procs q' := fun q' h => by rw [htp, Function.update_of_ne h]
  have hnz : ∀ q', (s.procs q').state ≠ .ZOMBIE → q' ≠ z := by rintro q' h rfl; exact h hz
  have htz : (t.procs z).state = .UNUSED := by rw [htp, Function.update_self]
  have hfc' : ∀ q', (t.procs q').forkChild = (s.procs q').forkChild := by
    intro q'
    by_cases h : q' = z
    · subst h; rw [htp, Function.update_self]
    · rw [hother q' h]
  refine
    { wf := fun q' => ?_
      lock_excl := by rw [hts]; exact hi.lock_excl
      scan_idle := by rw [hts, htc]; exact hi.scan_idle
      cpu_running := fun c' p' h => ?_
      running_cpu := fun p' h => ?_
      cpu_inj := by rw [htc]; exact hi.cpu_inj
      child_embryo := fun p' q' h => ?_
      child_unique := fun p₁ p₂ q' => by rw [hfc', hfc']; exact hi.child_unique p₁ p₂ q'
      embryo_child := fun q' h => ?_
      parent_live := fun q' p' h => ?_ }
  · by_cases h : q' = z
    · subst h
      rw [htp, Function.update_self]
      exact Wf.of_unused rfl rfl hzf hzi
    · rw [hother q' h]
      exact hi.wf q'
  · rw [htc] at h
    have hp := hi.cpu_running c' p' h
    rw [hother p' (hnz p' (by rw [hp]; decide))]
    exact hp
  · have hp : p' ≠ z := by rintro rfl; rw [htz] at h; cases h
    rw [hother p' hp] at h
    rw [htc]
    exact hi.running_cpu p' h
  · rw [hfc'] at h
    obtain ⟨hp', hq'⟩ := hi.child_embryo p' q' h
    refine ⟨?_, by rw [hother q' (hnz q' (by rw [hq']; decide))]; exact hq'⟩
    rw [hother p' (hnz p' (by rcases hp' with hp' | hp' <;> rw [hp'] <;> decide))]
    exact hp'
  · have hq : q' ≠ z := by rintro rfl; rw [htz] at h; cases h
    rw [hother q' hq] at h
    obtain ⟨p', hp'⟩ := hi.embryo_child q' h
    exact ⟨p', by rw [hfc']; exact hp'⟩
  · have hq : q' ≠ z := by rintro rfl; rw [htp, Function.update_self] at h; cases h
    rw [hother q' hq] at h
    have hl := hi.parent_live q' p' h
    have hp : p' ≠ z := by rintro rfl; rw [hz] at hl; exact absurd hl (by decide)
    rw [hother p' hp]
    exact hl

lemma Inv.of_scan (hi : Inv s) (htp : t.procs = s.procs) (htc : t.cpus = s.cpus)
    (hl : ∀ c c', t.scan c ≠ none → t.scan c' ≠ none → c = c')
    (hs : ∀ c, t.scan c ≠ none → t.cpus c = none) : Inv t where
  wf := by rw [htp]; exact hi.wf
  lock_excl := hl
  scan_idle := hs
  cpu_running := by rw [htp, htc]; exact hi.cpu_running
  running_cpu := by rw [htp, htc]; exact hi.running_cpu
  cpu_inj := by rw [htc]; exact hi.cpu_inj
  child_embryo := by rw [htp]; exact hi.child_embryo
  child_unique := by rw [htp]; exact hi.child_unique
  embryo_child := by rw [htp]; exact hi.embryo_child
  parent_live := by rw [htp]; exact hi.parent_live

lemma Inv.forkAlloc (hi : Inv s) (hc : s.cpus c = some p) (hpf : (s.procs p).forkChild = none)
    (hq : (s.procs q).state = .UNUSED) {n : ℤ}
    (htp : t.procs p = { s.procs p with forkChild := some q })
    (htq : t.procs q = { s.procs q with state := .EMBRYO, pid := n, kstate := .fresh })
    (hto : ∀ q', q' ≠ p → q' ≠ q → t.procs q' = s.procs q')
    (htc : t.cpus = s.cpus) (hts : t.scan = s.scan) : Inv t := by
  have hpr : (s.procs p).state = .RUNNING := hi.cpu_running c p hc
  have hpq : p ≠ q := by rintro rfl; rw [hpr] at hq; cases hq
  have hqp : q ≠ p := fun h => hpq h.symm
  have hqi : q ≠ initproc := hi.ne_initproc (by rw [hq]; decide)
  -- nothing points at the unused slot yet
  have hnq : ∀ x, (s.procs x).forkChild ≠ some q := by
    intro x hx
    have := (hi.child_embryo x q hx).2
    rw [hq] at this; cases this
  have hnpar := hi.parent_ne (q := q) (by rw [hq]; decide)
  have hqf : (s.procs q).forkChild = none := hi.forkChild_eq_none (by rw [hq]; decide) (by rw [hq]; decide)
  have hstate : ∀ x, x ≠ q → (t.procs x).state = (s.procs x).state := by
    intro x hx
    by_cases h : x = p
    · subst h; rw [htp]
    · rw [hto x h hx]
  have hpar' : ∀ x, (t.procs x).parent = (s.procs x).parent := by
    intro x
    by_cases h : x = p
    · subst h; rw [htp]
    · by_cases h' : x = q
      · subst h'; rw [htq]
      · rw [hto x h h']
  have hfc' : ∀ x, x ≠ p → (t.procs x).forkChild = (s.procs x).forkChild := by
    intro x hx
    by_cases h : x = q
    · subst h; rw [htq]
    · rw [hto x hx h]
  have htqs : (t.procs q).state = .EMBRYO := by rw [htq]
  refine
    { wf := fun x => ?_
      lock_excl := by rw [hts]; exact hi.lock_excl
      scan_idle := by rw [hts, htc]; exact hi.scan_idle
      cpu_running := fun c' p' h => ?_
      running_cpu := fun p' h => ?_
      cpu_inj := by rw [htc]; exact hi.cpu_inj
      child_embryo := fun p' q' h => ?_
      child_unique := fun p₁ p₂ q' h₁ h₂ => ?_
      embryo_child := fun q' h => ?_
      parent_live := fun q' p' h => ?_ }
  · by_cases hxp : x = p
    · subst hxp
      rw [htp]
      have hw := hi.wf x
      exact { hw with fork_k := fun _ => .inl (hw.running_user hpr) }
    · by_cases hxq : x = q
      · subst hxq
        rw [htq]
        have hw := hi.wf x
        exact
          { running_user := fun h' => by cases h'
            runnable_k := fun h' => by cases h'
            sleeping_k := fun h' => by cases h'
            embryo_fresh := fun _ => rfl
            fork_k := fun h' => absurd hqf h'
            orphan := fun _ => hw.orphan (.inl hq)
            has_parent := fun _ _ h' => absurd rfl h'
            init_live := fun h' => absurd h' hqi }
      · rw [hto x hxp hxq]
        exact hi.wf x
  · rw [htc] at h
    have hp := hi.cpu_running c' p' h
    rw [hstate p' (by rintro rfl; rw [hq] at hp; cases hp)]
    exact hp
  · have hp : p' ≠ q := by rintro rfl; rw [htqs] at h; cases h
    rw [hstate p' hp] at h
    rw [htc]
    exact hi.running_cpu p' h
  · by_cases hp : p' = p
    · subst hp
      rw [htp] at h
      cases h
      exact ⟨.inl (by rw [hstate p' hpq]; exact hpr), htqs⟩
    · rw [hfc' p' hp] at h
      obtain ⟨hp', hq'⟩ := hi.child_embryo p' q' h
      have hp'q : p' ≠ q := by rintro rfl; rw [hq] at hp'; rcases hp' with h' | h' <;> cases h'
      have hq'q : q' ≠ q := by rintro rfl; rw [hq] at hq'; cases hq'
      exact ⟨by rw [hstate p' hp'q]; exact hp', by rw [hstate q' hq'q]; exact hq'⟩
  · by_cases hp₁ : p₁ = p <;> by_cases hp₂ : p₂ = p
    · exact hp₁.trans hp₂.symm
    · subst hp₁
      rw [htp] at h₁
      cases h₁
      rw [hfc' p₂ hp₂] at h₂
      exact absurd h₂ (hnq p₂)
    · subst hp₂
      rw [htp] at h₂
      cases h₂
      rw [hfc' p₁ hp₁] at h₁
      exact absurd h₁ (hnq p₁)
    · rw [hfc' p₁ hp₁] at h₁
      rw [hfc' p₂ hp₂] at h₂
      exact hi.child_unique p₁ p₂ q' h₁ h₂
  · by_cases hq' : q' = q
    · subst hq'
      exact ⟨p, by rw [htp]⟩
    · rw [hstate q' hq'] at h
      obtain ⟨p', hp'⟩ := hi.embryo_child q' h
      have : p' ≠ p := by rintro rfl; rw [hpf] at hp'; cases hp'
      exact ⟨p', by rw [hfc' p' this]; exact hp'⟩
  · rw [hpar'] at h
    have hp' : p' ≠ q := by rintro rfl; exact hnpar q' h
    rw [hstate p' hp']
    exact hi.parent_live q' p' h

lemma Inv.forkEnd (hi : Inv s) (hc : s.cpus c = some p) (hpf : (s.procs p).forkChild = some q) {r : proc}
    (hwf : Wf q r) (hrs : r.state = .UNUSED ∨ r.state = .RUNNABLE) (hrf : r.forkChild = none)
    (hrp : ∀ x, r.parent = some x → Live (s.procs x).state)
    (htp : t.procs p = { s.procs p with forkChild := none }) (htq : t.procs q = r)
    (hto : ∀ q', q' ≠ p → q' ≠ q → t.procs q' = s.procs q')
    (htc : t.cpus = s.cpus) (hts : t.scan = s.scan) : Inv t := by
  have hpr : (s.procs p).state = .RUNNING := hi.cpu_running c p hc
  have hqe : (s.procs q).state = .EMBRYO := (hi.child_embryo p q hpf).2
  have hpq : p ≠ q := by rintro rfl; rw [hpr] at hqe; cases hqe
  have hrr : r.state ≠ .RUNNING := by rcases hrs with h | h <;> rw [h] <;> decide
  have hre : r.state ≠ .EMBRYO := by rcases hrs with h | h <;> rw [h] <;> decide
  have hnpar := hi.parent_ne (q := q) (by rw [hqe]; decide)
  have hstate : ∀ x, x ≠ q → (t.procs x).state = (s.procs x).state := by
    intro x hx
    by_cases h : x = p
    · subst h; rw [htp]
    · rw [hto x h hx]
  have hfc' : ∀ x, x ≠ p → (t.procs x).forkChild = (s.procs x).forkChild := by
    intro x hx
    by_cases h : x = q
    · subst h
      rw [htq, hrf, hi.forkChild_eq_none (by rw [hqe]; decide) (by rw [hqe]; decide)]
    · rw [hto x hx h]
  have htpf : (t.procs p).forkChild = none := by rw [htp]
  refine
    { wf := fun x => ?_
      lock_excl := by rw [hts]; exact hi.lock_excl
      scan_idle := by rw [hts, htc]; exact hi.scan_idle
      cpu_running := fun c' p' h => ?_
      running_cpu := fun p' h => ?_
      cpu_inj := by rw [htc]; exact hi.cpu_inj
      child_embryo := fun p' q' h => ?_
      child_unique := fun p₁ p₂ q' h₁ h₂ => ?_
      embryo_child := fun q' h => ?_
      parent_live := fun q' p' h => ?_ }
  · by_cases hxp : x = p
    · subst hxp
      rw [htp]
      have hw := hi.wf x
      exact { hw with fork_k := fun h' => absurd rfl h' }
    · by_cases hxq : x = q
      · subst hxq
        rw [htq]
        exact hwf
      · rw [hto x hxp hxq]
        exact hi.wf x
  · rw [htc] at h
    have hp := hi.cpu_running c' p' h
    rw [hstate p' (by rintro rfl; rw [hqe] at hp; cases hp)]
    exact hp
  · have hp : p' ≠ q := by rintro rfl; rw [htq] at h; exact hrr h
    rw [hstate p' hp] at h
    rw [htc]
    exact hi.running_cpu p' h
  · have hp : p' ≠ p := by rintro rfl; rw [htpf] at h; cases h
    rw [hfc' p' hp] at h
    obtain ⟨hp', hq'⟩ := hi.child_embryo p' q' h
    have hq'q : q' ≠ q := by rintro rfl; exact hp (hi.child_unique p' p q' h hpf)
    have hp'q : p' ≠ q := by rintro rfl; rw [hqe] at hp'; rcases hp' with h' | h' <;> cases h'
    exact ⟨by rw [hstate p' hp'q]; exact hp', by rw [hstate q' hq'q]; exact hq'⟩
  · have hp₁ : p₁ ≠ p := by rintro rfl; rw [htpf] at h₁; cases h₁
    have hp₂ : p₂ ≠ p := by rintro rfl; rw [htpf] at h₂; cases h₂
    rw [hfc' p₁ hp₁] at h₁
    rw [hfc' p₂ hp₂] at h₂
    exact hi.child_unique p₁ p₂ q' h₁ h₂
  · have hq' : q' ≠ q := by rintro rfl; rw [htq] at h; exact hre h
    rw [hstate q' hq'] at h
    obtain ⟨p', hp'⟩ := hi.embryo_child q' h
    have : p' ≠ p := by rintro rfl; rw [hpf] at hp'; exact hq' (Option.some_injective _ hp').symm
    exact ⟨p', by rw [hfc' p' this]; exact hp'⟩
  · by_cases hq' : q' = q
    · subst hq'
      rw [htq] at h
      have hl := hrp p' h
      have hp' : p' ≠ q' := by rintro rfl; rw [hqe] at hl; exact absurd hl (by decide)
      rw [hstate p' hp']
      exact hl
    · have h' : (s.procs q').parent = some p' := by
        by_cases hqp : q' = p
        · subst hqp; rw [htp] at h; exact h
        · rw [hto q' hqp hq'] at h; exact h
      have hp' : p' ≠ q := by rintro rfl; exact hnpar q' h'
      rw [hstate p' hp']
      exact hi.parent_live q' p' h'

lemma Inv.resumed (hi : Inv s) (hsc : s.scan c ≠ none) (hq : (s.procs q).state = .RUNNABLE)
    (g : proc → proc) (hgs : ∀ pr, (g pr).state = pr.state) (hgk : ∀ pr, (g pr).kstate = .user)
    (hgp : ∀ pr, (g pr).parent = pr.parent) (hgf : ∀ pr, (g pr).forkChild = pr.forkChild) :
    Inv ((switched c q s).setProc q g) :=
  hi.switch (r := g { s.procs q with state := .RUNNING }) hsc hq (hgs _) (hgk _) (hgp _) (hgf _)
    (by simp [Sys.setProc, Function.update_idem]) rfl rfl

lemma Inv.waitSleep (hi : Inv s) (hl : s.lockFree) (hc : s.cpus c = some p)
    (hpf : (s.procs p).forkChild = none) : Inv (waitSleep c p s) := by
  have hpr : (s.procs p).state = .RUNNING := hi.cpu_running c p hc
  refine hi.sched (r := { s.procs p with chan := some (.proc p), state := .SLEEPING, kstate := .waited })
    hl hc ?_ (.inr (.inl rfl)) rfl rfl (fun h => absurd hpf h)
    (fun h => absurd (show Live .SLEEPING by decide) h) rfl rfl rfl
  exact (hi.wf p).descheduled hpr (.inr (.inl rfl)) (fun h => by cases h) (fun _ => .inr rfl)
    (fun h => absurd hpf h) rfl (fun _ => .inl rfl)

lemma Inv.resume (hi : Inv s) (hsc : s.scan c ≠ none) (hq : (s.procs q).state = .RUNNABLE)
    {obs : List Obs} (h : resume c q (switched c q s) = (t, obs)) : Inv t := by
  have hk : ((switched c q s).procs q).kstate = (s.procs q).kstate := by simp
  have hrun := fun g hgs hgk hgp hgf => hi.resumed (c := c) hsc hq g hgs hgk hgp hgf
  rcases resume_cases h with ⟨hw, hr⟩ | ⟨-, rfl, -⟩ | ⟨-, -, rfl, -⟩
  · -- back in `wait`'s loop
    have h2 := hrun (fun pr => { pr with chan := none, kstate := .user })
      (fun _ => rfl) (fun _ => rfl) (fun _ => rfl) (fun _ => rfl)
    rcases hr with ⟨z, pid, hz, -⟩ | ⟨-, rfl, -⟩ | ⟨-, rfl, -⟩
    · obtain ⟨-, hzz, -, rfl⟩ := waitScan_reaped hz
      exact h2.reap hzz rfl rfl rfl
    · exact h2
    · -- it sleeps again: the lock is now its own, and it was not inside `fork`
      rw [hk] at hw
      have hqf : (s.procs q).forkChild = none := by
        by_contra hf
        rcases (hi.wf q).fork_k hf with h' | h' <;> rw [hw] at h' <;> cases h'
      have hlock : ∀ c', c' ≠ c → s.scan c' = none := fun c' hc' => by
        by_contra h'
        exact hc' (hi.lock_excl c' c h' hsc)
      refine h2.waitSleep (fun c' => ?_) (by simp) (by simpa using hqf)
      by_cases hc' : c' = c
      · subst hc'; simp
      · simpa [hc'] using hlock c' hc'
  · exact hrun (fun pr => { pr with chan := none, kstate := .user })
      (fun _ => rfl) (fun _ => rfl) (fun _ => rfl) (fun _ => rfl)
  · exact hrun (fun pr => { pr with kstate := .user }) (fun _ => rfl) (fun _ => rfl) (fun _ => rfl) (fun _ => rfl)

end Steps

lemma inv_userinit : Inv userinit := by
  have hp : ∀ q : Slot, userinit.procs q =
      if q = initproc then ⟨.RUNNABLE, 1, none, none, false, .fresh, none⟩ else unusedProc := by
    decide +kernel
  have hc : ∀ c : Cpu, userinit.cpus c = none := by decide +kernel
  have hs : ∀ c : Cpu, userinit.scan c = none := by decide +kernel
  refine
    { wf := fun q => ?_
      lock_excl := fun c _ h _ => absurd (hs c) h
      scan_idle := fun c h => absurd (hs c) h
      cpu_running := fun c p h => by rw [hc] at h; cases h
      running_cpu := fun p h => ?_
      cpu_inj := fun c _ p h => by rw [hc] at h; cases h
      child_embryo := fun p q h => ?_
      child_unique := fun p _ q h => ?_
      embryo_child := fun q h => ?_
      parent_live := fun q p h => ?_ }
  · rw [hp]
    split_ifs with h
    · subst h
      exact
        { running_user := fun h' => by cases h'
          runnable_k := fun _ => by decide
          sleeping_k := fun h' => by cases h'
          embryo_fresh := fun h' => by cases h'
          fork_k := fun h' => absurd rfl h'
          orphan := fun h' => by rcases h' with h' | h' <;> cases h'
          has_parent := fun h' => absurd rfl h'
          init_live := fun _ => by decide }
    · exact Wf.of_unused rfl rfl rfl h
  all_goals
    rw [hp] at h
    split_ifs at h <;> cases h

theorem inv_step {s t : Sys} {e : Event} {obs : List Obs} (hi : Inv s) (h : step s e = .ok t obs) : Inv t := by
  cases e with
  | schedule c =>
    obtain ⟨hl, hc, rfl, -⟩ := step_schedule h
    -- only `c` scans now
    have hscan : ∀ c', (s.setScan c (some 0)).scan c' ≠ none → c' = c := by
      intro c' h'
      by_contra hne
      rw [Sys.setScan_scan, Function.update_of_ne hne, hl c'] at h'
      exact h' rfl
    exact hi.of_scan rfl rfl (fun c₁ c₂ h₁ h₂ => (hscan c₁ h₁).trans (hscan c₂ h₂).symm)
      (fun c' h' => by rw [hscan c' h']; exact hc)
  | schedNext c =>
    obtain ⟨i, hsc, ⟨rfl, -⟩ | ⟨q, -, hq, hres⟩⟩ := step_schedNext h
    · refine hi.of_scan rfl rfl (fun c₁ c₂ h₁ h₂ => ?_) (fun c' h' => ?_)
      · rw [Sys.setScan_scan] at h₁ h₂
        exact hi.lock_excl c₁ c₂ (update_ne_none h₁).2 (update_ne_none h₂).2
      · rw [Sys.setScan_scan] at h'
        exact hi.scan_idle c' (update_ne_none h').2
    · exact hi.resume (by rw [hsc]; simp) hq hres
  | yield c =>
    obtain ⟨p, hl, hc, -, rfl, -⟩ := step_yield h
    have hpr := hi.cpu_running c p hc
    exact hi.sched (r := { s.procs p with state := .RUNNABLE, kstate := .yielded }) hl hc
      ((hi.wf p).descheduled hpr (.inl rfl) (fun _ h => by cases h) (fun h => by cases h) (fun _ => .inr rfl) rfl
        (fun _ => .inr (.inl rfl)))
      (.inl rfl) rfl rfl (fun _ => rfl) (fun h => absurd (.inr (.inl rfl)) h) rfl rfl rfl
  | sleep c a =>
    obtain ⟨p, hcur, rfl, -⟩ := step_sleep h
    obtain ⟨hl, hc, -, hf⟩ := current_some hcur
    have hpf : (s.procs p).forkChild = none := by simpa using hf
    have hpr := hi.cpu_running c p hc
    exact hi.sched (r := { s.procs p with chan := some (.addr a), state := .SLEEPING, kstate := .slept }) hl hc
      ((hi.wf p).descheduled hpr (.inr (.inl rfl)) (fun h => by cases h) (fun _ => .inl rfl)
        (fun h => absurd hpf h) rfl (fun _ => .inl rfl))
      (.inr (.inl rfl)) rfl rfl (fun h => absurd hpf h) (fun h => absurd (.inl rfl) h) rfl rfl rfl
  | wakeup c a =>
    obtain ⟨-, rfl, -⟩ := step_wakeup h
    exact hi.of_wakes (wakeup1_wakes _ _)
  | kill c pid =>
    obtain ⟨-, -, rfl, -⟩ := step_kill h
    exact hi.of_wakes (kill_wakes pid s)
  | exit c =>
    obtain ⟨p, hcur, hpi, rfl, -⟩ := step_exit h
    obtain ⟨hl, hc, -, hf⟩ := current_some hcur
    -- the wake-up of the parent and the re-parenting loop first, then `ZOMBIE` and `sched`
    have hW := (wakeup1_wakes ((s.procs p).parent.map Chan.proc) s).trans (reparent_wakes p _)
    have hnc := reparent_no_child hpi (wakeup1 ((s.procs p).parent.map Chan.proc) s)
    generalize reparent p (wakeup1 ((s.procs p).parent.map Chan.proc) s) = u at hW hnc ⊢
    have hi' := hi.of_wakes hW
    have hc' : u.cpus c = some p := by rw [hW.cpus]; exact hc
    have hpf : (u.procs p).forkChild = none := by rw [hW.forkChild]; simpa using hf
    exact hi'.sched (r := { u.procs p with state := .ZOMBIE }) (fun c' => by rw [hW.scan]; exact hl c') hc'
      ((hi'.wf p).descheduled (hi'.cpu_running c p hc') (.inr (.inr rfl)) (fun h => by cases h)
        (fun h => by cases h) (fun h => absurd hpf h) rfl (fun h => absurd h hpi))
      (.inr (.inr rfl)) rfl rfl (fun h => absurd hpf h) (fun _ => hnc) rfl rfl rfl
  | wait c =>
    obtain ⟨p, hcur, ⟨q, pid, hz, -⟩ | ⟨-, rfl, -⟩ | ⟨-, rfl, -⟩⟩ := step_wait h
    · obtain ⟨-, hzz, -, rfl⟩ := waitScan_reaped hz
      exact hi.reap hzz rfl rfl rfl
    · exact hi
    · obtain ⟨hl, hc, -, hf⟩ := current_some hcur
      exact hi.waitSleep hl hc (by simpa using hf)
  | forkAlloc c =>
    obtain ⟨p, hcur, ⟨-, rfl, -⟩ | ⟨q, u, ha, rfl, -⟩⟩ := step_forkAlloc h
    · exact hi
    · obtain ⟨-, hc, -, hf⟩ := current_some hcur
      obtain ⟨hq, rfl⟩ := allocproc_some ha
      have hpq : p ≠ q := by
        rintro rfl
        rw [hi.cpu_running c p hc] at hq
        cases hq
      exact hi.forkAlloc (n := s.nextpid) hc (by simpa using hf) hq (by simp [Sys.setProc_ne _ _ hpq])
        (by simp [Sys.setProc_ne _ _ (Ne.symm hpq)])
        (fun q' h₁ h₂ => by simp [Sys.setProc_ne _ _ h₁, Sys.setProc_ne _ _ h₂]) rfl rfl
  | forkFail c =>
    obtain ⟨p, q, hcur, hpf, rfl, -⟩ := step_forkFail h
    obtain ⟨-, hc, -, -⟩ := current_some hcur
    have hqe := (hi.child_embryo p q hpf).2
    have hpq : p ≠ q := by
      rintro rfl
      rw [hi.cpu_running c p hc] at hqe
      cases hqe
    have hqf : (s.procs q).forkChild = none := hi.forkChild_eq_none (by rw [hqe]; decide) (by rw [hqe]; decide)
    have hqi : q ≠ initproc := hi.ne_initproc (by rw [hqe]; decide)
    have hqp := (hi.wf q).orphan (.inr hqe)
    exact hi.forkEnd (r := { s.procs q with state := .UNUSED }) hc hpf (Wf.of_unused rfl hqp hqf hqi)
      (.inl rfl) hqf (fun x h => by rw [hqp] at h; cases h) (by simp [Sys.setProc_ne _ _ hpq])
      (by simp [Sys.setProc_ne _ _ (Ne.symm hpq)])
      (fun q' h₁ h₂ => by simp [Sys.setProc_ne _ _ h₁, Sys.setProc_ne _ _ h₂]) rfl rfl
  | forkDone c =>
    obtain ⟨p, q, hcur, hpf, rfl, -⟩ := step_forkDone h
    obtain ⟨-, hc, -, -⟩ := current_some hcur
    have hpr := hi.cpu_running c p hc
    have hqe := (hi.child_embryo p q hpf).2
    have hpq : p ≠ q := by
      rintro rfl
      rw [hpr] at hqe
      cases hqe
    have hqf : (s.procs q).forkChild = none := hi.forkChild_eq_none (by rw [hqe]; decide) (by rw [hqe]; decide)
    have hqk := (hi.wf q).embryo_fresh hqe
    -- the child is `RUNNABLE` with its saved context still the fresh one `allocproc` built
    have hwf : Wf q { s.procs q with parent := some p, state := .RUNNABLE } :=
      { running_user := fun h => by cases h
        runnable_k := fun _ => by show (s.procs q).kstate ≠ .user; rw [hqk]; decide
        sleeping_k := fun h => by cases h
        embryo_fresh := fun h => by cases h
        fork_k := fun h => absurd hqf h
        orphan := fun h => by rcases h with h | h <;> cases h
        has_parent := fun _ _ _ => Option.some_ne_none p
        init_live := fun _ => .inr (.inl rfl) }
    exact hi.forkEnd hc hpf hwf (.inr rfl) hqf (fun x h => by cases h; exact .inr (.inr hpr))
      (by simp [Sys.setProc_ne _ _ hpq]) (by simp [Sys.setProc_ne _ _ (Ne.symm hpq)])
      (fun q' h₁ h₂ => by simp [Sys.setProc_ne _ _ h₁, Sys.setProc_ne _ _ h₂]) rfl rfl

theorem inv_of_reachable {s : Sys} (h : Reachable s) : Inv s := by
  induction h with
  | init => exact inv_userinit
  | step e _ he ih => exact inv_step ih he

end Xv6Net.Kernel.ProcInv
