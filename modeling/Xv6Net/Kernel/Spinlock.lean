import Mathlib
import Xv6Net.Lib.Count
import Xv6Net.Lib.Except

/-! The spinlocks of `spinlock.c` on several CPUs: `pushcli` and `popcli` with the `ncli` and
`intena` fields of `struct cpu` and the `FL_IF` bit of each CPU's `eflags`, `holding` with the
interrupt check of `mycpu`, and `acquire` and `release`. A CPU in `acquire` spins in its `xchg` loop
until the lock is free; `take` is the `xchg` that finds it free, with the store of `lk->cpu` after
it. Besides these, only the scheduler's `sti()` sets a CPU's interrupt flag, outside every critical
section. -/

namespace Xv6Net.Kernel.Spinlock

open Xv6Net.Lib.Count Xv6Net.Lib.Except

/-- A CPU's interrupt state: the `FL_IF` bit of `eflags`, and `ncli`, `intena` of `struct cpu`
(`intena` holds `eflags & FL_IF`, kept here as that bit). -/
structure CpuState where
  intr : Bool
  ncli : ℤ
  intena : Bool
  deriving DecidableEq, Repr

namespace CpuState

def pushcli (st : CpuState) : CpuState :=
  let eflags := st.intr
  -- `cli()`
  let st' : CpuState := { st with intr := false }
  let st' : CpuState := if st'.ncli = 0 then { st' with intena := eflags } else st'
  { st' with ncli := st'.ncli + 1 }

def popcli (st : CpuState) : Except String CpuState :=
  if st.intr then .error "popcli - interruptible"
  else
    let st' : CpuState := { st with ncli := st.ncli - 1 }
    if st'.ncli < 0 then .error "popcli"
    -- `sti()` once the outermost `pushcli` is undone, if interrupts were on before it
    else .ok (if st'.ncli = 0 ∧ st'.intena = true then { st' with intr := true } else st')

end CpuState

/-- `locked` and `cpu` of `struct spinlock`; `cpu` is null, `none`, while the lock is free. -/
structure SpinLock (C : Type) where
  locked : Bool
  cpu : Option C
  deriving DecidableEq, Repr

def initlock {C : Type} : SpinLock C := ⟨false, none⟩

/-- The CPUs, the locks, and the lock each CPU is spinning for in `acquire`, if any. -/
structure World (C L : Type) where
  cpus : C → CpuState
  locks : L → SpinLock C
  spinning : C → Option L

variable {C L : Type} [DecidableEq C]

def pushcli (w : World C L) (c : C) : World C L :=
  { w with cpus := Function.update w.cpus c (w.cpus c).pushcli }

def popcli (w : World C L) (c : C) : Except String (World C L) := do
  let st ← (w.cpus c).popcli
  pure { w with cpus := Function.update w.cpus c st }

def sti (w : World C L) (c : C) : World C L :=
  { w with cpus := Function.update w.cpus c { w.cpus c with intr := true } }

/-- `holding(lk)` on CPU `c`: the `&&` calls `mycpu()`, which panics when interrupts are on, only
for a locked lock. -/
def holding (w : World C L) (c : C) (l : L) : Except String Bool :=
  if !(w.locks l).locked then .ok false
  else if (w.cpus c).intr then .error "mycpu called with interrupts enabled\n"
  else .ok ((w.locks l).cpu == some c)

variable [DecidableEq L]

/-- `acquire(lk)` up to its `xchg` loop: the CPU then spins for `l`. -/
def acquire (w : World C L) (c : C) (l : L) : Except String (World C L) := do
  let w := pushcli w c
  let h ← holding w c l
  if h then .error "acquire"
  else pure { w with spinning := Function.update w.spinning c (some l) }

/-- The `xchg` of a CPU spinning for `l` that finds `l` free, and `lk->cpu = mycpu()` after it; `none`
while the lock is taken and the CPU spins on. -/
def take (w : World C L) (c : C) : Option (Except String (World C L)) :=
  match w.spinning c with
  | none => none
  | some l =>
    if (w.locks l).locked then none
    else if (w.cpus c).intr then some (.error "mycpu called with interrupts enabled\n")
    else some (.ok { w with locks := Function.update w.locks l ⟨true, some c⟩,
                            spinning := Function.update w.spinning c none })

def release (w : World C L) (c : C) (l : L) : Except String (World C L) := do
  let h ← holding w c l
  if !h then .error "release"
  else
    -- `lk->cpu = 0`, then `lk->locked = 0`
    let w := { w with locks := Function.update w.locks l ⟨false, none⟩ }
    popcli w c

/-- What a CPU that is not spinning does next: a call of `acquire` or `release`, or its scheduler's
`sti()`. -/
inductive Op (L : Type) where
  | acquire (l : L)
  | release (l : L)
  | sti
  deriving DecidableEq, Repr

def step (w : World C L) (c : C) : Op L → Except String (World C L)
  | .acquire l => acquire w c l
  | .release l => release w c l
  | .sti => .ok (sti w c)

/-- Every lock after `initlock`, every CPU after the `cli` of `bootasm.S` or `entryother.S` with the
`struct cpu` zeroed. -/
def boot : World C L where
  cpus := fun _ => ⟨false, 0, false⟩
  locks := fun _ => initlock
  spinning := fun _ => none

/-- The runs from `w` whose calls `ok` allows: a CPU that is not spinning makes a call, and `sti()`
only while it is outside every critical section; a spinning CPU takes its lock once it is free. -/
inductive Run (ok : C → Op L → Prop) (w : World C L) : World C L → Prop where
  | refl : Run ok w w
  | step {w₁ w₂ : World C L} {c : C} {a : Op L} : Run ok w w₁ → ok c a → w₁.spinning c = none →
      (a = .sti → (w₁.cpus c).ncli = 0) → step w₁ c a = .ok w₂ → Run ok w w₂
  | take {w₁ w₂ : World C L} {c : C} : Run ok w w₁ → take w₁ c = some (.ok w₂) → Run ok w w₂

def Reachable (w : World C L) : Prop := Run (fun _ _ => True) boot w

namespace CpuState

/-- The interrupt flag the CPU is left with once its outermost `pushcli` is undone. -/
def saved (st : CpuState) : Bool := if st.ncli = 0 then st.intr else st.intena

/-- `n` levels of `pushcli` deep, with interrupts off inside them. -/
structure Nested (st : CpuState) (n : ℕ) : Prop where
  ncli_eq : st.ncli = n
  intr_off : 0 < n → st.intr = false

@[simp] lemma pushcli_ncli (st : CpuState) : st.pushcli.ncli = st.ncli + 1 := by
  by_cases h : st.ncli = 0 <;> simp [pushcli, h]

@[simp] lemma pushcli_intr (st : CpuState) : st.pushcli.intr = false := by
  by_cases h : st.ncli = 0 <;> simp [pushcli, h]

lemma Nested.pushcli {st : CpuState} {n : ℕ} (h : st.Nested n) : st.pushcli.Nested (n + 1) where
  ncli_eq := by rw [pushcli_ncli, h.ncli_eq]; push_cast; rfl
  intr_off _ := pushcli_intr st

lemma saved_pushcli {st : CpuState} (h : 0 ≤ st.ncli) : st.pushcli.saved = st.saved := by
  have hne : st.ncli + 1 ≠ 0 := by omega
  unfold saved
  rw [pushcli_ncli, if_neg hne]
  unfold pushcli
  by_cases h0 : st.ncli = 0 <;> simp [h0]

lemma Nested.popcli {st : CpuState} {n : ℕ} (h : st.Nested (n + 1)) :
    ∃ st', st.popcli = .ok st' ∧ st'.Nested n ∧ st'.saved = st.saved := by
  have hi := h.intr_off n.succ_pos
  have hn : st.ncli = n + 1 := by rw [h.ncli_eq]; push_cast; rfl
  have hge : ¬ st.ncli - 1 < 0 := by omega
  unfold CpuState.popcli
  rw [if_neg (by simp [hi])]
  dsimp only
  rw [if_neg hge]
  refine ⟨_, rfl, ⟨?_, ?_⟩, ?_⟩
  · split_ifs <;> simp <;> omega
  · intro hpos
    rw [if_neg (by omega)]
    exact hi
  · by_cases h0 : n = 0
    · have h1 : st.ncli = 1 := by omega
      by_cases he : st.intena = true <;> simp [saved, h1, he, hi]
    · simp [saved, show st.ncli - 1 ≠ 0 by omega, show st.ncli ≠ 0 by omega]

end CpuState

omit [DecidableEq L] in
lemma holding_of_intr_off {w : World C L} {c : C} (h : (w.cpus c).intr = false) (l : L) :
    holding w c l = .ok ((w.locks l).locked && (w.locks l).cpu == some c) := by
  unfold holding
  cases (w.locks l).locked <;> simp [h]

omit [DecidableEq L] in
lemma acquire_eq (w : World C L) (c : C) (l : L) :
    acquire w c l = if (w.locks l).locked && (w.locks l).cpu == some c then .error "acquire"
      else .ok { pushcli w c with spinning := Function.update w.spinning c (some l) } := by
  have hoff : ((pushcli w c).cpus c).intr = false := by simp [pushcli]
  unfold acquire
  dsimp only
  rw [holding_of_intr_off hoff]
  rfl

omit [DecidableEq L] in
lemma popcli_of_nested {w : World C L} {c : C} {n : ℕ} (h : (w.cpus c).Nested (n + 1)) :
    ∃ st, popcli w c = .ok { w with cpus := Function.update w.cpus c st } ∧ st.Nested n ∧
      st.saved = (w.cpus c).saved := by
  obtain ⟨st, hst, hn, hs⟩ := h.popcli
  exact ⟨st, by simp [popcli, hst, pure, Except.pure], hn, hs⟩

section Accounts

variable [Fintype L]

/-- The number of locks that CPU `c` holds. -/
def held (w : World C L) (c : C) : ℕ := countAt (SpinLock.cpu ∘ w.locks) (some c)

def spins (w : World C L) (c : C) : ℕ := if (w.spinning c).isSome then 1 else 0

/-- A lock is locked exactly when it records its holder, and each CPU is as many levels deep in
`pushcli` as it holds locks, one more while it spins in `acquire`. -/
structure Inv (w : World C L) : Prop where
  owner : ∀ l, (w.locks l).locked = (w.locks l).cpu.isSome
  nested : ∀ c, (w.cpus c).Nested (held w c + spins w c)

omit [DecidableEq L] in
@[simp] lemma held_mk (cs : C → CpuState) (ls : L → SpinLock C) (sp : C → Option L) (d : C) :
    held ⟨cs, ls, sp⟩ d = countAt (SpinLock.cpu ∘ ls) (some d) := rfl

omit [DecidableEq C] [DecidableEq L] [Fintype L] in
@[simp] lemma spins_mk (cs : C → CpuState) (ls : L → SpinLock C) (sp : C → Option L) (d : C) :
    spins ⟨cs, ls, sp⟩ d = if (sp d).isSome then 1 else 0 := rfl

lemma held_setLock (w : World C L) (l : L) (k : SpinLock C) (d : C) :
    countAt (SpinLock.cpu ∘ Function.update w.locks l k) (some d) + (if (w.locks l).cpu = some d then 1 else 0) =
      held w d + (if k.cpu = some d then 1 else 0) := by
  rw [Function.comp_update]
  exact countAt_update _ _ _ _

omit [DecidableEq L] in
lemma Inv.holds_iff (ha : Inv w) (c : C) (l : L) :
    ((w.locks l).locked && (w.locks l).cpu == some c) = true ↔ (w.locks l).cpu = some c := by
  rw [ha.owner l]
  cases (w.locks l).cpu <;> simp

omit [DecidableEq L] in
lemma Inv.intr_off_of_holds (ha : Inv w) {c : C} {l : L} (hc : (w.locks l).cpu = some c) :
    (w.cpus c).intr = false := by
  have hpos : 0 < held w c := countAt_pos.mpr ⟨l, hc⟩
  exact (ha.nested c).intr_off (by omega)

omit [DecidableEq L] in
lemma held_boot (c : C) : held (boot : World C L) c = 0 :=
  countAt_eq_zero.mpr fun _ => by simp [boot, initlock]

omit [DecidableEq L] in
lemma boot_inv : Inv (boot : World C L) where
  owner _ := rfl
  nested c := ⟨by rw [held_boot]; simp [boot, spins], fun h => rfl⟩

end Accounts

section Calls

variable [Fintype L] {w : World C L}

omit [DecidableEq L] in
lemma inv_acquire (ha : Inv w) {c : C} (hs : w.spinning c = none) (l : L) :
    Inv { pushcli w c with spinning := Function.update w.spinning c (some l) } where
  owner := ha.owner
  nested d := by
    by_cases hd : d = c
    · subst hd
      have h := (ha.nested d).pushcli
      simpa [pushcli, held, spins, hs] using h
    · simpa [pushcli, held, spins, hd] using ha.nested d

omit [Fintype L] [DecidableEq C] in
lemma owner_update (ho : ∀ l, (w.locks l).locked = (w.locks l).cpu.isSome) {l : L} {k : SpinLock C}
    (hk : k.locked = k.cpu.isSome) (l' : L) :
    (Function.update w.locks l k l').locked = (Function.update w.locks l k l').cpu.isSome := by
  by_cases hl : l' = l
  · subst hl
    simpa using hk
  · simpa [Function.update_of_ne hl] using ho l'

lemma inv_take (ha : Inv w) {c : C} {l : L} (hsp : w.spinning c = some l) (hfree : (w.locks l).locked = false) :
    Inv { w with locks := Function.update w.locks l ⟨true, some c⟩, spinning := Function.update w.spinning c none } where
  owner := owner_update ha.owner rfl
  nested d := by
    have hnone : (w.locks l).cpu = none := by
      simpa [hfree] using (ha.owner l).symm
    have hh := held_setLock w l ⟨true, some c⟩ d
    have heq : countAt (SpinLock.cpu ∘ Function.update w.locks l ⟨true, some c⟩) (some d) +
        (if (Function.update w.spinning c none d).isSome then 1 else 0) = held w d + spins w d := by
      by_cases hd : d = c
      · subst hd
        simp [hnone, spins, hsp] at hh ⊢
        omega
      · simp [hnone, spins, hd, Ne.symm hd] at hh ⊢
        omega
    simpa [heq] using ha.nested d

lemma release_of_holds (ha : Inv w) {c : C} {l : L} (hc : (w.locks l).cpu = some c) :
    release w c l = popcli { w with locks := Function.update w.locks l ⟨false, none⟩ } c := by
  have hoff := ha.intr_off_of_holds hc
  simp [release, holding_of_intr_off hoff, (ha.holds_iff c l).mpr hc]

lemma release_of_not_holds (ha : Inv w) {c : C} {l : L} (hc : (w.locks l).cpu ≠ some c) :
    release w c l = .error (if (w.locks l).locked && (w.cpus c).intr then "mycpu called with interrupts enabled\n"
      else "release") := by
  have hlk := ha.owner l
  unfold release holding
  cases hl : (w.locks l).locked <;> cases hi : (w.cpus c).intr <;> simp [hc]

lemma inv_release (ha : Inv w) {c : C} {l : L} (hc : (w.locks l).cpu = some c) :
    ∃ w', release w c l = .ok w' ∧ Inv w' ∧ (w'.cpus c).saved = (w.cpus c).saved ∧
      ∀ d ≠ c, w'.cpus d = w.cpus d := by
  have hh := held_setLock w l ⟨false, none⟩
  have hn : (w.cpus c).Nested (countAt (SpinLock.cpu ∘ Function.update w.locks l ⟨false, none⟩) (some c) +
      spins w c + 1) := by
    have hc' := hh c
    simp only [hc, if_true, reduceCtorEq, if_false, add_zero] at hc'
    rw [show countAt (SpinLock.cpu ∘ Function.update w.locks l ⟨false, none⟩) (some c) + spins w c + 1 =
      held w c + spins w c by omega]
    exact ha.nested c
  obtain ⟨st, hpop, hst, hsv⟩ := popcli_of_nested (w := { w with locks := Function.update w.locks l ⟨false, none⟩ }) hn
  refine ⟨_, (release_of_holds ha hc).trans hpop, ⟨owner_update ha.owner rfl, fun d => ?_⟩, by simpa using hsv,
    fun d hd => by simp [hd]⟩
  by_cases hd : d = c
  · subst hd
    simpa [spins] using hst
  · -- the lock moves from `c` to no holder, which leaves `d`'s count as it was
    have hd' := hh d
    simp only [hc, Option.some.injEq, Ne.symm hd, if_false, reduceCtorEq, add_zero] at hd'
    simpa [hd, spins, hd'] using ha.nested d

omit [DecidableEq L] in
lemma inv_sti (ha : Inv w) {c : C} (h0 : (w.cpus c).ncli = 0) : Inv (sti w c) where
  owner := ha.owner
  nested d := by
    by_cases hd : d = c
    · subst hd
      have hz : held w d + spins w d = 0 := by
        have := (ha.nested d).ncli_eq
        omega
      have hz' : held (sti w d) d + spins (sti w d) d = 0 := hz
      rw [hz']
      exact ⟨by simpa [sti] using h0, fun h => absurd h (lt_irrefl 0)⟩
    · have hcpu : (sti w c).cpus d = w.cpus d := by simp [sti, hd]
      rw [hcpu]
      exact ha.nested d

lemma inv_step (ha : Inv w) {c : C} {a : Op L} {w' : World C L} (hs : w.spinning c = none)
    (hsti : a = .sti → (w.cpus c).ncli = 0) (h : step w c a = .ok w') :
    Inv w' ∧ (a ≠ .sti → (w'.cpus c).saved = (w.cpus c).saved) ∧ ∀ d ≠ c, w'.cpus d = w.cpus d := by
  cases a with
  | acquire l =>
    rw [step, acquire_eq] at h
    split at h
    · cases h
    · cases h
      have hge : 0 ≤ (w.cpus c).ncli := by
        rw [(ha.nested c).ncli_eq]
        omega
      refine ⟨inv_acquire ha hs l, fun _ => ?_, fun d hd => by simp [pushcli, hd]⟩
      simpa [pushcli] using CpuState.saved_pushcli hge
  | release l =>
    by_cases hc : (w.locks l).cpu = some c
    · obtain ⟨w'', hrel, hinv, hsv, hfr⟩ := inv_release ha hc
      rw [step, hrel] at h
      cases h
      exact ⟨hinv, fun _ => hsv, hfr⟩
    · rw [step, release_of_not_holds ha hc] at h
      cases h
  | sti =>
    cases h
    exact ⟨inv_sti ha (hsti rfl), fun h => absurd rfl h, fun d hd => by simp [sti, hd]⟩

omit [Fintype L] in
lemma take_eq_ok {c : C} {w' : World C L} (h : take w c = some (.ok w')) :
    ∃ l, w.spinning c = some l ∧ (w.locks l).locked = false ∧
      w' = { w with locks := Function.update w.locks l ⟨true, some c⟩, spinning := Function.update w.spinning c none } := by
  unfold take at h
  split at h
  · cases h
  · rename_i l hsp
    split_ifs at h with hl hi
    · simp at h
    · simp only [Option.some.injEq, Except.ok.injEq] at h
      exact ⟨l, hsp, by simpa using hl, h.symm⟩

lemma take_ne_error (ha : Inv w) (c : C) (msg : String) : take w c ≠ some (.error msg) := by
  unfold take
  split
  · simp
  · rename_i l hsp
    have hoff := (ha.nested c).intr_off (by simp [spins, hsp])
    simp [hoff]

end Calls

section Runs

variable [Fintype L] {ok : C → Op L → Prop} {w w' : World C L}

lemma Run.inv (ha : Inv w) (h : Run ok w w') : Inv w' := by
  induction h with
  | refl => exact ha
  | step _ _ hs hsti hstep ih => exact (inv_step ih hs hsti hstep).1
  | take _ htake ih =>
    obtain ⟨l, hsp, hfree, rfl⟩ := take_eq_ok htake
    exact inv_take ih hsp hfree

lemma Reachable.inv (h : Reachable w) : Inv w := Run.inv boot_inv h

lemma Run.saved {c : C} (ha : Inv w) (h : Run (fun d a => d = c → a ≠ .sti) w w') :
    (w'.cpus c).saved = (w.cpus c).saved := by
  induction h with
  | refl => rfl
  | @step w₁ w₂ d a hrun hok hs hsti hstep ih =>
    obtain ⟨-, hsv, hfr⟩ := inv_step (Run.inv ha hrun) hs hsti hstep
    rw [← ih]
    by_cases hd : c = d
    · subst hd
      exact hsv (hok rfl)
    · rw [hfr c hd]
  | take _ htake ih =>
    obtain ⟨l, hsp, hfree, rfl⟩ := take_eq_ok htake
    exact ih

end Runs

section Properties

variable [Fintype L] {w w' : World C L}

theorem ncli_counts_held_locks (h : Reachable w) (c : C) :
    (w.cpus c).ncli = held w c + spins w c ∧ (0 < (w.cpus c).ncli → (w.cpus c).intr = false) := by
  have hn := h.inv.nested c
  refine ⟨hn.ncli_eq, fun hpos => hn.intr_off ?_⟩
  rw [hn.ncli_eq] at hpos
  exact_mod_cast hpos

theorem acquired_lock_ncli : ∃ w : World (Fin 2) (Fin 1), Reachable w ∧ (w.locks 0).cpu = some 0 ∧
    ((w.cpus 0).ncli = held w 0 + spins w 0 ∧ (0 < (w.cpus 0).ncli → (w.cpus 0).intr = false)) :=
  have h : Reachable _ := Run.take (c := 0) (Run.step (c := 0) (a := .acquire 0) .refl trivial rfl (by simp) rfl) rfl
  ⟨_, h, rfl, ncli_counts_held_locks h 0⟩

theorem spinlock_panics_only_on_misuse (h : Reachable w) (c : C) (l : L) (msg : String) :
    (acquire w c l = .error msg ↔ (w.locks l).cpu = some c ∧ msg = "acquire") ∧
    (release w c l = .error msg ↔ (w.locks l).cpu ≠ some c ∧
      msg = if (w.locks l).locked && (w.cpus c).intr then "mycpu called with interrupts enabled\n" else "release") ∧
    take w c ≠ some (.error msg) := by
  have ha := h.inv
  refine ⟨?_, ?_, take_ne_error ha c msg⟩
  · by_cases hc : (w.locks l).cpu = some c
    · rw [acquire_eq, if_pos ((ha.holds_iff c l).mpr hc), Except.error.injEq]
      exact ⟨fun he => ⟨hc, he.symm⟩, fun he => he.2.symm⟩
    · rw [acquire_eq, if_neg (mt (ha.holds_iff c l).mp hc)]
      simp [hc]
  · by_cases hc : (w.locks l).cpu = some c
    · obtain ⟨w', hrel, -⟩ := inv_release ha hc
      simp [hrel, hc]
    · rw [release_of_not_holds ha hc, Except.error.injEq]
      exact ⟨fun he => ⟨hc, he.symm⟩, fun he => he.2.symm⟩

theorem release_by_other_cpu : ∃ w : World (Fin 2) (Fin 1), Reachable w ∧
    release w 1 0 = .error "mycpu called with interrupts enabled\n" :=
  have h : Reachable _ := Run.take (c := 0) (Run.step (c := 0) (a := .acquire 0)
    (Run.step (c := 1) (a := .sti) .refl trivial rfl (fun _ => rfl) rfl) trivial rfl (by simp) rfl) rfl
  ⟨_, h, ((spinlock_panics_only_on_misuse h 1 0 _).2.1).mpr ⟨by decide, by decide⟩⟩

theorem interrupts_restored_at_depth_zero {c : C} (h : Reachable w)
    (hrun : Run (fun d a => d = c → a ≠ .sti) w w') (h0 : (w.cpus c).ncli = 0) (h0' : (w'.cpus c).ncli = 0) :
    (w'.cpus c).intr = (w.cpus c).intr := by
  have hs := Run.saved h.inv hrun
  simpa [CpuState.saved, h0, h0'] using hs

theorem lock_round_trip_restores_interrupts : ∃ w w' : World (Fin 2) (Fin 1), Reachable w ∧
    (w.cpus 0).intr = true ∧ (w'.cpus 0).intr = (w.cpus 0).intr :=
  have h : Reachable _ := Run.step (c := 0) (a := .sti) .refl trivial rfl (fun _ => rfl) rfl
  have hrun : Run (fun (d : Fin 2) (a : Op (Fin 1)) => d = 0 → a ≠ .sti) _ _ := Run.step (c := 0) (a := .release 0)
    (Run.take (c := 0) (Run.step (c := 0) (a := .acquire 0) .refl (by simp) rfl (by simp) rfl) rfl)
    (by simp) rfl (by simp) rfl
  ⟨_, _, h, rfl, interrupts_restored_at_depth_zero h hrun rfl rfl⟩

end Properties

end Xv6Net.Kernel.Spinlock
