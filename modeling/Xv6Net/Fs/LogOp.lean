import Xv6Net.Fs.Log

/-! `begin_op`, `end_op` and `log_write` of `log.c`, run by the processes of the system in any
interleaving: which operations the log admits into the current transaction, and what each one
adds to it. -/

namespace Xv6Net.Fs.LogOp

open Xv6Net.Lib.WriteTrace Xv6Net.Fs.Layout Xv6Net.Fs.Log

structure LogCtl where
  st : LogState
  outstanding : ℕ
  committing : Bool

-- `none`: the caller sleeps on `&log` and retries after the next wakeup.
def beginOp (l : LogCtl) : Option LogCtl :=
  if l.committing then none
  else if l.st.lh.n + (l.outstanding + 1) * MAXOPBLOCKS > LOGSIZE then none
  else some { l with outstanding := l.outstanding + 1 }

-- The first `i < log.lh.n` with `log.lh.block[i] == blockno`, or `log.lh.n`.
def absorbIndex (lh : LogHeader) (b : UInt32) : ℕ :=
  ((List.range lh.n).find? fun i => lh.block i = b).getD lh.n

-- `log.lh.block[i] = b->blockno; if (i == log.lh.n) log.lh.n++;`
def absorb (lh : LogHeader) (b : UInt32) : LogHeader :=
  let i := absorbIndex lh b
  ⟨if i = lh.n then lh.n + 1 else lh.n, Function.update lh.block i b⟩

def logWrite (l : LogCtl) (b : UInt32) : Except String LogCtl :=
  if l.st.lh.n ≥ LOGSIZE ∨ l.st.lh.n ≥ l.st.size - 1 then .error "too big a transaction"
  else if l.outstanding < 1 then .error "log_write outside of trans"
  else .ok { l with st := { l.st with lh := absorb l.st.lh b } }

-- The last operation to end sets `log.committing`; the commit itself is a step of its own.
def endOp (l : LogCtl) : Except String LogCtl :=
  let l := { l with outstanding := l.outstanding - 1 }
  if l.committing then .error "log.committing"
  else if l.outstanding = 0 then .ok { l with committing := true }
  else .ok l

-- `commit()` without the lock, then `log.committing = 0`.
def commitDone (l : LogCtl) (d : Disk) : LogCtl × Disk :=
  let r := commit l.st d
  ({ l with st := r.1, committing := false }, r.2)

/-- The log, the disk under the buffer cache, and for each process the distinct blocks its current
operation has passed to `log_write` (`none` outside an operation). -/
structure Sys where
  log : LogCtl
  disk : Disk
  ops : Fin NPROC → Option (List UInt32)

inductive Event where
  | beginOp (p : Fin NPROC)
  | write (p : Fin NPROC) (b : UInt32) (data : Block)
  | endOp (p : Fin NPROC)
  | commit

inductive Outcome where
  | ok (s : Sys)
  | sleeps
  | panic (msg : String)

def step (s : Sys) : Event → Outcome
  | .beginOp p =>
    match beginOp s.log with
    | none => .sleeps
    | some l => .ok { s with log := l, ops := Function.update s.ops p (some []) }
  | .write p b data =>
    match logWrite s.log b with
    | .error m => .panic m
    | .ok l => .ok ⟨l, s.disk.modify b.toNat data, Function.update s.ops p ((s.ops p).map (List.insert b))⟩
  | .endOp p =>
    match endOp s.log with
    | .error m => .panic m
    | .ok l => .ok { s with log := l, ops := Function.update s.ops p none }
  | .commit =>
    if s.log.committing then
      let r := commitDone s.log s.disk
      .ok { s with log := r.1, disk := r.2 }
    else .sleeps

/-- How the file-system code calls the log: every operation is bracketed by `begin_op` and
`end_op`, passes at most `MAXOPBLOCKS` distinct blocks to `log_write`, and none in the log region. -/
def allowed (s : Sys) : Event → Bool
  | .beginOp p => (s.ops p).isNone
  | .write p b _ =>
    match s.ops p with
    | some bs => !decide (s.log.st.InRegion b.toNat) && (decide (b ∈ bs) || decide (bs.length < MAXOPBLOCKS))
    | none => false
  | .endOp p => (s.ops p).isSome
  | .commit => true

inductive Run : Sys → List Event → Sys → Prop where
  | nil (s : Sys) : Run s [] s
  | cons {s s' t : Sys} {e : Event} {es : List Event} :
      allowed s e = true → step s e = .ok s' → Run s' es t → Run s (e :: es) t

def boot (disk : ℕ → Block) : Sys :=
  let r := initlog mkfsSuperblock disk
  ⟨⟨r.1, 0, false⟩, r.2, fun _ => none⟩

def Reachable (disk : ℕ → Block) (s : Sys) : Prop := ∃ es, Run (boot disk) es s

def exec (s : Sys) : List Event → Option Sys
  | [] => some s
  | e :: es =>
    if allowed s e then
      match step s e with
      | .ok s' => exec s' es
      | _ => none
    else none

lemma run_of_exec {s t : Sys} {es : List Event} (h : exec s es = some t) : Run s es t := by
  induction es generalizing s with
  | nil =>
    cases h
    exact .nil _
  | cons e es ih =>
    simp only [exec] at h
    split at h
    · split at h
      · exact .cons ‹_› ‹_› (ih h)
      · cases h
    · cases h

lemma exists_run_of_exec {s : Sys} {es : List Event} {q : Sys → Bool} (h : (exec s es).any q = true) :
    ∃ t, Run s es t ∧ q t = true := by
  obtain ⟨t, ht, hq⟩ := (Option.any_eq_true _ _).mp h
  exact ⟨t, run_of_exec ht, hq⟩

lemma step_write_of_full (s : Sys) (p : Fin NPROC) (b : UInt32) (data : Block)
    (h : s.log.st.lh.n ≥ LOGSIZE ∨ s.log.st.lh.n ≥ s.log.st.size - 1) :
    step s (.write p b data) = .panic "too big a transaction" := by
  simp only [step, logWrite, if_pos h]

/-! ### What admission guarantees

`begin_op` admits an operation only while `log.lh.n` plus `MAXOPBLOCKS` for each outstanding
operation fits in `LOGSIZE`. Counting for each operation the blocks it may still add, that sum never
exceeds `LOGSIZE` in any interleaving, and every commit starts from a state `commit_crash_atomic`
covers. -/

def Logged (lh : LogHeader) (b : UInt32) : Prop := ∃ i < lh.n, lh.block i = b

section Absorb

variable (lh : LogHeader) (b : UInt32)

lemma absorbIndex_le : absorbIndex lh b ≤ lh.n := by
  unfold absorbIndex
  rcases hf : (List.range lh.n).find? (fun i => lh.block i = b) with _ | i
  · simp
  · simpa using (List.mem_range.mp (List.mem_of_find?_eq_some hf)).le

lemma block_absorbIndex (h : absorbIndex lh b < lh.n) : lh.block (absorbIndex lh b) = b := by
  unfold absorbIndex at *
  rcases hf : (List.range lh.n).find? (fun i => lh.block i = b) with _ | i
  · simp [hf] at h
  · simpa [hf] using List.find?_some hf

lemma absorbIndex_lt_of_logged (h : Logged lh b) : absorbIndex lh b < lh.n := by
  obtain ⟨i, hi, hb⟩ := h
  unfold absorbIndex
  rcases hf : (List.range lh.n).find? (fun i => lh.block i = b) with _ | j
  · have := List.find?_eq_none.mp hf i (List.mem_range.mpr hi)
    simp [hb] at this
  · simpa using List.mem_range.mp (List.mem_of_find?_eq_some hf)

lemma absorb_n_le : (absorb lh b).n ≤ lh.n + 1 := by
  simp only [absorb]
  split_ifs <;> omega

lemma le_absorb_n : lh.n ≤ (absorb lh b).n := by
  simp only [absorb]
  split_ifs <;> omega

lemma absorb_n_of_logged (h : Logged lh b) : (absorb lh b).n = lh.n := by
  simp only [absorb]
  rw [if_neg (absorbIndex_lt_of_logged lh b h).ne]

lemma absorb_block_of_lt {j : ℕ} (hj : j < lh.n) : (absorb lh b).block j = lh.block j := by
  simp only [absorb]
  by_cases hji : j = absorbIndex lh b
  · subst hji
    rw [Function.update_self, block_absorbIndex lh b hj]
  · rw [Function.update_of_ne hji]

lemma absorb_logged_self : Logged (absorb lh b) b := by
  refine ⟨absorbIndex lh b, ?_, by simp [absorb]⟩
  have := absorbIndex_le lh b
  simp only [absorb]
  split_ifs with h <;> omega

lemma absorb_logged {c : UInt32} (h : Logged lh c) : Logged (absorb lh b) c := by
  obtain ⟨i, hi, hc⟩ := h
  exact ⟨i, (hi.trans_le (le_absorb_n lh b)), by rw [absorb_block_of_lt lh b hi, hc]⟩

lemma absorb_block_cases {t : ℕ} (ht : t < (absorb lh b).n) :
    (absorb lh b).block t = b ∨ (t < lh.n ∧ (absorb lh b).block t = lh.block t) := by
  by_cases hti : t = absorbIndex lh b
  · left
    simp [absorb, hti]
  · right
    have hlt : t < lh.n := by
      have := absorbIndex_le lh b
      simp only [absorb] at ht
      split_ifs at ht with h <;> omega
    exact ⟨hlt, absorb_block_of_lt lh b hlt⟩

end Absorb

def reserve : Option (List UInt32) → ℕ
  | none => 0
  | some bs => MAXOPBLOCKS - bs.length

def inOp : Option (List UInt32) → ℕ
  | none => 0
  | some _ => 1

@[simp] lemma reserve_none : reserve none = 0 := rfl
@[simp] lemma reserve_some (bs : List UInt32) : reserve (some bs) = MAXOPBLOCKS - bs.length := rfl
@[simp] lemma inOp_none : inOp none = 0 := rfl
@[simp] lemma inOp_some (bs : List UInt32) : inOp (some bs) = 1 := rfl

def Sys.reserved (s : Sys) : ℕ := ∑ p, reserve (s.ops p)

def Sys.active (s : Sys) : ℕ := ∑ p, inOp (s.ops p)

lemma Sys.reserved_le (s : Sys) : s.reserved ≤ MAXOPBLOCKS * s.active := by
  rw [Sys.reserved, Sys.active, Finset.mul_sum]
  apply Finset.sum_le_sum
  intro p _
  cases s.ops p <;> simp

lemma Sys.ops_eq_none (s : Sys) (h : s.active = 0) (p : Fin NPROC) : s.ops p = none := by
  have hp := Finset.sum_eq_zero_iff.mp h p (Finset.mem_univ p)
  cases hq : s.ops p with
  | none => rfl
  | some _ => simp [hq] at hp

lemma Sys.active_update {s s' : Sys} {p : Fin NPROC} {v : Option (List UInt32)}
    (h : s'.ops = Function.update s.ops p v) : s'.active + inOp (s.ops p) = s.active + inOp v := by
  rw [Sys.active, Sys.active, h]
  exact sum_update_add inOp s.ops p v

lemma Sys.reserved_update {s s' : Sys} {p : Fin NPROC} {v : Option (List UInt32)}
    (h : s'.ops = Function.update s.ops p v) : s'.reserved + reserve (s.ops p) = s.reserved + reserve v := by
  rw [Sys.reserved, Sys.reserved, h]
  exact sum_update_add reserve s.ops p v

structure Inv (s : Sys) : Prop where
  start : s.log.st.start = mkfsSuperblock.logstart
  size : s.log.st.size = LOGSIZE
  count : s.log.outstanding = s.active
  idle : s.log.committing = true → s.log.outstanding = 0
  budget : s.log.st.lh.n + s.reserved ≤ LOGSIZE
  fits : s.log.st.lh.n + 1 ≤ s.log.st.size
  ops_le : ∀ p bs, s.ops p = some bs → bs.length ≤ MAXOPBLOCKS
  logged : ∀ p bs, s.ops p = some bs → ∀ b ∈ bs, Logged s.log.st.lh b
  outside : ∀ t < s.log.st.lh.n, ¬ s.log.st.InRegion (s.log.st.home t)
  clean : headerCount (s.disk.disk s.log.st.start) = 0

lemma Inv.commitReady {s : Sys} (hi : Inv s) : CommitReady s.log.st s.disk where
  clean := hi.clean
  fits := hi.fits
  bound := by have := hi.budget; omega
  outside := hi.outside

section Steps

variable {s s' : Sys} {p : Fin NPROC}

lemma step_beginOp_ok (h : step s (.beginOp p) = .ok s') :
    s.log.committing = false ∧ s.log.st.lh.n + (s.log.outstanding + 1) * MAXOPBLOCKS ≤ LOGSIZE ∧
      s'.log.st = s.log.st ∧ s'.log.outstanding = s.log.outstanding + 1 ∧ s'.log.committing = s.log.committing ∧
      s'.disk = s.disk ∧ s'.ops = Function.update s.ops p (some []) := by
  simp only [step] at h
  split at h
  · cases h
  · rename_i l hl
    cases h
    simp only [beginOp] at hl
    split_ifs at hl with h₁ h₂
    cases hl
    exact ⟨by simpa using h₁, by omega, rfl, rfl, rfl, rfl, rfl⟩

lemma step_write_ok {b : UInt32} {data : Block} (h : step s (.write p b data) = .ok s') :
    ¬(s.log.st.lh.n ≥ LOGSIZE ∨ s.log.st.lh.n ≥ s.log.st.size - 1) ∧
      s'.log.st = { s.log.st with lh := absorb s.log.st.lh b } ∧ s'.log.outstanding = s.log.outstanding ∧
      s'.log.committing = s.log.committing ∧ s'.disk.disk = s.disk.disk ∧
      s'.ops = Function.update s.ops p ((s.ops p).map (List.insert b)) := by
  simp only [step] at h
  split at h
  · cases h
  · rename_i l hl
    cases h
    simp only [logWrite] at hl
    split_ifs at hl with h₁ h₂
    cases hl
    exact ⟨h₁, rfl, rfl, rfl, rfl, rfl⟩

lemma step_endOp_ok (h : step s (.endOp p) = .ok s') :
    s.log.committing = false ∧ s'.log.st = s.log.st ∧ s'.disk = s.disk ∧ s'.ops = Function.update s.ops p none ∧
      s'.log.outstanding = s.log.outstanding - 1 ∧ (s'.log.committing = true → s.log.outstanding - 1 = 0) := by
  simp only [step] at h
  split at h
  · cases h
  · rename_i l hl
    cases h
    simp only [endOp] at hl
    split_ifs at hl with h₁ h₂
    · cases hl
      exact ⟨by simpa using h₁, rfl, rfl, rfl, rfl, fun _ => h₂⟩
    · cases hl
      exact ⟨by simpa using h₁, rfl, rfl, rfl, rfl, fun hc => absurd hc (by simpa using h₁)⟩

lemma step_commit_ok (h : step s .commit = .ok s') :
    s.log.committing = true ∧ s'.log.st = (commit s.log.st s.disk).1 ∧ s'.log.outstanding = s.log.outstanding ∧
      s'.log.committing = false ∧ s'.disk = (commit s.log.st s.disk).2 ∧ s'.ops = s.ops := by
  simp only [step] at h
  split_ifs at h with hc
  cases h
  exact ⟨hc, rfl, rfl, rfl, rfl, rfl⟩

end Steps

lemma commit_fst (lg : LogState) (d : Disk) :
    (commit lg d).1.lh.n = 0 ∧ (commit lg d).1.start = lg.start ∧ (commit lg d).1.size = lg.size := by
  unfold commit
  split_ifs with hn
  · exact ⟨rfl, rfl, rfl⟩
  · exact ⟨show lg.lh.n = 0 by omega, rfl, rfl⟩

lemma forall_update {P : Fin NPROC → List UInt32 → Prop} {ops : Fin NPROC → Option (List UInt32)} {p : Fin NPROC}
    {v : Option (List UInt32)} (hv : ∀ bs, v = some bs → P p bs) (hrest : ∀ q bs, q ≠ p → ops q = some bs → P q bs) :
    ∀ q bs, Function.update ops p v q = some bs → P q bs := by
  intro q bs hq
  by_cases hqp : q = p
  · subst hqp
    rw [Function.update_self] at hq
    exact hv bs hq
  · rw [Function.update_of_ne hqp] at hq
    exact hrest q bs hqp hq

section Preservation

variable {s s' : Sys} {p : Fin NPROC}

lemma inv_beginOp (hi : Inv s) (ha : allowed s (.beginOp p) = true) (h : step s (.beginOp p) = .ok s') : Inv s' := by
  have hp : s.ops p = none := by simpa [allowed] using ha
  obtain ⟨hc, hadm, hst, hout, hcom, hdisk, hops⟩ := step_beginOp_ok h
  have hact := Sys.active_update hops
  have hres := Sys.reserved_update hops
  rw [hp, inOp_none, inOp_some] at hact
  rw [hp, reserve_none, reserve_some, List.length_nil] at hres
  refine ⟨by rw [hst]; exact hi.start, by rw [hst]; exact hi.size, ?_, ?_, ?_, by rw [hst]; exact hi.fits, ?_, ?_,
    by rw [hst]; exact hi.outside, by rw [hst, hdisk]; exact hi.clean⟩
  · rw [hout, hi.count]
    omega
  · intro h'
    rw [hcom, hc] at h'
    cases h'
  · have hle := s.reserved_le
    have hcount := hi.count
    rw [hst]
    unfold MAXOPBLOCKS at *
    omega
  · rw [hops]
    exact forall_update (fun bs hbs => by cases hbs; simp) fun q bs _ hq => hi.ops_le q bs hq
  · rw [hops, hst]
    exact forall_update (fun bs hbs => by cases hbs; simp) fun q bs _ hq => hi.logged q bs hq

lemma inv_write {b : UInt32} {data : Block} (hi : Inv s) (ha : allowed s (.write p b data) = true)
    (h : step s (.write p b data) = .ok s') : Inv s' := by
  obtain ⟨hguard, hst, hout, hcom, hdisk, hops⟩ := step_write_ok h
  obtain ⟨bs, hp⟩ : ∃ bs, s.ops p = some bs := by
    cases hp : s.ops p with
    | none => simp [allowed, hp] at ha
    | some bs => exact ⟨bs, rfl⟩
  simp only [allowed, hp, Bool.and_eq_true, Bool.not_eq_true', decide_eq_false_iff_not, Bool.or_eq_true,
    decide_eq_true_eq] at ha
  obtain ⟨hregion, hbs⟩ := ha
  have hn₁ := absorb_n_le s.log.st.lh b
  rw [hp, Option.map_some] at hops
  have hact := Sys.active_update hops
  have hres := Sys.reserved_update hops
  rw [hp, inOp_some, inOp_some] at hact
  rw [hp] at hres
  -- a block the operation passed before is absorbed; a new one takes one block of its reservation
  have hgrow : (absorb s.log.st.lh b).n + reserve (some (bs.insert b)) ≤ s.log.st.lh.n + reserve (some bs) := by
    by_cases hb : b ∈ bs
    · rw [List.insert_of_mem hb, absorb_n_of_logged s.log.st.lh b (hi.logged p bs hp b hb)]
    · have hlt := hbs.resolve_left hb
      simp only [reserve_some, List.length_insert_of_not_mem hb]
      omega
  have hlen : (bs.insert b).length ≤ MAXOPBLOCKS := by
    by_cases hb : b ∈ bs
    · rw [List.insert_of_mem hb]
      exact hi.ops_le p bs hp
    · rw [List.length_insert_of_not_mem hb]
      exact hbs.resolve_left hb
  refine ⟨by rw [hst]; exact hi.start, by rw [hst]; exact hi.size, ?_, by rw [hout, hcom]; exact hi.idle, ?_, ?_, ?_, ?_,
    ?_, by rw [hst, hdisk]; exact hi.clean⟩
  · rw [hout, hi.count]
    omega
  · have hbudget := hi.budget
    rw [hst]
    dsimp only
    omega
  · have := hi.fits
    rw [hst]
    simp only at this ⊢
    omega
  · rw [hops]
    exact forall_update (fun cs hcs => by cases hcs; exact hlen) fun q cs _ hq => hi.ops_le q cs hq
  · rw [hops, hst]
    refine forall_update (fun cs hcs c hc => ?_) fun q cs _ hq c hc => absorb_logged s.log.st.lh b (hi.logged q cs hq c hc)
    cases hcs
    rcases List.mem_insert_iff.mp hc with rfl | hc
    · exact absorb_logged_self s.log.st.lh c
    · exact absorb_logged s.log.st.lh b (hi.logged p bs hp c hc)
  · intro t ht
    rw [hst] at ht ⊢
    rcases absorb_block_cases s.log.st.lh b ht with hbt | ⟨hlt, hbt⟩
    · simpa [LogState.home, LogState.InRegion, hbt] using hregion
    · simpa [LogState.home, LogState.InRegion, hbt] using hi.outside t hlt

lemma inv_endOp (hi : Inv s) (ha : allowed s (.endOp p) = true) (h : step s (.endOp p) = .ok s') : Inv s' := by
  obtain ⟨bs, hp⟩ : ∃ bs, s.ops p = some bs := Option.isSome_iff_exists.mp (by simpa [allowed] using ha)
  obtain ⟨-, hst, hdisk, hops, hout, hidle⟩ := step_endOp_ok h
  have hact := Sys.active_update hops
  have hres := Sys.reserved_update hops
  rw [hp, inOp_none, inOp_some] at hact
  rw [hp, reserve_none] at hres
  refine ⟨by rw [hst]; exact hi.start, by rw [hst]; exact hi.size, ?_, ?_, ?_, by rw [hst]; exact hi.fits, ?_, ?_,
    by rw [hst]; exact hi.outside, by rw [hst, hdisk]; exact hi.clean⟩
  · rw [hout, hi.count]
    omega
  · intro hc
    rw [hout]
    exact hidle hc
  · have hbudget := hi.budget
    rw [hst]
    omega
  · rw [hops]
    exact forall_update (fun _ h => by cases h) fun q cs _ hq => hi.ops_le q cs hq
  · rw [hops, hst]
    exact forall_update (fun _ h => by cases h) fun q cs _ hq => hi.logged q cs hq

lemma inv_commit (hi : Inv s) (h : step s .commit = .ok s') : Inv s' := by
  obtain ⟨hc, hst, hout, hcom, hdisk, hops⟩ := step_commit_ok h
  have hnone : ∀ q, s.ops q = none := s.ops_eq_none (by rw [← hi.count]; exact hi.idle hc)
  obtain ⟨hn, hstart, hsize⟩ := commit_fst s.log.st s.disk
  have hres : s.reserved = 0 := by simp [Sys.reserved, hnone]
  refine ⟨by rw [hst, hstart]; exact hi.start, by rw [hst, hsize]; exact hi.size, ?_, ?_, ?_, ?_, ?_, ?_, ?_, ?_⟩
  · simp [hout, hi.idle hc, Sys.active, hops, hnone]
  · intro h'
    rw [hcom] at h'
    cases h'
  · simp only [Sys.reserved, hst, hn, hops]
    simp only [Sys.reserved] at hres
    rw [hres]
    decide
  · rw [hst, hn, hsize, hi.size]
    decide
  · intro q bs hq
    simp [hops, hnone] at hq
  · intro q bs hq
    simp [hops, hnone] at hq
  · intro t ht
    rw [hst, hn] at ht
    omega
  · rw [hst, hstart, hdisk]
    exact commit_clean hi.commitReady

theorem inv_step {e : Event} (hi : Inv s) (ha : allowed s e = true) (h : step s e = .ok s') : Inv s' := by
  cases e with
  | beginOp p => exact inv_beginOp hi ha h
  | write p b data => exact inv_write hi ha h
  | endOp p => exact inv_endOp hi ha h
  | commit => exact inv_commit hi h

end Preservation

lemma inv_run {s t : Sys} {es : List Event} (hi : Inv s) (h : Run s es t) : Inv t := by
  induction h with
  | nil => exact hi
  | cons ha hs _ ih => exact ih (inv_step hi ha hs)

lemma boot_log (disk : ℕ → Block) :
    (boot disk).log.st.lh.n = 0 ∧ (boot disk).log.st.start = 2 ∧ (boot disk).log.st.size = LOGSIZE ∧
      (boot disk).log.outstanding = 0 ∧ (boot disk).log.committing = false ∧ (boot disk).ops = fun _ => none :=
  ⟨rfl, rfl, rfl, rfl, rfl, rfl⟩

lemma boot_disk (disk : ℕ → Block) : (boot disk).disk = (reboot (bootLog 2 LOGSIZE) disk).2 := rfl

lemma inv_boot {disk : ℕ → Block} (hs : HeaderSound (bootLog 2 LOGSIZE) (disk 2)) : Inv (boot disk) := by
  obtain ⟨hn, hstart, hsize, hout, hcom, hops⟩ := boot_log disk
  refine ⟨hstart, hsize, ?_, ?_, ?_, ?_, ?_, ?_, ?_, ?_⟩
  · simp [hout, Sys.active, hops]
  · intro h
    rw [hcom] at h
    cases h
  · simp only [hn, Sys.reserved, hops, reserve_none, Finset.sum_const_zero]
    decide
  · rw [hn, hsize]
    decide
  · intro p bs h
    simp [hops] at h
  · intro p bs h
    simp [hops] at h
  · intro t ht
    rw [hn] at ht
    omega
  · rw [hstart, boot_disk]
    exact reboot_clean hs

lemma inv_of_reachable {disk : ℕ → Block} {s : Sys} (hs : HeaderSound (bootLog 2 LOGSIZE) (disk 2))
    (h : Reachable disk s) : Inv s := by
  obtain ⟨es, hrun⟩ := h
  exact inv_run (inv_boot hs) hrun

/-! ### Three full-size operations admitted together -/

def zeroBlock : Block := fun _ => 0

def p₀ : Fin NPROC := ⟨0, NPROC_pos⟩
def p₁ : Fin NPROC := ⟨1, by decide⟩
def p₂ : Fin NPROC := ⟨2, by decide⟩

def writesFrom (p : Fin NPROC) (first count : ℕ) : List Event :=
  (List.range count).map fun i => .write p (UInt32.ofNat (first + i)) zeroBlock

def threeOps : List Event :=
  [.beginOp p₀, .beginOp p₁, .beginOp p₂] ++ writesFrom p₀ 100 10 ++ writesFrom p₁ 110 10 ++ writesFrom p₂ 120 9

theorem log_write_too_big_within_budget :
    ∃ s, Reachable (fun _ => zeroBlock) s ∧ allowed s (.write p₂ 129 zeroBlock) = true ∧
      ¬ (s.log.st.lh.n < LOGSIZE ∧ s.log.st.lh.n < s.log.st.size - 1) ∧
      step s (.write p₂ 129 zeroBlock) = .panic "too big a transaction" := by
  obtain ⟨s, hrun, hq⟩ := @exists_run_of_exec (boot fun _ => zeroBlock) threeOps
    (fun s => allowed s (.write p₂ 129 zeroBlock) && s.log.st.lh.n == 29 && s.log.st.size == LOGSIZE)
    (by decide)
  simp only [Bool.and_eq_true, beq_iff_eq] at hq
  obtain ⟨⟨hallowed, hn⟩, hsize⟩ := hq
  refine ⟨s, ⟨threeOps, hrun⟩, hallowed, ?_, step_write_of_full _ _ _ _ (.inr ?_)⟩
  · rw [hn, hsize]
    decide
  · rw [hn, hsize]
    decide

/-! ### Absorption keeps the header a set -/

/-- The distinct entries of `l` in order of first occurrence. -/
def firstOcc {α : Type} [DecidableEq α] (l : List α) : List α :=
  l.foldl (fun acc b => if b ∈ acc then acc else acc ++ [b]) []

/-- `log.lh.block[0..lh.n)`. -/
def headerBlocks (lh : LogHeader) : List UInt32 := (List.range lh.n).map lh.block

/-- The block numbers passed to `log_write`, in the order of the calls. -/
def writtenBlocks : List Event → List UInt32
  | [] => []
  | .write _ b _ :: es => b :: writtenBlocks es
  | _ :: es => writtenBlocks es

section FirstOcc

variable {α : Type} [DecidableEq α]

lemma firstOcc_append (l : List α) (b : α) :
    firstOcc (l ++ [b]) = if b ∈ firstOcc l then firstOcc l else firstOcc l ++ [b] := by
  unfold firstOcc
  rw [List.foldl_append]
  rfl

lemma nodup_firstOcc (l : List α) : (firstOcc l).Nodup := by
  induction l using List.reverseRecOn with
  | nil => exact List.nodup_nil
  | append_singleton l b ih =>
    rw [firstOcc_append]
    split_ifs with hb
    · exact ih
    · exact List.nodup_append.mpr ⟨ih, List.nodup_singleton b, fun a ha c hc hac => hb (by
        rw [List.mem_singleton.mp hc] at hac
        exact hac ▸ ha)⟩

end FirstOcc

lemma logged_iff_mem (lh : LogHeader) (b : UInt32) : Logged lh b ↔ b ∈ headerBlocks lh := by
  simp [Logged, headerBlocks]

lemma headerBlocks_absorb (lh : LogHeader) (b : UInt32) :
    headerBlocks (absorb lh b) =
      if b ∈ headerBlocks lh then headerBlocks lh else headerBlocks lh ++ [b] := by
  by_cases hb : b ∈ headerBlocks lh
  · have hl := (logged_iff_mem lh b).mpr hb
    rw [if_pos hb, headerBlocks, headerBlocks, absorb_n_of_logged lh b hl]
    exact List.map_congr_left fun j hj => absorb_block_of_lt lh b (List.mem_range.mp hj)
  · -- the search runs off the end, so `b` takes slot `lh.n`
    have hi : absorbIndex lh b = lh.n := by
      rcases Nat.lt_or_ge (absorbIndex lh b) lh.n with h | h
      · exact absurd ((logged_iff_mem lh b).mp ⟨_, h, block_absorbIndex lh b h⟩) hb
      · exact Nat.le_antisymm (absorbIndex_le lh b) h
    rw [if_neg hb, headerBlocks, headerBlocks]
    simp only [absorb, hi, if_true, List.range_succ, List.map_append, List.map_cons, List.map_nil,
      Function.update_self]
    congr 1
    exact List.map_congr_left fun j hj => Function.update_of_ne (List.mem_range.mp hj).ne _ _

/-- Steps that succeed, whether or not their caller keeps to `allowed`. -/
inductive Steps : Sys → List Event → Sys → Prop where
  | nil (s : Sys) : Steps s [] s
  | cons {s s' t : Sys} {e : Event} {es : List Event} : step s e = .ok s' → Steps s' es t → Steps s (e :: es) t

lemma Run.steps {s t : Sys} {es : List Event} (h : Run s es t) : Steps s es t := by
  induction h with
  | nil s => exact .nil s
  | cons _ hstep _ ih => exact .cons hstep ih

lemma headerBlocks_run {s t : Sys} {es : List Event} (hrun : Steps s es t) (hnc : ∀ e ∈ es, e ≠ .commit) :
    headerBlocks t.log.st.lh = (writtenBlocks es).foldl
      (fun acc b => if b ∈ acc then acc else acc ++ [b]) (headerBlocks s.log.st.lh) := by
  induction hrun with
  | nil => rfl
  | @cons s s' t e es hstep _ ih =>
    have ih := ih fun e' he' => hnc e' (List.mem_cons_of_mem _ he')
    cases e with
    | beginOp p =>
      rw [ih, (step_beginOp_ok hstep).2.2.1]
      rfl
    | write p b data =>
      rw [ih, (step_write_ok hstep).2.1, headerBlocks_absorb]
      rfl
    | endOp p =>
      rw [ih, (step_endOp_ok hstep).2.1]
      rfl
    | commit => exact absurd rfl (hnc _ List.mem_cons_self)

/-- Between two commits, however the `log_write` calls of the operations interleave, and even when
a caller does not keep to what the log admits, `log.lh.block[0..lh.n)` holds each block written
once, in the order of first writes. -/
theorem log_absorption_set {s t : Sys} {es : List Event} (hrun : Steps s es t)
    (h0 : s.log.st.lh.n = 0) (hnc : ∀ e ∈ es, e ≠ .commit) :
    (headerBlocks t.log.st.lh).Nodup ∧ headerBlocks t.log.st.lh = firstOcc (writtenBlocks es) ∧
      t.log.st.lh.n = (firstOcc (writtenBlocks es)).length := by
  have hblocks : headerBlocks t.log.st.lh = firstOcc (writtenBlocks es) := by
    rw [headerBlocks_run hrun hnc, headerBlocks, h0, List.range_zero, List.map_nil]
    rfl
  refine ⟨hblocks ▸ nodup_firstOcc _, hblocks, ?_⟩
  rw [← hblocks, headerBlocks, List.length_map, List.length_range]

def writeTwice : List Event :=
  [.beginOp p₀, .beginOp p₁, .write p₀ 100 zeroBlock, .write p₁ 107 zeroBlock, .write p₀ 100 zeroBlock]

/-- Two operations, one writing block 100 twice around the other's block 107: two slots. -/
theorem log_absorbs_rewrite : ∃ t, Run (boot fun _ => zeroBlock) writeTwice t ∧
    (boot fun _ => zeroBlock).log.st.lh.n = 0 ∧ (∀ e ∈ writeTwice, e ≠ .commit) ∧
    headerBlocks t.log.st.lh = [100, 107] := by
  obtain ⟨t, hrun, -⟩ := @exists_run_of_exec (boot fun _ => zeroBlock) writeTwice (fun _ => true) (by decide)
  have h0 : (boot fun _ => zeroBlock).log.st.lh.n = 0 := by decide
  have hnc : ∀ e ∈ writeTwice, e ≠ .commit := by simp [writeTwice]
  exact ⟨t, hrun, h0, hnc, (log_absorption_set hrun.steps h0 hnc).2.1.trans (by decide)⟩

end Xv6Net.Fs.LogOp
