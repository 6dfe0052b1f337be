import Mathlib

/-! `pipe.c`: the ring buffer of a pipe, with `nread` and `nwrite` the 32-bit counts of bytes read
and written. Each round of `pipewrite`'s loop is a step, so the steps of other calls may come
between two bytes of one `pipewrite`; a `piperead` copies under the lock in one step. A call that
sleeps takes no step until a later one finds its condition changed. -/

namespace Xv6Net.Kernel.Pipe

def PIPESIZE : ℕ := 512

structure pipe where
  data : Fin PIPESIZE → UInt8
  nread : UInt32
  nwrite : UInt32
  readopen : Bool
  writeopen : Bool

-- `p->data[x % PIPESIZE]` for an unsigned count `x`.
def index (x : UInt32) : Fin PIPESIZE :=
  ⟨(x % 512).toNat, by rw [UInt32.toNat_mod]; exact Nat.mod_lt _ (by decide)⟩

-- `pipealloc` over the page `kalloc` returned.
def pipealloc (data : Fin PIPESIZE → UInt8) : pipe := ⟨data, 0, 0, true, true⟩

-- One round of `pipewrite`'s loop, storing `addr[i] = b`; `none` while `nwrite == nread + PIPESIZE`.
def pipewriteByte (p : pipe) (b : UInt8) : Option pipe :=
  if p.nwrite = p.nread + 512 then none
  else some { p with data := Function.update p.data (index p.nwrite) b, nwrite := p.nwrite + 1 }

-- `pipewrite` on a full pipe: -1 when the read end is closed or the caller killed, else it sleeps.
def pipewriteFull (p : pipe) (killed : Bool) : Option ℤ :=
  if p.readopen = false ∨ killed = true then some (-1) else none

-- The copy loop of `piperead`, for `n` more rounds.
def readLoop : ℕ → pipe → List UInt8 × pipe
  | 0, p => ([], p)
  | n + 1, p =>
    if p.nread = p.nwrite then ([], p)
    else
      let r := readLoop n { p with nread := p.nread + 1 }
      (p.data (index p.nread) :: r.1, r.2)

inductive ReadResult where
  | sleeps
  | ret (r : ℤ) (bytes : List UInt8) (p : pipe)

def piperead (p : pipe) (n : ℤ) (killed : Bool) : ReadResult :=
  if p.nread = p.nwrite ∧ p.writeopen = true then
    if killed = true then .ret (-1) [] p else .sleeps
  else
    let r := readLoop n.toNat p
    .ret r.1.length r.1 r.2

-- `pipeclose`, and whether it frees the pipe.
def pipeclose (p : pipe) (writable : Bool) : pipe × Bool :=
  let p := if writable then { p with writeopen := false } else { p with readopen := false }
  (p, p.readopen = false ∧ p.writeopen = false)

inductive Event where
  | write (b : UInt8)
  | writeFull (killed : Bool)
  | read (n : ℤ) (killed : Bool)
  | close (writable : Bool)

inductive Obs where
  | stored (b : UInt8)
  | writeRet (r : ℤ)
  | readRet (r : ℤ) (bytes : List UInt8)
  | closed (freed : Bool)

-- `none`: the calling process sleeps and the step does not happen.
def step (p : pipe) : Event → Option (pipe × Obs)
  | .write b => (pipewriteByte p b).map fun p => (p, .stored b)
  | .writeFull killed =>
    if p.nwrite = p.nread + 512 then (pipewriteFull p killed).map fun r => (p, .writeRet r) else none
  | .read n killed =>
    match piperead p n killed with
    | .sleeps => none
    | .ret r bs p => some (p, .readRet r bs)
  | .close writable =>
    let r := pipeclose p writable
    some (r.1, .closed r.2)

def run : pipe → List Event → Option (pipe × List Obs)
  | p, [] => some (p, [])
  | p, e :: es =>
    match step p e with
    | none => none
    | some (p, o) =>
      match run p es with
      | none => none
      | some (p, os) => some (p, o :: os)

-- The bytes a step stores in the buffer, and those it returns to a reader.
def Obs.storedBytes : Obs → List UInt8
  | .stored b => [b]
  | _ => []

def Obs.readBytes : Obs → List UInt8
  | .readRet _ bs => bs
  | _ => []

/-! ### The buffer as a queue -/

def pipe.count (p : pipe) : ℕ := (p.nwrite - p.nread).toNat

-- The bytes between `nread` and `nwrite`, oldest first.
def contents (p : pipe) : List UInt8 :=
  (List.range p.count).map fun j => p.data (index (p.nread + UInt32.ofNat j))

-- `PIPESIZE` divides `2^32`, so a slot follows the count even across a wrap of the counter.
lemma index_val (x : UInt32) (j : ℕ) : (index (x + UInt32.ofNat j)).val = (x.toNat + j) % 512 := by
  simp only [index, UInt32.toNat_mod, UInt32.toNat_add, UInt32.toNat_ofNat', UInt32.reduceToNat]
  omega

lemma index_ne (x : UInt32) {j k : ℕ} (hj : j < 512) (hk : k < 512) (h : j ≠ k) :
    index (x + UInt32.ofNat j) ≠ index (x + UInt32.ofNat k) := by
  intro he
  have := congrArg Fin.val he
  rw [index_val, index_val] at this
  omega

lemma count_eq_zero_iff (p : pipe) : p.count = 0 ↔ p.nread = p.nwrite := by
  have ha := UInt32.toNat_lt p.nread
  have hb := UInt32.toNat_lt p.nwrite
  rw [pipe.count, UInt32.toNat_sub, ← UInt32.toNat_inj]
  omega

lemma count_eq_full_iff (p : pipe) (hc : p.count ≤ 512) : p.count = 512 ↔ p.nwrite = p.nread + 512 := by
  have ha := UInt32.toNat_lt p.nread
  have hb := UInt32.toNat_lt p.nwrite
  rw [pipe.count, UInt32.toNat_sub] at hc ⊢
  rw [← UInt32.toNat_inj]
  simp only [UInt32.toNat_add, UInt32.reduceToNat]
  omega

lemma count_read (p : pipe) (h : p.nread ≠ p.nwrite) :
    ({ p with nread := p.nread + 1 } : pipe).count = p.count - 1 := by
  have hne : p.nread.toNat ≠ p.nwrite.toNat := fun h' => h (UInt32.toNat_inj.mp h')
  have ha := UInt32.toNat_lt p.nread
  have hb := UInt32.toNat_lt p.nwrite
  simp only [pipe.count, UInt32.toNat_sub, UInt32.toNat_add, UInt32.toNat_one]
  omega

lemma count_write (p : pipe) (hc : p.count ≤ 512) (h : p.nwrite ≠ p.nread + 512) (d : Fin PIPESIZE → UInt8) :
    ({ p with data := d, nwrite := p.nwrite + 1 } : pipe).count = p.count + 1 := by
  have hf := (count_eq_full_iff p hc).not.mpr h
  have ha := UInt32.toNat_lt p.nread
  have hb := UInt32.toNat_lt p.nwrite
  simp only [pipe.count, UInt32.toNat_sub, UInt32.toNat_add, UInt32.toNat_one] at hc hf ⊢
  omega

lemma nread_add_count (p : pipe) : p.nread + UInt32.ofNat p.count = p.nwrite := by
  rw [pipe.count, UInt32.ofNat_toNat]
  exact add_sub_cancel p.nread p.nwrite

lemma contents_eq_nil (p : pipe) (h : p.nread = p.nwrite) : contents p = [] := by
  rw [contents, (count_eq_zero_iff p).mpr h]
  rfl

lemma contents_read (p : pipe) (h : p.nread ≠ p.nwrite) :
    contents p = p.data (index p.nread) :: contents { p with nread := p.nread + 1 } := by
  have hc : p.count = (p.count - 1) + 1 := by
    have := (count_eq_zero_iff p).not.mpr h
    omega
  rw [contents, contents, count_read p h, hc, List.range_succ_eq_map, List.map_cons, List.map_map]
  congr 1
  · simp
  · refine List.map_congr_left fun j _ => ?_
    simp only [Function.comp_apply]
    congr 2
    rw [Nat.succ_eq_add_one, UInt32.ofNat_add]
    simp only [UInt32.reduceOfNat]
    ac_rfl

lemma contents_write (p : pipe) (hc : p.count ≤ 512) (h : p.nwrite ≠ p.nread + 512) (b : UInt8) :
    contents { p with data := Function.update p.data (index p.nwrite) b, nwrite := p.nwrite + 1 } =
      contents p ++ [b] := by
  have hlt : p.count < 512 := lt_of_le_of_ne hc ((count_eq_full_iff p hc).not.mpr h)
  rw [contents, contents, count_write p hc h, List.range_succ, List.map_append, List.map_singleton]
  congr 1
  · refine List.map_congr_left fun j hj => ?_
    rw [List.mem_range] at hj
    -- the pending bytes sit in other slots than the one written
    apply Function.update_of_ne
    rw [← nread_add_count p]
    exact index_ne p.nread (by omega) hlt (by omega)
  · simp only [nread_add_count, Function.update_self]

lemma readLoop_spec (k : ℕ) (p : pipe) :
    (readLoop k p).1 ++ contents (readLoop k p).2 = contents p ∧ (readLoop k p).2.count ≤ p.count ∧
      ∃ r, (readLoop k p).2 = { p with nread := r } := by
  induction k generalizing p with
  | zero => exact ⟨rfl, le_rfl, p.nread, rfl⟩
  | succ k ih =>
    rw [readLoop]
    split_ifs with h
    · exact ⟨by simp [contents_eq_nil p h], le_rfl, p.nread, rfl⟩
    · dsimp only
      obtain ⟨h₁, h₂, r, hr⟩ := ih { p with nread := p.nread + 1 }
      refine ⟨?_, ?_, r, by rw [hr]⟩
      · rw [List.cons_append, h₁, ← contents_read p h]
      · rw [count_read p h] at h₂
        omega

lemma readLoop_length_pos {k : ℕ} (hk : 0 < k) (p : pipe) (h : p.nread ≠ p.nwrite) :
    0 < (readLoop k p).1.length := by
  obtain ⟨k, rfl⟩ := Nat.exists_eq_add_one_of_ne_zero (Nat.pos_iff_ne_zero.mp hk)
  rw [readLoop, if_neg h]
  simp

lemma piperead_spec {p p' : pipe} {n : ℤ} {killed : Bool} {r : ℤ} {bs : List UInt8}
    (h : piperead p n killed = .ret r bs p') :
    bs ++ contents p' = contents p ∧ p'.count ≤ p.count := by
  unfold piperead at h
  split_ifs at h with h₁ h₂
  · cases h
    exact ⟨rfl, le_rfl⟩
  · cases h
    obtain ⟨h₃, h₄, -⟩ := readLoop_spec n.toNat p
    exact ⟨h₃, h₄⟩

lemma piperead_zero {p p' : pipe} {n : ℤ} {killed : Bool} {bs : List UInt8} (hn : 0 < n)
    (h : piperead p n killed = .ret 0 bs p') : p.nread = p.nwrite ∧ p.writeopen = false := by
  unfold piperead at h
  split_ifs at h with h₁ h₂
  · cases h
  · by_cases he : p.nread = p.nwrite
    · refine ⟨he, ?_⟩
      simpa [he] using h₁
    · have := readLoop_length_pos (by omega) p he (k := n.toNat)
      injection h with h₃
      omega

lemma step_spec {p p' : pipe} {e : Event} {o : Obs} (hc : p.count ≤ 512) (h : step p e = some (p', o)) :
    p'.count ≤ 512 ∧ contents p ++ o.storedBytes = o.readBytes ++ contents p' := by
  cases e with
  | write b =>
    simp only [step, pipewriteByte] at h
    split_ifs at h with hf
    · cases h
    · rw [Option.map_some] at h
      cases h
      have hlt : p.count < 512 := lt_of_le_of_ne hc ((count_eq_full_iff p hc).not.mpr hf)
      exact ⟨by rw [count_write p hc hf]; omega, by rw [contents_write p hc hf]; rfl⟩
  | writeFull killed =>
    simp only [step] at h
    split_ifs at h
    cases hw : pipewriteFull p killed <;> rw [hw] at h <;> cases h
    exact ⟨hc, by simp [Obs.storedBytes, Obs.readBytes]⟩
  | read n killed =>
    simp only [step] at h
    split at h
    · cases h
    · rename_i r bs q hr
      cases h
      obtain ⟨h₁, h₂⟩ := piperead_spec hr
      exact ⟨h₂.trans hc, by simpa [Obs.storedBytes, Obs.readBytes] using h₁.symm⟩
  | close writable =>
    simp only [step, pipeclose] at h
    cases h
    -- closing an end touches neither the buffer nor the counters
    split <;> exact ⟨hc, by simp [Obs.storedBytes, Obs.readBytes, contents, pipe.count]⟩

lemma run_spec (es : List Event) : ∀ (p p' : pipe) (os : List Obs), p.count ≤ 512 → run p es = some (p', os) →
    p'.count ≤ 512 ∧ contents p ++ os.flatMap Obs.storedBytes = os.flatMap Obs.readBytes ++ contents p' := by
  induction es with
  | nil =>
    intro p p' os hc h
    cases h
    simpa using hc
  | cons e es ih =>
    intro p p' os hc h
    simp only [run] at h
    split at h
    · cases h
    · rename_i p₁ o h₁
      split at h
      · cases h
      · rename_i p₂ os' h₂
        cases h
        obtain ⟨hc₁, hs₁⟩ := step_spec hc h₁
        obtain ⟨hc₂, hs₂⟩ := ih p₁ p' os' hc₁ h₂
        refine ⟨hc₂, ?_⟩
        calc contents p ++ (o :: os').flatMap Obs.storedBytes
            = (contents p ++ o.storedBytes) ++ os'.flatMap Obs.storedBytes := by simp
          _ = o.readBytes ++ (contents p₁ ++ os'.flatMap Obs.storedBytes) := by rw [hs₁, List.append_assoc]
          _ = (o :: os').flatMap Obs.readBytes ++ contents p' := by rw [hs₂]; simp

/-- For every interleaving of `pipewrite` rounds, `piperead`s and `pipeclose`s after `pipealloc`:
at most `PIPESIZE` bytes are pending in the 32-bit counts, the bytes read followed by the bytes still
in the buffer are exactly the bytes stored (so the bytes read are a prefix of them), and a `piperead`
of `n > 0` bytes returns 0 only on an empty pipe with its write end closed. -/
theorem pipe_lossless_fifo {data : Fin PIPESIZE → UInt8} {es : List Event} {p : pipe} {os : List Obs}
    (h : run (pipealloc data) es = some (p, os)) :
    (p.nwrite - p.nread).toNat ≤ PIPESIZE ∧ os.flatMap Obs.readBytes ++ contents p = os.flatMap Obs.storedBytes ∧
      os.flatMap Obs.readBytes <+: os.flatMap Obs.storedBytes ∧
      ∀ n killed bs p', piperead p n killed = .ret 0 bs p' → 0 < n → p.nread = p.nwrite ∧ p.writeopen = false := by
  obtain ⟨hc, hs⟩ := run_spec es _ p os (by simp [pipealloc, pipe.count]) h
  have hnil : contents (pipealloc data) = [] := contents_eq_nil _ rfl
  have hq : os.flatMap Obs.readBytes ++ contents p = os.flatMap Obs.storedBytes := by
    simpa [hnil] using hs.symm
  exact ⟨hc, hq, List.prefix_iff_exists_append_eq.mpr ⟨contents p, hq⟩, fun n killed bs p' hr hn => piperead_zero hn hr⟩

/-- Two bytes written, one read back while the other waits in the buffer, the write end closed, and
the last byte read. -/
theorem pipe_lossless_fifo_closed :
    let p : pipe := ⟨Function.update (Function.update (fun _ => 0) (index 0) 7) (index 1) 9, 2, 2, true, false⟩
    let os : List Obs := [.stored 7, .stored 9, .readRet 1 [7], .closed false, .readRet 1 [9]]
    run (pipealloc fun _ => 0) [.write 7, .write 9, .read 1 false, .close true, .read 4 false] = some (p, os) ∧
      (p.nwrite - p.nread).toNat ≤ PIPESIZE ∧ os.flatMap Obs.readBytes ++ contents p = os.flatMap Obs.storedBytes ∧
      os.flatMap Obs.readBytes <+: os.flatMap Obs.storedBytes ∧
      ∀ n killed bs p', piperead p n killed = .ret 0 bs p' → 0 < n → p.nread = p.nwrite ∧ p.writeopen = false := by
  intro p os
  have hr : run (pipealloc fun _ => 0) [.write 7, .write 9, .read 1 false, .close true, .read 4 false] =
      some (p, os) := rfl
  exact ⟨hr, pipe_lossless_fifo hr⟩

end Xv6Net.Kernel.Pipe
