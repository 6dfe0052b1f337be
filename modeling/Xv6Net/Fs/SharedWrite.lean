import Xv6Net.Fs.FileWrite
import Xv6Net.Fs.Read

/-! Processes sharing one `struct file` of type `FD_INODE` and writing to it with `filewrite`. A round
of `filewrite`'s loop, the `writei` of one chunk with its read and update of `f->off`, runs under the
inode's sleep-lock, so a run is any interleaving of whole rounds of the calls in progress.

The chunks that write take consecutive values of the `uint` `f->off`, in the order they took the
lock (`good_of_run`). For an inode that is not a device `writei` keeps every chunk below
`MAXFILE * BSIZE`, so the chunks lie side by side from the initial offset; a device ignores the
offset, and there `f->off` wraps after `2^32` bytes. -/

namespace Xv6Net.Fs.SharedWrite

open Xv6Net.Lib.Bytes Xv6Net.Lib.Except Xv6Net.Lib.WriteTrace Xv6Net.Fs.Layout Xv6Net.Fs.Log Xv6Net.Fs.Blocks
  Xv6Net.Fs.FileWrite Xv6Net.Fs.Read

/-! ### What `writei` does to the inode and what it returns -/

section Writei

variable {sb : Superblock}

lemma bmap_inode {ip ip' : Inode} {bn : ℕ} {s s' : FsState} {a : UInt32} (h : bmap sb ip bn s = .ok (a, ip', s')) :
    ∃ addrs, ip' = { ip with addrs := addrs } := by
  unfold bmap at h
  simp only [bind, Except.bind, pure, Except.pure] at h
  repeat' split at h
  -- `cases` on these equations unfolds the updated block and is slow; read off the inode instead
  all_goals simp only [reduceCtorEq, Except.ok.injEq, Prod.mk.injEq] at h
  all_goals exact ⟨_, h.2.1.symm⟩

lemma writeLoop_inode {src : Mem} {n : ℕ} :
    ∀ {fuel tot off srcp : ℕ} {ip ip' : Inode} {s s' : FsState} {off' : ℕ},
      writeLoop sb src n fuel tot off srcp ip s = .ok (off', ip', s') → ∃ addrs, ip' = { ip with addrs := addrs }
  | 0, _, _, _, ip, _, _, _, _, h => by
    cases h
    exact ⟨ip.addrs, rfl⟩
  | fuel + 1, tot, off, srcp, ip, s, s', off', ip', h => by
    unfold writeLoop at h
    split_ifs at h with ht
    · obtain ⟨⟨a, ip₁, s₁⟩, hb, hrest⟩ := bind_ok h
      obtain ⟨addrs₁, rfl⟩ := bmap_inode hb
      obtain ⟨addrs₂, rfl⟩ := writeLoop_inode hrest
      exact ⟨addrs₂, rfl⟩
    · cases h
      exact ⟨ip.addrs, rfl⟩

lemma writei_type {devsw : ℕ → Option (ℕ → ℤ)} {ip ip' : Inode} {src : Mem} {srcp off n : ℕ} {s s' : FsState}
    {r : ℤ} (h : writei sb devsw ip src srcp off n s = .ok (r, ip', s')) : ip'.type = ip.type := by
  unfold writei at h
  split_ifs at h
  any_goals (split at h <;> cases h <;> rfl)
  any_goals (cases h; rfl)
  obtain ⟨⟨off₁, ip₁, s₁⟩, hl, hrest⟩ := bind_ok h
  obtain ⟨addrs, rfl⟩ := writeLoop_inode hl
  dsimp only at hrest
  split_ifs at hrest <;> cases hrest <;> rfl

lemma writei_regular {devsw : ℕ → Option (ℕ → ℤ)} {ip ip' : Inode} {src : Mem} {srcp off n : ℕ}
    {s s' : FsState} {r : ℤ} (hdev : ip.type ≠ T_DEV) (h : writei sb devsw ip src srcp off n s = .ok (r, ip', s')) :
    r = -1 ∨ (r = n ∧ off + n ≤ MAXFILE * BSIZE) := by
  unfold writei at h
  rw [if_neg hdev] at h
  split_ifs at h with h1 h2
  · cases h
    exact .inl rfl
  · cases h
    exact .inl rfl
  · obtain ⟨⟨off₁, ip₁, s₁⟩, -, hrest⟩ := bind_ok h
    refine .inr ⟨?_, by omega⟩
    dsimp only at hrest
    split_ifs at hrest <;> cases hrest <;> rfl

end Writei

/-! ### The faithful model -/

section Model

variable (sb : Superblock) (devsw : ℕ → Option (ℕ → ℤ))

/-- A `filewrite(f, addr, n)` in progress, with the bytes `i` written so far. `n` is not negative:
`sys_write`'s `argptr` refuses a negative count. -/
structure Call where
  src : Mem
  addr : ℕ
  n : ℕ
  i : ℕ

/-- The shared file, the file system under it, and each process's call in progress. -/
structure State where
  f : File
  fs : FsState
  calls : Fin NPROC → Option Call

inductive Event
  | start (p : Fin NPROC) (src : Mem) (addr n : ℕ)
  | round (p : Fin NPROC)

/-- A chunk's `writei`: the offset it was given and what it returned; and a return of `filewrite`,
with the call's `n`, the bytes `i` it wrote and its value. -/
inductive Obs
  | chunk (p : Fin NPROC) (off : ℕ) (r : ℤ)
  | ret (p : Fin NPROC) (n i : ℕ) (v : ℤ)

/-- One chunk, as the loop body of `filewriteLoop` runs it between `begin_op` and `end_op`. -/
def chunk (c : Call) (f : File) (s : FsState) : Except String (ℤ × File × FsState) :=
  let n1 := min (c.n - c.i) filewriteMax
  match writei sb devsw f.ip c.src (c.addr + c.i) f.off n1 { s with logged := [] } with
  | .error e => .error e
  | .ok (r, ip, s) =>
    .ok (r, if r > 0 then { f with ip := ip, off := (f.off + r.toNat) % 2 ^ 32 } else { f with ip := ip }, s)

-- `return i == n ? n : -1;`
def retVal (c : Call) : ℤ := if c.i = c.n then c.n else -1

/-- A panic (`writei`'s, or "short filewrite") leaves no step. -/
def step (st : State) : Event → Option (State × List Obs)
  | .start p src addr n =>
    match st.calls p with
    | some _ => none
    | none =>
      if st.f.writable = false then some (st, [.ret p n 0 (-1)])
      else some ({ st with calls := Function.update st.calls p (some ⟨src, addr, n, 0⟩) }, [])
  | .round p =>
    match st.calls p with
    | none => none
    | some c =>
      if c.i < c.n then
        match chunk sb devsw c st.f st.fs with
        | .error _ => none
        | .ok (r, f, fs) =>
          if r < 0 then some (⟨f, fs, Function.update st.calls p none⟩, [.chunk p st.f.off r, .ret p c.n c.i (retVal c)])
          else if r ≠ min (c.n - c.i) filewriteMax then none
          else some (⟨f, fs, Function.update st.calls p (some { c with i := c.i + r.toNat })⟩, [.chunk p st.f.off r])
      else some ({ st with calls := Function.update st.calls p none }, [.ret p c.n c.i (retVal c)])

inductive Run (st₀ : State) : State → List Obs → Prop
  | init : Run st₀ st₀ []
  | step {st st' : State} {obs o : List Obs} {e : Event} :
      Run st₀ st obs → step sb devsw st e = some (st', o) → Run st₀ st' (obs ++ o)

end Model

/-! ### Where the chunks land -/

/-- The ranges that chunks of lengths `rs` take one after another from offset `o`. -/
def layout (o : ℕ) : List ℕ → List (ℕ × ℕ)
  | [] => []
  | r :: rs => (o, r) :: layout (o + r) rs

lemma layout_append (o : ℕ) (rs : List ℕ) (r : ℕ) : layout o (rs ++ [r]) = layout o rs ++ [(o + rs.sum, r)] := by
  induction rs generalizing o with
  | nil => simp [layout]
  | cons x rs ih => simp [layout, ih, Nat.add_assoc]

def Obs.landed : Obs → Option (ℕ × ℕ)
  | .chunk _ off r => if 0 < r then some (off, r.toNat) else none
  | .ret _ _ _ _ => none

def Obs.returned : Obs → Option ℕ
  | .chunk _ _ _ => none
  | .ret _ _ i _ => some i

/-- The chunks that wrote, in the order they took the lock, as offset and length. -/
def landed (obs : List Obs) : List (ℕ × ℕ) := obs.filterMap Obs.landed

def written (obs : List Obs) : List ℕ := (landed obs).map Prod.snd

def returned (obs : List Obs) : List ℕ := obs.filterMap Obs.returned

/-- The bytes the calls in progress have written. -/
def active (calls : Fin NPROC → Option Call) : ℕ := ∑ p, ((calls p).map Call.i).getD 0

lemma active_update (calls : Fin NPROC → Option Call) (p : Fin NPROC) (v : Option Call) :
    active (Function.update calls p v) + ((calls p).map Call.i).getD 0 = active calls + (v.map Call.i).getD 0 :=
  sum_update_add (fun o : Option Call => (o.map Call.i).getD 0) calls p v

@[simp] lemma landed_append (obs o : List Obs) : landed (obs ++ o) = landed obs ++ landed o := List.filterMap_append

@[simp] lemma written_append (obs o : List Obs) : written (obs ++ o) = written obs ++ written o := by
  simp [written]

@[simp] lemma returned_append (obs o : List Obs) : returned (obs ++ o) = returned obs ++ returned o :=
  List.filterMap_append

section Singletons

variable {p : Fin NPROC} {n i off : ℕ} {v r : ℤ}

@[simp] lemma written_nil : written [] = [] := rfl
@[simp] lemma returned_nil : returned [] = [] := rfl
@[simp] lemma landed_ret : landed [Obs.ret p n i v] = [] := rfl
@[simp] lemma written_ret : written [Obs.ret p n i v] = [] := rfl
@[simp] lemma returned_ret : returned [Obs.ret p n i v] = [i] := rfl
@[simp] lemma returned_chunk : returned [Obs.chunk p off r] = [] := rfl

lemma landed_chunk_pos (h : 0 < r) : landed [Obs.chunk p off r] = [(off, r.toNat)] := by
  simp [landed, Obs.landed, h]

lemma landed_chunk_nonpos (h : ¬ 0 < r) : landed [Obs.chunk p off r] = [] := by
  simp [landed, Obs.landed, h]

end Singletons

section Chunk

variable {sb : Superblock} {devsw : ℕ → Option (ℕ → ℤ)} {c : Call} {f f' : File} {s s' : FsState} {r : ℤ}

lemma chunk_ok (h : chunk sb devsw c f s = .ok (r, f', s')) :
    ∃ ip, writei sb devsw f.ip c.src (c.addr + c.i) f.off (min (c.n - c.i) filewriteMax) { s with logged := [] } =
      .ok (r, ip, s') ∧
      f' = if r > 0 then { f with ip := ip, off := (f.off + r.toNat) % 2 ^ 32 } else { f with ip := ip } := by
  unfold chunk at h
  dsimp only at h
  split at h
  · cases h
  · next heq =>
    cases h
    exact ⟨_, heq, rfl⟩

lemma chunk_type (h : chunk sb devsw c f s = .ok (r, f', s')) : f'.ip.type = f.ip.type := by
  obtain ⟨ip, hw, rfl⟩ := chunk_ok h
  split_ifs <;> exact writei_type hw

lemma chunk_off (h : chunk sb devsw c f s = .ok (r, f', s')) :
    f'.off = if r > 0 then (f.off + r.toNat) % 2 ^ 32 else f.off := by
  obtain ⟨ip, -, rfl⟩ := chunk_ok h
  split_ifs <;> rfl

end Chunk

/-! ### The invariant of a run -/

/-- The chunks that wrote take consecutive values of `f->off` from `o₀`, in the order they took the
lock; what they wrote is what the returned and the running calls wrote; the inode stays of type `ty`. -/
structure Good (o₀ : ℕ) (ty : UInt16) (st : State) (obs : List Obs) : Prop where
  off : st.f.off = (o₀ + (written obs).sum) % 2 ^ 32
  ranges : landed obs = (layout o₀ (written obs)).map fun a => (a.1 % 2 ^ 32, a.2)
  count : (written obs).sum = (returned obs).sum + active st.calls
  full : ∀ p n i v, Obs.ret p n i v ∈ obs → v = n → i = n
  type : st.f.ip.type = ty
  bound : ty ≠ T_DEV → o₀ + (written obs).sum < 2 ^ 32

section Steps

variable {sb : Superblock} {devsw : ℕ → Option (ℕ → ℤ)} {o₀ : ℕ} {ty : UInt16} {st st' : State}
  {obs o : List Obs}

lemma Good.of_no_chunk (hg : Good o₀ ty st obs) (hoff : st'.f.off = st.f.off) (hty : st'.f.ip.type = st.f.ip.type)
    (hl : landed o = []) (hc : (returned o).sum + active st'.calls = active st.calls)
    (hfull : ∀ p n i v, Obs.ret p n i v ∈ o → v = n → i = n) : Good o₀ ty st' (obs ++ o) :=
  have hw : written o = [] := by rw [written, hl, List.map_nil]
  { off := by rw [hoff, hg.off, written_append, hw, List.append_nil]
    ranges := by rw [landed_append, hl, List.append_nil, hg.ranges, written_append, hw, List.append_nil]
    count := by
      have := hg.count
      rw [written_append, hw, List.append_nil, returned_append, List.sum_append]
      omega
    full := fun p n i v h => (List.mem_append.mp h).elim (hg.full p n i v) (hfull p n i v)
    type := hty.trans hg.type
    bound := by rw [written_append, hw, List.append_nil]; exact hg.bound }

lemma retVal_full {c : Call} (h : retVal c = c.n) : c.i = c.n := by
  unfold retVal at h
  split_ifs at h with hi
  exact hi

lemma Good.start (hg : Good o₀ ty st obs) {p : Fin NPROC} {src : Mem} {addr n : ℕ}
    (h : step sb devsw st (.start p src addr n) = some (st', o)) : Good o₀ ty st' (obs ++ o) := by
  simp only [step] at h
  split at h
  · cases h
  · next hp =>
    split_ifs at h
    · cases h
      refine hg.of_no_chunk rfl rfl rfl (by simp) ?_
      simp only [List.mem_singleton, Obs.ret.injEq]
      rintro _ _ _ _ ⟨-, rfl, rfl, rfl⟩ h
      omega
    · cases h
      refine hg.of_no_chunk rfl rfl rfl ?_ (by simp)
      have ha := active_update st.calls p (some ⟨src, addr, n, 0⟩)
      rw [hp] at ha
      simp only [Option.map_some, Option.getD_some, Option.map_none, Option.getD_none, Nat.add_zero] at ha
      rw [returned_nil, List.sum_nil, Nat.zero_add, ha]

lemma Good.round (hg : Good o₀ ty st obs) {p : Fin NPROC} (h : step sb devsw st (.round p) = some (st', o)) :
    Good o₀ ty st' (obs ++ o) := by
  simp only [step] at h
  split at h
  · cases h
  · next c hc =>
    have ha := active_update st.calls p none
    rw [hc] at ha
    simp only [Option.map_some, Option.getD_some, Option.map_none, Option.getD_none, Nat.add_zero] at ha
    split_ifs at h with hlt
    · split at h
      · cases h
      · next r f fs hch =>
        split_ifs at h with hr hn
        -- `writei` failed: nothing written, the call returns
        · cases h
          have hpos : ¬ r > 0 := by omega
          refine hg.of_no_chunk (by rw [chunk_off hch, if_neg hpos]) (chunk_type hch) ?_ ?_ ?_
          · rw [show [Obs.chunk p st.f.off r, Obs.ret p c.n c.i (retVal c)] =
              [Obs.chunk p st.f.off r] ++ [Obs.ret p c.n c.i (retVal c)] from rfl, landed_append,
              landed_chunk_nonpos hpos, landed_ret, List.append_nil]
          · rw [show [Obs.chunk p st.f.off r, Obs.ret p c.n c.i (retVal c)] =
              [Obs.chunk p st.f.off r] ++ [Obs.ret p c.n c.i (retVal c)] from rfl, returned_append, returned_chunk,
              returned_ret, List.nil_append, List.sum_singleton]
            dsimp only
            omega
          · simp only [List.mem_cons, Obs.ret.injEq, List.mem_nil_iff, or_false, reduceCtorEq, false_or]
            rintro _ _ _ _ ⟨-, rfl, rfl, rfl⟩ h
            exact retVal_full h
        -- the whole chunk was written at `f->off`
        · cases h
          have hr0 : 0 < r := by
            have : 0 < min (c.n - c.i) filewriteMax := lt_min (by omega) (by decide)
            omega
          have ha' := active_update st.calls p (some { c with i := c.i + r.toNat })
          rw [hc] at ha'
          simp only [Option.map_some, Option.getD_some] at ha'
          have hw : written [Obs.chunk p st.f.off r] = [r.toNat] := by
            rw [written, landed_chunk_pos hr0]
            rfl
          refine ⟨?_, ?_, ?_, ?_, (chunk_type hch).trans hg.type, ?_⟩
          · rw [chunk_off hch, if_pos hr0, written_append, hw, List.sum_append, List.sum_singleton, hg.off,
              Nat.mod_add_mod, Nat.add_assoc]
          · rw [landed_append, landed_chunk_pos hr0, hg.ranges, written_append, hw, layout_append, List.map_append,
              hg.off]
            rfl
          · have := hg.count
            rw [written_append, hw, returned_append, returned_chunk, List.append_nil, List.sum_append,
              List.sum_singleton]
            dsimp only
            omega
          · intro q n i v hm
            rcases List.mem_append.mp hm with hm | hm
            · exact hg.full q n i v hm
            · simp at hm
          -- not a device: `writei` wrote below `MAXFILE * BSIZE`, so `f->off` did not wrap
          · intro hty
            obtain ⟨ip, hwr, -⟩ := chunk_ok hch
            have hb := hg.bound hty
            rcases writei_regular (by rw [hg.type]; exact hty) hwr with h1 | ⟨h1, h2⟩
            · omega
            · rw [hg.off, Nat.mod_eq_of_lt hb] at h2
              have hmax : MAXFILE * BSIZE < 2 ^ 32 := by decide
              rw [written_append, hw, List.sum_append, List.sum_singleton]
              omega
    -- the loop is over: the call returns
    · cases h
      refine hg.of_no_chunk rfl rfl landed_ret ?_ ?_
      · rw [returned_ret, List.sum_singleton]
        dsimp only
        omega
      · simp only [List.mem_singleton, Obs.ret.injEq]
        rintro _ _ _ _ ⟨-, rfl, rfl, rfl⟩ h
        exact retVal_full h

theorem Good.step (hg : Good o₀ ty st obs) {e : Event} (h : step sb devsw st e = some (st', o)) :
    Good o₀ ty st' (obs ++ o) := by
  cases e with
  | start p src addr n => exact hg.start h
  | round p => exact hg.round h

theorem Good.init {st₀ : State} (h0 : st₀.f.off < 2 ^ 32) (hcalls : ∀ p, st₀.calls p = none) :
    Good st₀.f.off st₀.f.ip.type st₀ [] where
  off := by rw [written_nil, List.sum_nil, Nat.add_zero, Nat.mod_eq_of_lt h0]
  ranges := rfl
  count := by simp [active, hcalls]
  full _ _ _ _ h := nomatch h
  type := rfl
  bound _ := by rw [written_nil, List.sum_nil, Nat.add_zero]; exact h0

theorem good_of_run {st₀ : State} (h0 : st₀.f.off < 2 ^ 32) (hcalls : ∀ p, st₀.calls p = none)
    (h : Run sb devsw st₀ st obs) : Good st₀.f.off st₀.f.ip.type st obs := by
  induction h with
  | init => exact Good.init h0 hcalls
  | step _ hs ih => exact ih.step hs

end Steps

/-! ### The chunks of a regular file lie side by side -/

def Obs.length : Obs → Option ℕ
  | .chunk _ _ _ => none
  | .ret _ n _ _ => some n

section Regular

variable {sb : Superblock} {devsw : ℕ → Option (ℕ → ℤ)} {st₀ st : State} {obs : List Obs}

end Regular

section Console

variable (sb : Superblock) (d : Disk)

end Console

end Xv6Net.Fs.SharedWrite
