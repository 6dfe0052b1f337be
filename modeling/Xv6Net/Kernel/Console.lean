import Xv6Net.Lib.Ring

/-! The console's input line discipline (console.c). `consoleintr` edits a line in a ring of
`INPUT_BUF` bytes under three `uint` counters, read `r`, write `w` and edit `e`, and
`consoleread` hands out what has been committed. One reader is modelled, each turn of its loop a
step, and any interleaving of typed characters with those steps is a run.

Over the faithful model stands `Line`: the committed bytes not yet read and the line being
edited, as lists. `intrChar_refines` says each typed character acts on the ring as `Line.type`
acts on the lists, and `lineDiscipline_of_run` carries the invariant and the byte stream through
every run. -/

namespace Xv6Net.Kernel.Console

open Xv6Net.Lib.Ring

def INPUT_BUF : UInt32 := 128

/-- Control-x. -/
def C (x : Char) : UInt8 := x.toUInt8 - '@'.toUInt8

structure Input where
  buf : ℕ → UInt8
  r : UInt32
  w : UInt32
  e : UInt32

def Input.init : Input := ⟨fun _ => 0, 0, 0, 0⟩

/-- `input.buf[x % INPUT_BUF]`. -/
def Input.at (s : Input) (x : UInt32) : UInt8 := s.buf (x % INPUT_BUF).toNat

-- The loop of ^U; each turn moves `e` one back towards `w`, so `e - w` turns are enough.
def killLine : ℕ → Input → Input
  | 0, s => s
  | k + 1, s => if s.e ≠ s.w ∧ s.at (s.e - 1) ≠ '\n'.toUInt8 then killLine k { s with e := s.e - 1 } else s

/-- One character of the loop of `consoleintr`; the echo and `procdump` leave `input` alone. -/
def intrChar (c : UInt8) (s : Input) : Input :=
  if c = C 'P' then s
  else if c = C 'U' then killLine (s.e - s.w).toNat s
  else if c = C 'H' ∨ c = 0x7f then (if s.e ≠ s.w then { s with e := s.e - 1 } else s)
  else if c ≠ 0 ∧ s.e - s.r < INPUT_BUF then
    let c := if c = '\r'.toUInt8 then '\n'.toUInt8 else c
    let s := { s with buf := Function.update s.buf (s.e % INPUT_BUF).toNat c, e := s.e + 1 }
    if c = '\n'.toUInt8 ∨ c = C 'D' ∨ s.e = s.r + INPUT_BUF then { s with w := s.e } else s
  else s

/-- A `consoleread` in progress: its `target`, the `n` bytes still wanted and what it copied. -/
structure Reader where
  target : ℕ
  n : ℕ
  dst : List UInt8

structure State where
  input : Input
  reader : Option Reader

inductive Event
  | intr (c : UInt8)
  | read (n : ℕ)
  | readByte

/-- What a run shows: the bytes a typed character commits (moving `w`), and the value and bytes
a `consoleread` returns. -/
inductive Obs
  | commit (bs : List UInt8)
  | ret (cnt : ℕ) (bs : List UInt8)

/-- How far `a` is ahead of `b`: the `uint` difference `a - b`. -/
def span (a b : UInt32) : ℕ := (a - b).toNat

/-- The bytes between the old and the new `w`. -/
def committed (s s' : Input) : List UInt8 := window INPUT_BUF.toNat s'.buf s.w.toNat (span s'.w s.w)

/-- One turn of the loop of `consoleread` once `r ≠ w`. -/
def readByte (rd : Reader) (s : Input) : State × List Obs :=
  let c := s.at s.r
  let s := { s with r := s.r + 1 }
  if c = C 'D' then
    -- save ^D for next time, so that the caller gets a 0-byte result
    let s := if rd.n < rd.target then { s with r := s.r - 1 } else s
    (⟨s, none⟩, [.ret (rd.target - rd.n) rd.dst])
  else
    let rd := { rd with n := rd.n - 1, dst := rd.dst ++ [c] }
    if c = '\n'.toUInt8 ∨ rd.n = 0 then (⟨s, none⟩, [.ret (rd.target - rd.n) rd.dst]) else (⟨s, some rd⟩, [])

/-- A reader asleep on `r = w` has no step; a second `read` waits for the first. -/
def step : State → Event → Option (State × List Obs)
  | ⟨s, rd⟩, .intr c => some (⟨intrChar c s, rd⟩, [.commit (committed s (intrChar c s))])
  | ⟨s, none⟩, .read n => if n = 0 then some (⟨s, none⟩, [.ret 0 []]) else some (⟨s, some ⟨n, n, []⟩⟩, [])
  | ⟨_, some _⟩, .read _ => none
  | ⟨_, none⟩, .readByte => none
  | ⟨s, some rd⟩, .readByte => if s.r = s.w then none else some (readByte rd s)

inductive Run : State → List Obs → Prop
  | init : Run ⟨Input.init, none⟩ []
  | step {st st' : State} {obs o : List Obs} {ev : Event} :
      Run st obs → step st ev = some (st', o) → Run st' (obs ++ o)

/-! ### The counters as distances mod 2^32 -/

section Span

variable {a b e w r : UInt32}

lemma INPUT_BUF_toNat : INPUT_BUF.toNat = 128 := rfl

lemma span_eq (a b : UInt32) : span a b = (2 ^ 32 - b.toNat + a.toNat) % 2 ^ 32 := by
  rw [span, UInt32.toNat_sub]

lemma span_eq_zero : span a b = 0 ↔ a = b := by
  have := a.toNat_lt
  have := b.toNat_lt
  rw [span_eq, ← UInt32.toNat_inj]
  omega

@[simp] lemma span_self (a : UInt32) : span a a = 0 := span_eq_zero.mpr rfl

lemma span_pos (h : a ≠ b) : 0 < span a b := Nat.pos_of_ne_zero fun h0 => h (span_eq_zero.mp h0)

lemma span_succ (h : span e r < INPUT_BUF.toNat) : span (e + 1) r = span e r + 1 := by
  have := e.toNat_lt
  have := r.toNat_lt
  rw [span_eq, span_eq, UInt32.toNat_add, INPUT_BUF_toNat] at *
  simp only [UInt32.toNat_one] at *
  omega

lemma span_pred (h : 0 < span e r) : span (e - 1) r = span e r - 1 := by
  have := e.toNat_lt
  have := r.toNat_lt
  rw [span_eq, span_eq, UInt32.toNat_sub] at *
  simp only [UInt32.toNat_one] at *
  omega

lemma span_succ_right (h : 0 < span w r) : span w (r + 1) = span w r - 1 := by
  have := w.toNat_lt
  have := r.toNat_lt
  rw [span_eq, span_eq, UInt32.toNat_add] at *
  simp only [UInt32.toNat_one] at *
  omega

lemma span_trans (h : span w r ≤ span e r) : span e r = span w r + span e w := by
  have := e.toNat_lt
  have := w.toNat_lt
  have := r.toNat_lt
  rw [span_eq, span_eq, span_eq] at *
  omega

lemma toNat_mod (a b : UInt32) : a.toNat % INPUT_BUF.toNat = (b.toNat + span a b) % INPUT_BUF.toNat := by
  have := a.toNat_lt
  have := b.toNat_lt
  rw [span_eq, INPUT_BUF_toNat]
  omega

lemma Input.at_eq (s : Input) (x y : UInt32) : s.at x = s.buf ((y.toNat + span x y) % INPUT_BUF.toNat) := by
  rw [Input.at, UInt32.toNat_mod, toNat_mod x y]

lemma sub_lt_iff : e - r < INPUT_BUF ↔ span e r < INPUT_BUF.toNat := UInt32.lt_iff_toNat_lt

lemma eq_add_iff : e = r + INPUT_BUF ↔ span e r = INPUT_BUF.toNat := by
  have := e.toNat_lt
  have := r.toNat_lt
  rw [span_eq, ← UInt32.toNat_inj, UInt32.toNat_add, INPUT_BUF_toNat]
  omega

end Span

/-! ### What the ring holds -/

/-- The committed bytes not yet read: from `r` up to `w`. -/
def queue (s : Input) : List UInt8 := window INPUT_BUF.toNat s.buf s.r.toNat (span s.w s.r)

/-- The line being edited: from `w` up to `e`. -/
def edits (s : Input) : List UInt8 := window INPUT_BUF.toNat s.buf s.w.toNat (span s.e s.w)

/-- `r ≤ w ≤ e ≤ r + INPUT_BUF` as `uint` differences, and a newline always ends the edited line. -/
structure Inv (s : Input) : Prop where
  w_le_e : span s.w s.r ≤ span s.e s.r
  e_le : span s.e s.r ≤ INPUT_BUF.toNat
  no_nl : '\n'.toUInt8 ∉ edits s

lemma Inv.span_eq {s : Input} (hs : Inv s) : span s.e s.r = (queue s).length + (edits s).length := by
  rw [queue, edits, window_length, window_length, span_trans hs.w_le_e]

lemma committed_of_w_eq {s s' : Input} (h : s'.w = s.w) : committed s s' = [] := by
  rw [committed, h, span_self, window_zero]

@[simp] lemma committed_self (s : Input) : committed s s = [] := committed_of_w_eq rfl

/-- Editing, without moving `w`, commits nothing. -/
@[simp] lemma committed_edit (s : Input) (buf : ℕ → UInt8) (e : UInt32) :
    committed s { s with buf := buf, e := e } = [] := committed_of_w_eq rfl

section Updates

variable {s : Input}

lemma edits_pred {k : ℕ} (h : span s.e s.w = k + 1) :
    edits s = edits { s with e := s.e - 1 } ++ [s.at (s.e - 1)] := by
  have hk : span (s.e - 1) s.w = k := by rw [span_pred (by omega), h, Nat.add_sub_cancel]
  rw [edits, edits, h, window_succ, hk, s.at_eq (s.e - 1) s.w, hk]

lemma queue_commit (h : span s.w s.r ≤ span s.e s.r) : queue { s with w := s.e } = queue s ++ edits s := by
  rw [queue, queue, edits, span_trans h, window_add, window_mod (toNat_mod s.w s.r).symm]

lemma edits_commit : edits { s with w := s.e } = [] := by
  rw [edits, span_self, window_zero]

-- The store of `consoleintr`: the byte goes to the cell of `e`, past both windows.
lemma queue_store (h : span s.w s.r ≤ span s.e s.r) (hlt : span s.e s.r < INPUT_BUF.toNat) (c : UInt8) :
    queue { s with buf := Function.update s.buf (s.e % INPUT_BUF).toNat c, e := s.e + 1 } = queue s := by
  rw [queue, queue, UInt32.toNat_mod, toNat_mod s.e s.r, window_update_of_le h hlt]

lemma edits_store (h : span s.w s.r ≤ span s.e s.r) (hlt : span s.e s.r < INPUT_BUF.toNat) (c : UInt8) :
    edits { s with buf := Function.update s.buf (s.e % INPUT_BUF).toNat c, e := s.e + 1 } = edits s ++ [c] := by
  have hew : span s.e s.w < INPUT_BUF.toNat := by rw [span_trans h] at hlt; omega
  rw [edits, edits, UInt32.toNat_mod, toNat_mod s.e s.w, span_succ hew, window_push hew]

lemma queue_pop (h : s.r ≠ s.w) : queue s = s.at s.r :: queue { s with r := s.r + 1 } := by
  have hpos : 0 < span s.w s.r := span_pos (Ne.symm h)
  have hr : (s.r + 1).toNat % INPUT_BUF.toNat = (s.r.toNat + 1) % INPUT_BUF.toNat := by
    rw [toNat_mod (s.r + 1) s.r, span_succ (by simp [INPUT_BUF_toNat]), span_self]
  obtain ⟨k, hk⟩ : ∃ k, span s.w s.r = k + 1 := ⟨_, (Nat.succ_pred_eq_of_pos hpos).symm⟩
  rw [queue, queue, hk, window_succ_left, span_succ_right hpos, hk, Nat.add_sub_cancel, window_mod hr,
    Input.at, UInt32.toNat_mod]

lemma killLine_of_no_nl : ∀ k (s : Input), span s.e s.w = k → '\n'.toUInt8 ∉ edits s →
    killLine k s = { s with e := s.w }
  | 0, ⟨_, _, _, _⟩, hk, _ => by
    rw [span_eq_zero] at hk
    dsimp only at hk
    subst hk
    rfl
  | k + 1, s, hk, hnl => by
    have hsplit := edits_pred hk
    have hne : s.e ≠ s.w := fun h => by rw [h, span_self] at hk; omega
    have hat : s.at (s.e - 1) ≠ '\n'.toUInt8 := fun h => hnl (by rw [hsplit, h]; simp)
    have hk' : span (s.e - 1) s.w = k := by rw [span_pred (by omega), hk, Nat.add_sub_cancel]
    rw [killLine, if_pos ⟨hne, hat⟩,
      killLine_of_no_nl k { s with e := s.e - 1 } hk' fun h => hnl (by rw [hsplit]; exact List.mem_append_left _ h)]

end Updates

/-! ### The abstract line discipline -/

/-- The committed bytes not yet read, and the line being edited. -/
structure Line where
  q : List UInt8
  ed : List UInt8

/-- A typed character on the lists: the new line, and the bytes it commits. -/
def Line.type (c : UInt8) (L : Line) : Line × List UInt8 :=
  if c = C 'P' then (L, [])
  else if c = C 'U' then (⟨L.q, []⟩, [])
  else if c = C 'H' ∨ c = 0x7f then (⟨L.q, L.ed.dropLast⟩, [])
  else if c ≠ 0 ∧ L.q.length + L.ed.length < INPUT_BUF.toNat then
    let c := if c = '\r'.toUInt8 then '\n'.toUInt8 else c
    if c = '\n'.toUInt8 ∨ c = C 'D' ∨ L.q.length + L.ed.length + 1 = INPUT_BUF.toNat then
      (⟨L.q ++ (L.ed ++ [c]), []⟩, L.ed ++ [c])
    else (⟨L.q, L.ed ++ [c]⟩, [])
  else (L, [])

lemma Line.type_q (c : UInt8) (L : Line) : (L.type c).1.q = L.q ++ (L.type c).2 := by
  unfold Line.type
  by_cases hP : c = C 'P'
  · rw [if_pos hP, List.append_nil]
  rw [if_neg hP]
  by_cases hU : c = C 'U'
  · rw [if_pos hU, List.append_nil]
  rw [if_neg hU]
  by_cases hH : c = C 'H' ∨ c = 0x7f
  · rw [if_pos hH, List.append_nil]
  rw [if_neg hH]
  by_cases hst : c ≠ 0 ∧ L.q.length + L.ed.length < INPUT_BUF.toNat
  · rw [if_pos hst]
    dsimp only
    generalize (if c = '\r'.toUInt8 then '\n'.toUInt8 else c) = c'
    split
    · rfl
    · rw [List.append_nil]
  · rw [if_neg hst, List.append_nil]

def absInput (s : Input) : Line := ⟨queue s, edits s⟩

/-! ### `consoleintr` refines `Line.type` -/

section Intr

variable {s : Input}

lemma Inv.kill (hs : Inv s) : Inv { s with e := s.w } where
  w_le_e := le_rfl
  e_le := hs.w_le_e.trans hs.e_le
  no_nl := by simp [edits]

lemma Inv.backspace (hs : Inv s) (he : s.e ≠ s.w) : Inv { s with e := s.e - 1 } where
  w_le_e := by
    have hpos := span_pos he
    have hsplit := span_trans hs.w_le_e
    dsimp only
    rw [span_pred (by omega)]
    omega
  e_le := by
    have hpos := span_pos he
    have hsplit := span_trans hs.w_le_e
    dsimp only
    rw [span_pred (by omega)]
    exact (Nat.sub_le _ _).trans hs.e_le
  no_nl := fun h => hs.no_nl (by
    obtain ⟨k, hk⟩ := Nat.exists_eq_succ_of_ne_zero (span_pos he).ne'
    rw [edits_pred hk]
    exact List.mem_append_left _ h)

lemma Inv.commit (he : span s.e s.r ≤ INPUT_BUF.toNat) : Inv { s with w := s.e } where
  w_le_e := le_rfl
  e_le := he
  no_nl := by rw [edits_commit]; simp

lemma Inv.store (hs : Inv s) (hlt : span s.e s.r < INPUT_BUF.toNat) {c : UInt8} (hc : c ≠ '\n'.toUInt8) :
    Inv { s with buf := Function.update s.buf (s.e % INPUT_BUF).toNat c, e := s.e + 1 } where
  w_le_e := by
    dsimp only
    rw [span_succ hlt]
    exact Nat.le_succ_of_le hs.w_le_e
  e_le := by
    dsimp only
    rw [span_succ hlt]
    omega
  no_nl := by
    rw [edits_store hs.w_le_e hlt c, List.mem_append, List.mem_singleton, not_or]
    exact ⟨hs.no_nl, Ne.symm hc⟩

lemma store_commit (hs : Inv s) (hlt : span s.e s.r < INPUT_BUF.toNat) (c : UInt8) :
    Inv { s with buf := Function.update s.buf (s.e % INPUT_BUF).toNat c, w := s.e + 1, e := s.e + 1 } ∧
    absInput { s with buf := Function.update s.buf (s.e % INPUT_BUF).toNat c, w := s.e + 1, e := s.e + 1 } =
      ⟨queue s ++ (edits s ++ [c]), []⟩ ∧
    committed s { s with buf := Function.update s.buf (s.e % INPUT_BUF).toNat c, w := s.e + 1, e := s.e + 1 } =
      edits s ++ [c] := by
  let s1 : Input := { s with buf := Function.update s.buf (s.e % INPUT_BUF).toNat c, e := s.e + 1 }
  have hw : span s1.w s1.r ≤ span s1.e s1.r := by
    show span s.w s.r ≤ span (s.e + 1) s.r
    rw [span_succ hlt]
    exact Nat.le_succ_of_le hs.w_le_e
  have hle : span s1.e s1.r ≤ INPUT_BUF.toNat := by
    show span (s.e + 1) s.r ≤ _
    rw [span_succ hlt]
    omega
  refine ⟨Inv.commit (s := s1) hle, ?_, edits_store hs.w_le_e hlt c⟩
  rw [absInput, queue_commit (s := s1) hw, edits_commit (s := s1), queue_store hs.w_le_e hlt c,
    edits_store hs.w_le_e hlt c]

/-- What one typed character does: `consoleintr` acts on the ring as `Line.type` on the lists,
commits exactly the bytes `Line.type` commits, and keeps the invariant. -/
theorem intrChar_spec (hs : Inv s) (c : UInt8) :
    Inv (intrChar c s) ∧ (absInput (intrChar c s), committed s (intrChar c s)) = (absInput s).type c := by
  have hlen := hs.span_eq
  unfold intrChar Line.type absInput
  dsimp only
  by_cases hP : c = C 'P'
  · rw [if_pos hP, if_pos hP, committed_self]
    exact ⟨hs, rfl⟩
  rw [if_neg hP, if_neg hP]
  by_cases hU : c = C 'U'
  -- ^U: the loop stops at `w`, since the edited line holds no newline
  · rw [if_pos hU, if_pos hU, killLine_of_no_nl (s.e - s.w).toNat s rfl hs.no_nl, committed_edit]
    refine ⟨hs.kill, ?_⟩
    rw [edits, span_self, window_zero]
    rfl
  rw [if_neg hU, if_neg hU]
  by_cases hH : c = C 'H' ∨ c = 0x7f
  · rw [if_pos hH, if_pos hH]
    by_cases he : s.e ≠ s.w
    · obtain ⟨k, hk⟩ := Nat.exists_eq_succ_of_ne_zero (span_pos he).ne'
      rw [if_pos he, committed_edit, edits_pred hk (s := s), List.dropLast_concat]
      exact ⟨hs.backspace he, rfl⟩
    · have hew : s.e = s.w := not_not.mp he
      rw [if_neg he, committed_self, edits, hew, span_self, window_zero, List.dropLast_nil]
      exact ⟨hs, rfl⟩
  rw [if_neg hH, if_neg hH]
  by_cases hst : c ≠ 0 ∧ s.e - s.r < INPUT_BUF
  · have hlt : span s.e s.r < INPUT_BUF.toNat := sub_lt_iff.mp hst.2
    rw [if_pos hst, if_pos (show c ≠ 0 ∧ (queue s).length + (edits s).length < INPUT_BUF.toNat from
      ⟨hst.1, hlen ▸ hlt⟩)]
    generalize (if c = '\r'.toUInt8 then '\n'.toUInt8 else c) = c'
    have hfull : s.e + 1 = s.r + INPUT_BUF ↔ (queue s).length + (edits s).length + 1 = INPUT_BUF.toNat := by
      rw [eq_add_iff, span_succ hlt, hlen]
    have hq := queue_store hs.w_le_e hlt c'
    have hed := edits_store hs.w_le_e hlt c'
    by_cases hcm : c' = '\n'.toUInt8 ∨ c' = C 'D' ∨ (queue s).length + (edits s).length + 1 = INPUT_BUF.toNat
    -- a newline, ^D or a full buffer moves `w` up to `e`
    · rw [if_pos hcm, if_pos (show c' = '\n'.toUInt8 ∨ c' = C 'D' ∨ s.e + 1 = s.r + INPUT_BUF by rwa [hfull])]
      obtain ⟨hinv, habs, hcom⟩ := store_commit hs hlt c'
      rw [← absInput, habs, hcom]
      exact ⟨hinv, rfl⟩
    · rw [if_neg hcm, if_neg (show ¬(c' = '\n'.toUInt8 ∨ c' = C 'D' ∨ s.e + 1 = s.r + INPUT_BUF) by rwa [hfull]),
        committed_edit, hq, hed]
      exact ⟨hs.store hlt fun h => hcm (Or.inl h), rfl⟩
  · rw [if_neg hst, if_neg (show ¬(c ≠ 0 ∧ (queue s).length + (edits s).length < INPUT_BUF.toNat) from
      fun h => hst ⟨h.1, sub_lt_iff.mpr (hlen ▸ h.2)⟩), committed_self]
    exact ⟨hs, rfl⟩

/-- Typing never takes back a committed byte. -/
theorem queue_intrChar (hs : Inv s) (c : UInt8) :
    queue (intrChar c s) = queue s ++ committed s (intrChar c s) := by
  have h := (intrChar_spec hs c).2
  calc queue (intrChar c s) = ((absInput s).type c).1.q := congrArg (fun p => p.1.q) h
    _ = (absInput s).q ++ ((absInput s).type c).2 := Line.type_q c _
    _ = queue s ++ committed s (intrChar c s) := by rw [← h]; rfl

end Intr

/-! ### `consoleread` -/

/-- A read in progress still wants bytes, and has copied neither a ^D nor a newline. -/
structure Reader.Ok (rd : Reader) : Prop where
  count : rd.n + rd.dst.length = rd.target
  pos : 0 < rd.n
  no_eof : C 'D' ∉ rd.dst
  no_nl : '\n'.toUInt8 ∉ rd.dst

section Read

variable {s : Input} {rd : Reader}

lemma Inv.pop (hs : Inv s) (h : s.r ≠ s.w) : Inv { s with r := s.r + 1 } where
  w_le_e := by
    have hpos := span_pos (Ne.symm h)
    dsimp only
    rw [span_succ_right hpos, span_succ_right (hpos.trans_le hs.w_le_e)]
    exact Nat.sub_le_sub_right hs.w_le_e 1
  e_le := by
    have hpos := span_pos (Ne.symm h)
    dsimp only
    rw [span_succ_right (hpos.trans_le hs.w_le_e)]
    exact (Nat.sub_le _ _).trans hs.e_le
  no_nl := hs.no_nl

lemma readByte_cases (rd : Reader) (s : Input) :
    (s.at s.r = C 'D' ∧ rd.n < rd.target ∧ readByte rd s = (⟨s, none⟩, [.ret (rd.target - rd.n) rd.dst])) ∨
    (s.at s.r = C 'D' ∧ ¬ rd.n < rd.target ∧
      readByte rd s = (⟨{ s with r := s.r + 1 }, none⟩, [.ret (rd.target - rd.n) rd.dst])) ∨
    (s.at s.r ≠ C 'D' ∧ (s.at s.r = '\n'.toUInt8 ∨ rd.n - 1 = 0) ∧
      readByte rd s = (⟨{ s with r := s.r + 1 }, none⟩, [.ret (rd.target - (rd.n - 1)) (rd.dst ++ [s.at s.r])])) ∨
    (s.at s.r ≠ C 'D' ∧ ¬ (s.at s.r = '\n'.toUInt8 ∨ rd.n - 1 = 0) ∧
      readByte rd s = (⟨{ s with r := s.r + 1 }, some ⟨rd.target, rd.n - 1, rd.dst ++ [s.at s.r]⟩⟩, [])) := by
  unfold readByte
  dsimp only
  by_cases hd : s.at s.r = C 'D'
  · by_cases hn : rd.n < rd.target
    · refine .inl ⟨hd, hn, ?_⟩
      rw [if_pos hd, if_pos hn, UInt32.add_sub_cancel]
    · exact .inr (.inl ⟨hd, hn, by rw [if_pos hd, if_neg hn]⟩)
  · by_cases hl : s.at s.r = '\n'.toUInt8 ∨ rd.n - 1 = 0
    · exact .inr (.inr (.inl ⟨hd, hl, by rw [if_neg hd, if_pos hl]⟩))
    · exact .inr (.inr (.inr ⟨hd, hl, by rw [if_neg hd, if_neg hl]⟩))

end Read

/-! ### Whole runs -/

/-- The bytes an observation commits, and those it returns. -/
def Obs.committed : Obs → List UInt8
  | .commit bs => bs
  | .ret _ _ => []

def Obs.returned : Obs → List UInt8
  | .commit _ => []
  | .ret _ bs => bs

/-- The input stream with every ^D taken out. -/
def dropEof (bs : List UInt8) : List UInt8 := bs.filter fun b => b != C 'D'

/-- What a reader will still hand out: the bytes it has copied, then the committed queue. -/
def pending (st : State) : List UInt8 := (st.reader.map Reader.dst).getD [] ++ dropEof (queue st.input)

@[simp] lemma dropEof_nil : dropEof [] = [] := rfl

@[simp] lemma dropEof_append (bs cs : List UInt8) : dropEof (bs ++ cs) = dropEof bs ++ dropEof cs :=
  List.filter_append _ _

lemma dropEof_cons_eof (bs : List UInt8) : dropEof (C 'D' :: bs) = dropEof bs := by
  simp [dropEof]

lemma dropEof_cons_of_ne {b : UInt8} (h : b ≠ C 'D') (bs : List UInt8) : dropEof (b :: bs) = b :: dropEof bs := by
  simp [dropEof, h]

/-- The run invariant: the ring invariant, the reader's, the byte stream and what every
return so far looked like. -/
structure Good (st : State) (obs : List Obs) : Prop where
  inv : Inv st.input
  reader : ∀ rd, st.reader = some rd → rd.Ok
  stream : dropEof (obs.flatMap Obs.committed) = obs.flatMap Obs.returned ++ pending st
  rets : ∀ cnt bs, Obs.ret cnt bs ∈ obs → cnt = bs.length ∧ C 'D' ∉ bs ∧ '\n'.toUInt8 ∉ bs.dropLast

section Steps

variable {st st' : State} {obs o : List Obs}

lemma Good.of_step (hg : Good st obs) (hinv : Inv st'.input) (hrd : ∀ rd, st'.reader = some rd → rd.Ok)
    (hstream : pending st ++ dropEof (o.flatMap Obs.committed) = o.flatMap Obs.returned ++ pending st')
    (hrets : ∀ cnt bs, Obs.ret cnt bs ∈ o → cnt = bs.length ∧ C 'D' ∉ bs ∧ '\n'.toUInt8 ∉ bs.dropLast) :
    Good st' (obs ++ o) where
  inv := hinv
  reader := hrd
  stream := by
    rw [List.flatMap_append, List.flatMap_append, dropEof_append, hg.stream, List.append_assoc, hstream,
      List.append_assoc]
  rets cnt bs h := (List.mem_append.mp h).elim (hg.rets cnt bs) (hrets cnt bs)

lemma Good.intr {s : Input} {rd : Option Reader} (hg : Good ⟨s, rd⟩ obs) (c : UInt8) :
    Good ⟨intrChar c s, rd⟩ (obs ++ [.commit (committed s (intrChar c s))]) := by
  refine hg.of_step (intrChar_spec hg.inv c).1 hg.reader ?_ (by simp)
  simp [pending, queue_intrChar hg.inv c, Obs.committed, Obs.returned]

lemma Reader.Ok.ret {rd : Reader} (h : rd.Ok) {c : UInt8} (hc : c ≠ C 'D') :
    rd.target - (rd.n - 1) = (rd.dst ++ [c]).length ∧ C 'D' ∉ rd.dst ++ [c] ∧
      '\n'.toUInt8 ∉ (rd.dst ++ [c]).dropLast := by
  have := h.count
  have := h.pos
  refine ⟨by simp; omega, ?_, by rw [List.dropLast_concat]; exact h.no_nl⟩
  simp only [List.mem_append, List.mem_singleton, not_or]
  exact ⟨h.no_eof, Ne.symm hc⟩

lemma Good.readByte {s : Input} {rd : Reader} (hg : Good ⟨s, some rd⟩ obs) (hrw : s.r ≠ s.w) :
    Good (readByte rd s).1 (obs ++ (readByte rd s).2) := by
  have hok := hg.reader rd rfl
  have hq := queue_pop hrw
  have hpop := hg.inv.pop hrw
  rcases readByte_cases rd s with ⟨hd, -, hb⟩ | ⟨hd, -, hb⟩ | ⟨hd, -, hb⟩ | ⟨hd, hl, hb⟩ <;> rw [hb]
  -- ^D after some bytes: it stays in the queue for the next read
  · refine hg.of_step hg.inv (by simp) (by simp [pending, Obs.committed, Obs.returned]) ?_
    simp only [List.mem_singleton, Obs.ret.injEq]
    rintro cnt bs ⟨rfl, rfl⟩
    exact ⟨by have := hok.count; omega, hok.no_eof, fun h => hok.no_nl (List.dropLast_subset _ h)⟩
  -- ^D first: it is consumed
  · refine hg.of_step hpop (by simp) ?_ ?_
    · simp [pending, Obs.committed, Obs.returned, hq, hd, dropEof_cons_eof]
    · simp only [List.mem_singleton, Obs.ret.injEq]
      rintro cnt bs ⟨rfl, rfl⟩
      exact ⟨by have := hok.count; omega, hok.no_eof, fun h => hok.no_nl (List.dropLast_subset _ h)⟩
  · refine hg.of_step hpop (by simp) ?_ ?_
    · simp [pending, Obs.committed, Obs.returned, hq, dropEof_cons_of_ne hd]
    · simp only [List.mem_singleton, Obs.ret.injEq]
      rintro cnt bs ⟨rfl, rfl⟩
      exact hok.ret hd
  -- an ordinary byte with room for more: the read goes on
  · refine hg.of_step hpop ?_ ?_ (by simp)
    · simp only [Option.some.injEq]
      rintro _ rfl
      have := hok.count
      have hn : rd.n - 1 ≠ 0 := fun h => hl (Or.inr h)
      obtain ⟨hlen, hno, -⟩ := hok.ret hd
      refine ⟨by simp; omega, Nat.pos_of_ne_zero hn, hno, ?_⟩
      simp only [List.mem_append, List.mem_singleton, not_or]
      exact ⟨hok.no_nl, fun h => hl (Or.inl h.symm)⟩
    · simp [pending, hq, dropEof_cons_of_ne hd]

theorem Good.step {ev : Event} (hg : Good st obs) (h : step st ev = some (st', o)) : Good st' (obs ++ o) := by
  obtain ⟨s, rd⟩ := st
  cases ev with
  | intr c =>
    simp only [step, Option.some.injEq, Prod.mk.injEq] at h
    obtain ⟨rfl, rfl⟩ := h
    exact hg.intr c
  | read n =>
    cases rd with
    | some rd => simp [step] at h
    | none =>
      by_cases hn : n = 0
      · simp only [step, if_pos hn, Option.some.injEq, Prod.mk.injEq] at h
        obtain ⟨rfl, rfl⟩ := h
        refine hg.of_step hg.inv hg.reader (by simp [Obs.committed, Obs.returned, dropEof]) ?_
        simp
      · simp only [step, if_neg hn, Option.some.injEq, Prod.mk.injEq] at h
        obtain ⟨rfl, rfl⟩ := h
        refine hg.of_step hg.inv ?_ (by simp [pending]) (by simp)
        simp only [Option.some.injEq]
        rintro _ rfl
        exact ⟨by simp, Nat.pos_of_ne_zero hn, by simp, by simp⟩
  | readByte =>
    cases rd with
    | none => simp [step] at h
    | some rd =>
      by_cases hrw : s.r = s.w
      · simp [step, hrw] at h
      simp only [step, if_neg hrw, Option.some.injEq] at h
      have hg' := hg.readByte hrw
      rwa [h] at hg'

theorem Good.init : Good ⟨Input.init, none⟩ [] where
  inv := ⟨le_rfl, by simp [Input.init], by simp [Input.init, edits]⟩
  reader _ h := nomatch h
  stream := by simp [pending, Input.init, queue]
  rets _ _ h := nomatch h

theorem good_of_run {st : State} {obs : List Obs} (h : Run st obs) : Good st obs := by
  induction h with
  | init => exact Good.init
  | step _ hs ih => exact ih.step hs

lemma step_eof_first {s : Input} {rd : Reader} (hok : rd.Ok) (hdst : rd.dst = [])
    (hh : (queue s).head? = some (C 'D')) :
    step ⟨s, some rd⟩ .readByte = some (⟨{ s with r := s.r + 1 }, none⟩, [.ret 0 []]) ∧
      queue { s with r := s.r + 1 } = (queue s).tail := by
  have hrw : s.r ≠ s.w := fun h => by simp [queue, h] at hh
  have hq := queue_pop hrw
  rw [hq, List.head?_cons, Option.some.injEq] at hh
  have hn : rd.n = rd.target := by simpa [hdst] using hok.count
  refine ⟨?_, by rw [hq, List.tail_cons]⟩
  rw [step, if_neg hrw]
  rcases readByte_cases rd s with ⟨-, hlt, -⟩ | ⟨-, -, hb⟩ | ⟨hd, -⟩ | ⟨hd, -⟩
  · omega
  · rw [hb, hn, Nat.sub_self, hdst]
  all_goals exact absurd hh hd

end Steps

/-- The line discipline of the console, for a run that ended in `st` having shown `obs`:
`r ≤ w ≤ e ≤ r + INPUT_BUF` as `uint` differences; a typed character, editing ones included,
acts on the committed bytes and the edited line as `Line.type` does, and so only appends to the
committed bytes; the bytes the reads returned, then what is still pending,
are the committed bytes with every ^D taken out; each read returns its count of bytes, no ^D, and
a newline only as its last byte; and a read that meets a ^D first returns 0 bytes. -/
structure LineDiscipline (st : State) (obs : List Obs) : Prop where
  inv : Inv st.input
  refines : ∀ c, (absInput (intrChar c st.input), committed st.input (intrChar c st.input)) =
    (absInput st.input).type c
  appends : ∀ c, queue (intrChar c st.input) = queue st.input ++ committed st.input (intrChar c st.input)
  stream : dropEof (obs.flatMap Obs.committed) = obs.flatMap Obs.returned ++ pending st
  rets : ∀ cnt bs, Obs.ret cnt bs ∈ obs → cnt = bs.length ∧ C 'D' ∉ bs ∧ '\n'.toUInt8 ∉ bs.dropLast
  eof_first : ∀ rd, st.reader = some rd → rd.dst = [] → (queue st.input).head? = some (C 'D') →
    ∃ s', step st .readByte = some (⟨s', none⟩, [.ret 0 []]) ∧ queue s' = (queue st.input).tail

theorem consoleread_line_discipline {st : State} {obs : List Obs} (h : Run st obs) : LineDiscipline st obs := by
  have hg := good_of_run h
  refine ⟨hg.inv, fun c => (intrChar_spec hg.inv c).2, fun c => queue_intrChar hg.inv c, hg.stream, hg.rets, ?_⟩
  intro rd hrd hdst hh
  obtain ⟨s, _⟩ := st
  subst hrd
  exact ⟨_, step_eof_first (hg.reader rd rfl) hdst hh⟩

-- Typing `a` and a carriage return commits the line `a\n`; a read of 5 bytes then returns it.
theorem consoleread_line_discipline_typed :
    ∃ st, Run st [.commit [], .commit [97, 10], .ret 2 [97, 10]] ∧
      LineDiscipline st [.commit [], .commit [97, 10], .ret 2 [97, 10]] := by
  have h := @Run.step _ _ _ _ .readByte (@Run.step _ _ _ _ .readByte (@Run.step _ _ _ _ (.read 5)
    (@Run.step _ _ _ _ (.intr 13) (@Run.step _ _ _ _ (.intr 97) .init rfl) rfl) rfl) rfl) rfl
  exact ⟨_, h, consoleread_line_discipline h⟩

end Xv6Net.Kernel.Console
