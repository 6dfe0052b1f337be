import Mathlib
import Xv6Net.User.Grep

/-! `wc`: the read loop that counts lines, words and bytes. The counters and the `inword` flag
carry over from one `read` to the next, so the counts are those of the whole input however
`read` cuts it: its newlines, its maximal runs of bytes that are not white space, and its
length. White space is what xv6's `strchr` finds in `" \r\t\n\v"`, so a NUL byte is part of a
word. The counters are C `int`s: past `2^31 - 1` they wrap, as two's complement does on x86. -/

namespace Xv6Net.User.Wc

open Xv6Net.User.Grep (strchr)

/-- The locals `l`, `w`, `c` and `inword` of `wc`. -/
structure Counts where
  l : Int32
  w : Int32
  c : Int32
  inword : Bool
deriving DecidableEq, Repr

/-- The string `" \r\t\n\v"` with its NUL, as `strchr` scans it. -/
def separators : List Char := [' ', '\r', '\t', '\n', '\x0b', '\x00']

/-- One round of the inner loop on the byte `b`. -/
def count (s : Counts) (b : Char) : Counts :=
  let s := { s with c := s.c + 1 }
  let s := if b = '\n' then { s with l := s.l + 1 } else s
  if (strchr separators b).isSome then { s with inword := false }
  else if !s.inword then { s with w := s.w + 1, inword := true }
  else s

/-- `wc(fd, name)` when the `read`s return the chunks `reads` and then `n ≤ 0` (`0` at the end
of the file, negative on an error): the counts it prints with `"%d %d %d %s\n"`, or the message
it prints before `exit`. -/
def wc (reads : List (List Char)) (n : ℤ) : Except String (Int32 × Int32 × Int32) :=
  let s := reads.foldl (fun s buf => buf.foldl count s) ⟨0, 0, 0, false⟩
  if n < 0 then .error "wc: read error\n" else .ok (s.l, s.w, s.c)

section Spec

/-- The bytes `wc` takes for white space. -/
def isSpace (b : Char) : Bool := b ∈ [' ', '\r', '\t', '\n', '\x0b']

/-- The words of a text: the nonempty pieces between its white space. -/
def words (s : List Char) : List (List Char) := (s.splitOnP isSpace).filter fun w => !w.isEmpty

lemma head_splitOnP_isEmpty (r : List Char) :
    ((r.splitOnP isSpace).headD []).isEmpty = r.head?.all isSpace := by
  cases r with
  | nil => rfl
  | cons y r =>
    obtain ⟨h, t, ht⟩ := List.exists_cons_of_ne_nil (List.splitOnP_ne_nil isSpace r)
    cases hy : isSpace y <;> simp [List.splitOnP_cons_eq_if_modifyHead, hy, ht]

lemma words_cons_length (x : Char) (r : List Char) :
    (words (x :: r)).length =
      (words r).length + if !isSpace x && r.head?.all isSpace then 1 else 0 := by
  have hhead := head_splitOnP_isEmpty r
  obtain ⟨h, t, ht⟩ := List.exists_cons_of_ne_nil (List.splitOnP_ne_nil isSpace r)
  rw [ht, List.headD_cons] at hhead
  cases hx : isSpace x
  · cases hh : h.isEmpty <;> simp_all [words, List.splitOnP_cons_eq_if_modifyHead]
  · simp [words, List.splitOnP_cons_eq_if_modifyHead, hx]

lemma words_length_le (s : List Char) : (words s).length ≤ s.length := by
  induction s with
  | nil => simp [words]
  | cons x r ih =>
    rw [words_cons_length, List.length_cons]
    split <;> omega

end Spec

lemma strchr_isSome {l : List Char} (h0 : '\x00' ∉ l) (c : Char) :
    (strchr (l ++ ['\x00']) c).isSome = decide (c ∈ l) := by
  induction l with
  | nil => simp [strchr]
  | cons a l ih =>
    have ha : a ≠ '\x00' := fun e => h0 (e ▸ List.mem_cons_self ..)
    have hl := ih fun h => h0 (List.mem_cons_of_mem a h)
    by_cases hac : a = c
    · subst hac
      simp [strchr, ha]
    · simp [strchr, ha, hac, hl, Ne.symm hac]

lemma strchr_separators (b : Char) : (strchr separators b).isSome = isSpace b :=
  @strchr_isSome [' ', '\r', '\t', '\n', '\x0b'] (by decide) b

lemma count_eq (s : Counts) (b : Char) :
    count s b = ⟨s.l + (if b = '\n' then 1 else 0), s.w + (if !isSpace b && !s.inword then 1 else 0),
      s.c + 1, !isSpace b⟩ := by
  unfold count
  rw [strchr_separators]
  by_cases hn : b = '\n' <;> cases isSpace b <;> cases s.inword <;> simp [hn]

section Run

variable (st : Counts)

lemma run_c (s : List Char) : (s.foldl count st).c = st.c + Int32.ofNat s.length := by
  induction s generalizing st with
  | nil => simp
  | cons b s ih =>
    rw [List.foldl_cons, ih, count_eq, List.length_cons, Int32.ofNat_add]
    grind

lemma run_l (s : List Char) : (s.foldl count st).l = st.l + Int32.ofNat (s.count '\n') := by
  induction s generalizing st with
  | nil => simp
  | cons b s ih =>
    rw [List.foldl_cons, ih, count_eq, List.count_cons, Int32.ofNat_add]
    by_cases hn : b = '\n' <;> simp [hn]
    grind

lemma run_w (s : List Char) :
    (s.foldl count st).w + (if st.inword && !s.head?.all isSpace then 1 else 0) =
      st.w + Int32.ofNat (words s).length := by
  induction s generalizing st with
  | nil => simp [words]
  | cons b s ih =>
    -- the run after `b` starts from the state `b` leaves: `inword` is whether `b` is a word byte
    have hstep := ih (count st b)
    rw [count_eq] at hstep
    rw [List.foldl_cons, words_cons_length, Int32.ofNat_add, List.head?_cons, Option.all_some, count_eq]
    cases hb : isSpace b
    · -- a word byte: counted now unless a word is open, and counted again by `s` only when
      -- `s` does not go on with it
      cases hi : st.inword <;> cases ha : s.head?.all isSpace <;>
        simp only [hb, hi, ha] at hstep ⊢ <;> simp at hstep ⊢ <;> grind
    · -- white space closes any open word
      simp only [hb] at hstep ⊢
      simpa using hstep

end Run

lemma wc_eq (reads : List (List Char)) (n : ℤ) :
    wc reads n = if n < 0 then .error "wc: read error\n"
      else .ok (Int32.ofNat (reads.flatten.count '\n'), Int32.ofNat (words reads.flatten).length,
        Int32.ofNat reads.flatten.length) := by
  have hw := run_w ⟨0, 0, 0, false⟩ reads.flatten
  simp only [Bool.false_and, Bool.false_eq_true, if_false] at hw
  unfold wc
  dsimp only
  rw [← List.foldl_flatten, run_l, run_c]
  simp only [Int32.zero_add, Int32.add_zero] at hw ⊢
  rw [hw]

/-- On an input of fewer than `2^31` bytes, whatever chunks `read` returns, `wc` prints the number
of newlines, of words and of bytes of the whole input, and a failed `read` ends it with its error
message. -/
theorem wc_counts (reads : List (List Char)) (n : ℤ) (hlen : reads.flatten.length < 2 ^ 31) :
    (wc reads n).map (fun r => (r.1.toInt, r.2.1.toInt, r.2.2.toInt)) =
      if n < 0 then .error "wc: read error\n"
      else .ok ((reads.flatten.count '\n' : ℤ), ((words reads.flatten).length : ℤ), (reads.flatten.length : ℤ)) := by
  have hl : reads.flatten.count '\n' < 2 ^ 31 := lt_of_le_of_lt (List.count_le_length) hlen
  have hw : (words reads.flatten).length < 2 ^ 31 := lt_of_le_of_lt (words_length_le _) hlen
  rw [wc_eq]
  split
  · rfl
  · simp only [Except.map, Int32.toInt_ofNat_of_lt hl, Int32.toInt_ofNat_of_lt hw, Int32.toInt_ofNat_of_lt hlen]

theorem wc_counts_split_word :
    [['a'], ['\x00', ' ', 'b', '\n']].flatten.length < 2 ^ 31 ∧
      (wc [['a'], ['\x00', ' ', 'b', '\n']] 0).map (fun r => (r.1.toInt, r.2.1.toInt, r.2.2.toInt)) =
        if (0 : ℤ) < 0 then .error "wc: read error\n"
        else .ok (([['a'], ['\x00', ' ', 'b', '\n']].flatten.count '\n' : ℤ),
          ((words [['a'], ['\x00', ' ', 'b', '\n']].flatten).length : ℤ),
          ([['a'], ['\x00', ' ', 'b', '\n']].flatten.length : ℤ)) :=
  ⟨by decide, wc_counts _ 0 (by decide)⟩

-- a word cut by a chunk boundary is counted once, and a NUL byte belongs to the word
example : wc [['a'], ['\x00', ' ', 'b', '\n']] 0 = .ok (1, 2, 5) := by decide

end Xv6Net.User.Wc
