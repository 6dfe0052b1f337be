import Mathlib.Data.List.DropRight
import Mathlib.Data.List.TakeWhile
import Xv6Net.User.Sh

/-! The tokens of a command line as one function `lex` of the rest of the line: the lemmas say
that `gettoken` and `peek` follow it, that its words are the maximal runs of word bytes, and that
after `nulterminate` every word of a command reads as its text. -/

namespace Xv6Net.User.Sh

/-- A token of the line: a word between positions `q` and `eq`, or a symbol, with `'+'` for
`>>`. -/
inductive Tok where
  | word (q eq : ℕ)
  | sym (c : Char)
  deriving DecidableEq, Repr

/-- The token `gettoken` returns for it. -/
def Tok.kind : Tok → Char
  | .word .. => 'a'
  | .sym c => c

lemma length_lt_of_dropWhile {s t : List Char} {c : Char} (h : s.dropWhile isWhitespace = c :: t) :
    t.length < s.length := by
  have hs := List.length_dropWhile_le isWhitespace s
  rw [h, List.length_cons] at hs
  omega

variable (n : ℕ)

/-- The tokens of the rest `s` of a line of length `n`: the whitespace between them goes, `>>` is
one token, every other symbol is one, and a word runs as far as it can. -/
def lex (s : List Char) : List Tok :=
  match h : s.dropWhile isWhitespace with
  | [] => []
  | '>' :: '>' :: t => .sym '+' :: lex t
  | c :: t =>
    if isSymbol c then .sym c :: lex t
    else .word (n - (c :: t).length) (n - (t.dropWhile isWordChar).length) :: lex (t.dropWhile isWordChar)
termination_by s.length
decreasing_by
  · have := length_lt_of_dropWhile h
    simp only [List.length_cons] at this
    omega
  · exact length_lt_of_dropWhile h
  · exact Nat.lt_of_le_of_lt (List.length_dropWhile_le _ t) (length_lt_of_dropWhile h)

/-- Whether `peek` with `toks` stops at the first token. -/
def peeks (toks : List Char) : List Tok → Bool
  | .sym c :: _ => toks.contains (if c = '+' then '>' else c)
  | _ => false

lemma mem_symbols_iff {c : Char} : c ∈ ['|', '(', ')', ';', '&', '<', '>'] ↔ isSymbol c = true := by
  simp [isSymbol, symbols]
  tauto

lemma isWordChar_of_head {s t : List Char} {c : Char} (h : s.dropWhile isWhitespace = c :: t)
    (hc : isSymbol c = false) : isWordChar c = true := by
  have hw := List.head_dropWhile_not isWhitespace (by simp [h] : s.dropWhile isWhitespace ≠ [])
  simp only [h, List.head_cons] at hw
  simp [isWordChar, hw, hc]

section
variable {n} {s t : List Char} {c : Char}

/-! ### What one step of the cursor sees -/

lemma cursor_cases (s : List Char) :
    s.dropWhile isWhitespace = [] ∨ (∃ t, s.dropWhile isWhitespace = '>' :: '>' :: t) ∨
    (∃ c t, s.dropWhile isWhitespace = c :: t ∧ isSymbol c = true ∧ ¬(c = '>' ∧ t.head? = some '>')) ∨
    (∃ c t, s.dropWhile isWhitespace = c :: t ∧ isSymbol c = false) := by
  rcases hd : s.dropWhile isWhitespace with _ | ⟨c, t⟩
  · exact .inl rfl
  · by_cases hs : isSymbol c = true
    · by_cases hg : c = '>' ∧ t.head? = some '>'
      · obtain ⟨rfl, ht⟩ := hg
        obtain ⟨t', rfl⟩ : ∃ t', t = '>' :: t' := by
          cases t with
          | nil => simp at ht
          | cons d t' => simp_all
        exact .inr (.inl ⟨t', rfl⟩)
      · exact .inr (.inr (.inl ⟨c, t, rfl, hs, hg⟩))
    · exact .inr (.inr (.inr ⟨c, t, rfl, by simpa using hs⟩))

lemma lex_of_nil (h : s.dropWhile isWhitespace = []) : lex n s = [] := by
  rw [lex]; split <;> simp_all

@[simp] lemma lex_nil : lex n [] = [] := lex_of_nil rfl

lemma lex_of_append (h : s.dropWhile isWhitespace = '>' :: '>' :: t) : lex n s = .sym '+' :: lex n t := by
  rw [lex]; split <;> simp_all

lemma lex_of_sym (h : s.dropWhile isWhitespace = c :: t) (hc : isSymbol c = true)
    (hg : ¬(c = '>' ∧ t.head? = some '>')) : lex n s = .sym c :: lex n t := by
  rw [lex]
  split
  all_goals rename_i heq; rw [h] at heq
  · cases heq
  · obtain ⟨rfl, rfl⟩ := List.cons.inj heq
    simp at hg
  · obtain ⟨rfl, rfl⟩ := List.cons.inj heq
    rw [if_pos hc]

lemma lex_of_word (h : s.dropWhile isWhitespace = c :: t) (hc : isSymbol c = false) :
    lex n s = .word (n - (c :: t).length) (n - (t.dropWhile isWordChar).length) ::
      lex n (t.dropWhile isWordChar) := by
  rw [lex]
  split
  all_goals rename_i heq; rw [h] at heq
  · cases heq
  · obtain ⟨rfl, -⟩ := List.cons.inj heq
    simp [isSymbol, symbols] at hc
  · obtain ⟨rfl, rfl⟩ := List.cons.inj heq
    rw [if_neg (by simp [hc])]


lemma gettoken_of_nil (h : s.dropWhile isWhitespace = []) : gettoken n s = ('\x00', n, n, []) := by
  simp [gettoken, h]

lemma gettoken_of_append (h : s.dropWhile isWhitespace = '>' :: '>' :: t) :
    gettoken n s = ('+', n - (s.dropWhile isWhitespace).length, n - t.length, t.dropWhile isWhitespace) := by
  simp [gettoken, h]

lemma gettoken_of_sym (h : s.dropWhile isWhitespace = c :: t) (hc : isSymbol c = true)
    (hg : ¬(c = '>' ∧ t.head? = some '>')) :
    gettoken n s = (c, n - (c :: t).length, n - t.length, t.dropWhile isWhitespace) := by
  unfold gettoken
  simp only [h]
  split
  all_goals rename_i heq
  · cases heq
  · obtain ⟨rfl, rfl⟩ := List.cons.inj heq
    simp at hg
  · obtain ⟨rfl, rfl⟩ := List.cons.inj heq
    rw [if_pos (mem_symbols_iff.mpr hc)]

lemma gettoken_of_word (h : s.dropWhile isWhitespace = c :: t) (hc : isSymbol c = false) :
    gettoken n s = ('a', n - (c :: t).length, n - (t.dropWhile isWordChar).length,
      (t.dropWhile isWordChar).dropWhile isWhitespace) := by
  have hw : isWordChar c = true := isWordChar_of_head h hc
  unfold gettoken
  simp only [h]
  split
  all_goals rename_i heq
  · cases heq
  · obtain ⟨rfl, -⟩ := List.cons.inj heq
    simp [isSymbol, symbols] at hc
  · obtain ⟨rfl, rfl⟩ := List.cons.inj heq
    rw [if_neg (by rw [mem_symbols_iff, hc]; exact Bool.false_ne_true)]
    simp [hw]

/-! ### `gettoken` and `peek` follow `lex` -/

lemma lex_dropWhile : lex n (s.dropWhile isWhitespace) = lex n s := by
  have hi := List.dropWhile_idempotent (p := isWhitespace) (l := s)
  rcases cursor_cases s with h | ⟨t, h⟩ | ⟨c, t, h, hc, hg⟩ | ⟨c, t, h, hc⟩
  · rw [lex_of_nil h, lex_of_nil (hi.trans h)]
  · rw [lex_of_append h, lex_of_append (hi.trans h)]
  · rw [lex_of_sym h hc hg, lex_of_sym (hi.trans h) hc hg]
  · rw [lex_of_word h hc, lex_of_word (hi.trans h) hc]

lemma lex_eq_nil_iff : lex n s = [] ↔ s.dropWhile isWhitespace = [] := by
  rcases cursor_cases s with h | ⟨t, h⟩ | ⟨c, t, h, hc, hg⟩ | ⟨c, t, h, hc⟩
  · simp [lex_of_nil h, h]
  · simp [lex_of_append h, h]
  · simp [lex_of_sym h hc hg, h]
  · simp [lex_of_word h hc, h]

/-- `gettoken` returns the first token of `lex`, or `'\x00'` when there is none, and leaves the
cursor where the other tokens start. -/
theorem gettoken_spec (n : ℕ) (s : List Char) :
    (gettoken n s).1 = ((lex n s).head?.map Tok.kind).getD '\x00' ∧
    lex n (gettoken n s).2.2.2 = (lex n s).tail ∧
    ∀ q eq, (lex n s).head? = some (.word q eq) → (gettoken n s).2.1 = q ∧ (gettoken n s).2.2.1 = eq := by
  rcases cursor_cases s with h | ⟨t, h⟩ | ⟨c, t, h, hc, hg⟩ | ⟨c, t, h, hc⟩
  · simp [gettoken_of_nil h, lex_of_nil h]
  · simp [gettoken_of_append h, lex_of_append h, lex_dropWhile, Tok.kind]
  · simp [gettoken_of_sym h hc hg, lex_of_sym h hc hg, lex_dropWhile, Tok.kind]
  · simp [gettoken_of_word h hc, lex_of_word h hc, lex_dropWhile, Tok.kind]

/-- `peek` moves the cursor past the whitespace and stops at a symbol token of `toks`. -/
theorem peek_spec (toks : List Char) (htoks : toks.all isSymbol = true) :
    (peek s toks).1 = s.dropWhile isWhitespace ∧ (peek s toks).2 = peeks toks (lex n s) := by
  refine ⟨rfl, ?_⟩
  rcases cursor_cases s with h | ⟨t, h⟩ | ⟨c, t, h, hc, hg⟩ | ⟨c, t, h, hc⟩
  · simp [peek, h, lex_of_nil h, peeks]
  · simp [peek, h, lex_of_append h, peeks]
  · have hplus : c ≠ '+' := by
      rintro rfl
      simp [isSymbol, symbols] at hc
    simp [peek, h, lex_of_sym h hc hg, peeks, hplus]
  · have hnot : c ∉ toks := fun hm => by simp [List.all_eq_true.mp htoks c hm] at hc
    simp [peek, h, lex_of_word h hc, peeks, hnot]

lemma lex_peek (toks : List Char) : lex n (peek s toks).1 = lex n s := lex_dropWhile

lemma not_append_of {c : Char} {t : List Char} (hg : ∀ t', c = '>' → t = '>' :: t' → False) :
    ¬(c = '>' ∧ t.head? = some '>') := by
  rintro ⟨rfl, ht⟩
  cases t with
  | nil => simp at ht
  | cons d t' =>
    simp only [List.head?_cons, Option.some.injEq] at ht
    exact hg t' rfl (by rw [ht])

lemma lex_sym_mem {c : Char} (s : List Char) : .sym c ∈ lex n s → c ∈ '+' :: symbols := by
  induction s using lex.induct with
  | case1 s h => simp [lex_of_nil h]
  | case2 s t h ih =>
    rw [lex_of_append h, List.mem_cons, Tok.sym.injEq]
    rintro (rfl | hm)
    · exact List.mem_cons_self
    · exact ih hm
  | case3 s d t hg h hd ih =>
    rw [lex_of_sym h hd (not_append_of hg), List.mem_cons, Tok.sym.injEq]
    rintro (rfl | hm)
    · simp only [isSymbol, List.contains_iff_mem] at hd
      exact List.mem_cons_of_mem _ hd
    · exact ih hm
  | case4 s d t hg h hd ih =>
    rw [lex_of_word h (by simpa using hd), List.mem_cons]
    rintro (hw | hm)
    · cases hw
    · exact ih hm

lemma lex_length_le (s : List Char) : (lex n s).length ≤ s.length := by
  induction s using lex.induct with
  | case1 s h => simp [lex_of_nil h]
  | case2 s t h ih =>
    have hlt := length_lt_of_dropWhile h
    rw [lex_of_append h, List.length_cons]
    simp only [List.length_cons] at hlt
    omega
  | case3 s d t hg h hd ih =>
    have hlt := length_lt_of_dropWhile h
    rw [lex_of_sym h hd (not_append_of hg), List.length_cons]
    omega
  | case4 s d t hg h hd ih =>
    have hlt := length_lt_of_dropWhile h
    have hle := List.length_dropWhile_le isWordChar t
    rw [lex_of_word h (by simpa using hd), List.length_cons]
    omega

/-! ### Words are maximal runs of word bytes -/

/-- Whether the line has a word byte at `k`. -/
def wordByteAt (ln : List Char) (k : ℕ) : Bool := ln[k]?.any isWordChar

/-- Bytes `q` to `eq` of the line are a word: a run of word bytes that cannot be made longer. -/
structure WordRun (ln : List Char) (q eq : ℕ) : Prop where
  lt : q < eq
  le : eq ≤ ln.length
  inside : ∀ k, q ≤ k → k < eq → wordByteAt ln k = true
  after : wordByteAt ln eq = false
  before : q = 0 ∨ wordByteAt ln (q - 1) = false

lemma any_getElem?_of_lt_dropWhile {α : Type} (p : α → Bool) :
    ∀ (l : List α) (j : ℕ), j < l.length - (l.dropWhile p).length → (l[j]?).any p = true
  | [], _, hj => by simp at hj
  | x :: l, j, hj => by
    by_cases hx : p x = true
    · rw [List.dropWhile_cons_of_pos hx] at hj
      cases j with
      | zero => simpa using hx
      | succ j =>
        simp only [List.length_cons] at hj
        simpa using any_getElem?_of_lt_dropWhile p l j (by omega)
    · rw [List.dropWhile_cons_of_neg hx] at hj
      omega

lemma getElem?_of_suffix {d ln : List Char} (hd : d <:+ ln) (m : ℕ) :
    ln[ln.length - d.length + m]? = d[m]? := by
  conv_rhs => rw [List.suffix_iff_eq_drop.mp hd]
  rw [List.getElem?_drop]

/-- Where `lex` starts on a suffix `s` of the line: at the line's start, or with no word byte just
before or at it. -/
def AtBoundary (ln s : List Char) : Prop :=
  s.length = ln.length ∨ wordByteAt ln (ln.length - s.length - 1) = false ∨
    wordByteAt ln (ln.length - s.length) = false

lemma wordByteAt_of_getElem? {ln : List Char} {k : ℕ} {c : Char} (h : ln[k]? = some c)
    (hc : isWordChar c = false) : wordByteAt ln k = false := by
  simp [wordByteAt, h, hc]

lemma wordRun_head {ln s t : List Char} {c : Char} (hs : s <:+ ln) (hb : AtBoundary ln s)
    (h : s.dropWhile isWhitespace = c :: t) (hc : isSymbol c = false) :
    WordRun ln (ln.length - (c :: t).length) (ln.length - (t.dropWhile isWordChar).length) := by
  have hd : c :: t <:+ ln := h ▸ (List.dropWhile_suffix isWhitespace).trans hs
  have hw : isWordChar c = true := isWordChar_of_head h hc
  have hlen := hd.length_le
  have hsline := hs.length_le
  have hr := List.length_dropWhile_le isWordChar t
  have hst : (c :: t).length ≤ s.length := h ▸ List.length_dropWhile_le isWhitespace s
  simp only [List.length_cons] at hlen hst ⊢
  refine ⟨by omega, by omega, fun k hk hk' => ?_, ?_, ?_⟩
  · -- the word's bytes: `c`, then what `dropWhile isWordChar` skips of `t`
    have hk₀ := getElem?_of_suffix hd (k - (ln.length - (t.length + 1)))
    rw [show ln.length - (c :: t).length + (k - (ln.length - (t.length + 1))) = k by
      simp only [List.length_cons]; omega] at hk₀
    rw [wordByteAt, hk₀]
    cases hm : k - (ln.length - (t.length + 1)) with
    | zero => simpa using hw
    | succ j =>
      simpa using any_getElem?_of_lt_dropWhile isWordChar t j (by omega)
  · -- the byte after it starts the rest of `t`, where `dropWhile` stopped
    have he := getElem?_of_suffix (((List.dropWhile_suffix isWordChar).trans (List.suffix_cons c t)).trans hd) 0
    rw [Nat.add_zero] at he
    rw [wordByteAt, he]
    cases hrt : t.dropWhile isWordChar with
    | nil => simp
    | cons x r =>
      have hx := List.head_dropWhile_not isWordChar (by simp [hrt] : t.dropWhile isWordChar ≠ [])
      simp only [hrt, List.head_cons] at hx
      simp [hx]
  · -- the byte before it is whitespace that `peek` skipped, or where the suffix starts
    by_cases hdrop : (c :: t).length < s.length
    · right
      have hj := any_getElem?_of_lt_dropWhile isWhitespace s (s.length - (c :: t).length - 1)
        (by rw [h]; omega)
      have hk₀ := getElem?_of_suffix hs (s.length - (c :: t).length - 1)
      simp only [List.length_cons] at hk₀ hdrop hj
      rw [show ln.length - s.length + (s.length - (t.length + 1) - 1) = ln.length - (t.length + 1) - 1 by
        omega] at hk₀
      cases hx : s[s.length - (t.length + 1) - 1]? with
      | none => simp [hx] at hj
      | some x =>
        rw [hx] at hk₀ hj
        apply wordByteAt_of_getElem? hk₀
        simp only [Option.any_some] at hj
        simp [isWordChar, hj]
    · have hsl : s.length = t.length + 1 := by simp only [List.length_cons] at hdrop; omega
      rcases hb with hb | hb | hb
      · left; omega
      · right; rwa [hsl] at hb
      · exfalso
        have hk₀ := getElem?_of_suffix hd 0
        rw [Nat.add_zero, List.length_cons, ← hsl] at hk₀
        simp [wordByteAt, hk₀, hw] at hb

lemma atBoundary_of_cons {ln u : List Char} {x : Char} (hx : x :: u <:+ ln) (hw : isWordChar x = false) :
    AtBoundary ln u := by
  right; left
  have hk := getElem?_of_suffix hx 0
  have hlen := hx.length_le
  simp only [List.length_cons, Nat.add_zero] at hk hlen
  rw [show ln.length - u.length - 1 = ln.length - (u.length + 1) by omega]
  exact wordByteAt_of_getElem? hk hw

/-- Every word `lex` reads from a suffix of the line that starts at a boundary is a maximal run of
word bytes of the line. -/
theorem lex_wordRun (ln : List Char) (s : List Char) (hs : s <:+ ln) (hb : AtBoundary ln s) :
    ∀ q eq, Tok.word q eq ∈ lex ln.length s → WordRun ln q eq := by
  induction s using lex.induct with
  | case1 s h => simp [lex_of_nil h]
  | case2 s t h ih =>
    have hd : '>' :: '>' :: t <:+ ln := h ▸ (List.dropWhile_suffix isWhitespace).trans hs
    rw [lex_of_append h]
    intro q eq hm
    simp only [List.mem_cons, reduceCtorEq, false_or] at hm
    have ht : '>' :: t <:+ ln := (List.suffix_cons _ _).trans hd
    exact ih ((List.suffix_cons _ _).trans ht) (atBoundary_of_cons ht rfl) q eq hm
  | case3 s d t hg h hd ih =>
    have hdt : d :: t <:+ ln := h ▸ (List.dropWhile_suffix isWhitespace).trans hs
    have hdw : isWordChar d = false := by simp [isWordChar, hd]
    rw [lex_of_sym h hd (not_append_of hg)]
    intro q eq hm
    simp only [List.mem_cons, reduceCtorEq, false_or] at hm
    exact ih ((List.suffix_cons _ _).trans hdt) (atBoundary_of_cons hdt hdw) q eq hm
  | case4 s d t hg h hd ih =>
    have hdt : d :: t <:+ ln := h ▸ (List.dropWhile_suffix isWhitespace).trans hs
    have hrun := wordRun_head hs hb h (by simpa using hd)
    rw [lex_of_word h (by simpa using hd)]
    intro q eq hm
    rcases List.mem_cons.mp hm with hm | hm
    · obtain ⟨rfl, rfl⟩ := Tok.word.inj hm
      exact hrun
    · -- the next token starts where the word stopped, at a byte that is not a word byte
      have hr : t.dropWhile isWordChar <:+ ln :=
        ((List.dropWhile_suffix isWordChar).trans (List.suffix_cons d t)).trans hdt
      exact ih hr (Or.inr (Or.inr hrun.after)) q eq hm

end

/-! ### `nulterminate` leaves every word readable -/

/-- The words of a command, in `argv` and as file names. -/
def Cmd.words {α : Type} : Cmd α → List α
  | .exec argv => argv
  | .redir c file _ _ => c.words ++ [file]
  | .pipe l r => l.words ++ r.words
  | .list l r => l.words ++ r.words
  | .back c => c.words

lemma Cmd.map_congr {α β : Type} {f g : α → β} :
    ∀ c : Cmd α, (∀ w ∈ c.words, f w = g w) → c.map f = c.map g
  | .exec argv, h => by simpa [Cmd.map, Cmd.words] using List.map_congr_left h
  | .redir c file _ _, h => by
    simp only [Cmd.words, List.mem_append, List.mem_singleton] at h
    simp [Cmd.map, Cmd.map_congr c fun w hw => h w (.inl hw), h file (.inr rfl)]
  | .pipe l r, h => by
    simp only [Cmd.words, List.mem_append] at h
    simp [Cmd.map, Cmd.map_congr l fun w hw => h w (.inl hw), Cmd.map_congr r fun w hw => h w (.inr hw)]
  | .list l r, h => by
    simp only [Cmd.words, List.mem_append] at h
    simp [Cmd.map, Cmd.map_congr l fun w hw => h w (.inl hw), Cmd.map_congr r fun w hw => h w (.inr hw)]
  | .back c, h => by simp [Cmd.map, Cmd.map_congr c fun w hw => h w hw]

lemma foldl_set_getElem? (buf : List Char) (k : ℕ) : ∀ argv : List (ℕ × ℕ),
    (argv.foldl (fun buf w => buf.set w.2 '\x00') buf)[k]? =
      if k ∈ argv.map Prod.snd then buf[k]?.map (Function.const Char '\x00') else buf[k]? := by
  intro argv
  induction argv generalizing buf with
  | nil => simp
  | cons w ws ih =>
    rw [List.foldl_cons, ih, List.getElem?_set']
    rcases eq_or_ne w.2 k with rfl | hw
    · by_cases hc : w.2 ∈ ws.map Prod.snd <;> simp [hc]
    · have hw' : k ≠ w.2 := hw.symm
      by_cases hc : k ∈ ws.map Prod.snd <;> simp [hw, hw', hc]

/-- `nulterminate` writes a NUL at the end of every word of the command, inside the line. -/
theorem nulterminate_getElem? (k : ℕ) : ∀ (c : Cmd (ℕ × ℕ)) (buf : List Char),
    (nulterminate c buf)[k]? = if k ∈ c.words.map Prod.snd then buf[k]?.map (Function.const Char '\x00') else buf[k]?
  | .exec argv, buf => by rw [nulterminate, foldl_set_getElem?, Cmd.words]
  | .redir c file _ _, buf => by
    rw [nulterminate, List.getElem?_set', nulterminate_getElem? k c, Cmd.words]
    rcases eq_or_ne file.2 k with rfl | hf
    · by_cases hc : file.2 ∈ c.words.map Prod.snd <;> simp [hc]
    · have hf' : k ≠ file.2 := hf.symm
      by_cases hc : k ∈ c.words.map Prod.snd <;> simp [hf, hf', hc]
  | .pipe l r, buf => by
    rw [nulterminate, nulterminate_getElem? k r, nulterminate_getElem? k l, Cmd.words]
    by_cases hl : k ∈ l.words.map Prod.snd <;> by_cases hr : k ∈ r.words.map Prod.snd <;> simp [hl, hr]
  | .list l r, buf => by
    rw [nulterminate, nulterminate_getElem? k r, nulterminate_getElem? k l, Cmd.words]
    by_cases hl : k ∈ l.words.map Prod.snd <;> by_cases hr : k ∈ r.words.map Prod.snd <;> simp [hl, hr]
  | .back c, buf => by rw [nulterminate, nulterminate_getElem? k c, Cmd.words]

lemma cstrAt_of_getElem? (buf : List Char) : ∀ (w : List Char) (q : ℕ), '\x00' ∉ w →
    (∀ m < w.length, buf[q + m]? = w[m]?) →
    (buf[q + w.length]? = none ∨ buf[q + w.length]? = some '\x00') → cstrAt buf q = w
  | [], q, _, _, hend => by
    rw [List.length_nil, Nat.add_zero] at hend
    rcases hend with hend | hend
    · simp [cstrAt, List.drop_eq_nil_of_le (List.getElem?_eq_none_iff.mp hend)]
    · obtain ⟨hq, -⟩ := List.getElem?_eq_some_iff.mp hend
      rw [cstrAt, List.drop_eq_getElem_cons hq]
      simp [(List.getElem?_eq_some_iff.mp hend).2]
  | x :: w, q, hnul, hw, hend => by
    have hx : buf[q]? = some x := by simpa using hw 0 (by simp)
    obtain ⟨hq, hqx⟩ := List.getElem?_eq_some_iff.mp hx
    have hx0 : x ≠ '\x00' := fun h => hnul (h ▸ List.mem_cons_self)
    have ih := cstrAt_of_getElem? buf w (q + 1) (fun h => hnul (List.mem_cons_of_mem x h))
      (fun m hm => by simpa [Nat.add_assoc, Nat.add_comm 1 m] using hw (m + 1) (by simp; omega))
      (by simpa [Nat.add_assoc, Nat.add_comm 1 w.length] using hend)
    rw [cstrAt, List.drop_eq_getElem_cons hq, hqx, List.takeWhile_cons_of_pos (by simpa using hx0)]
    rw [cstrAt] at ih
    rw [ih]

/-- After `nulterminate`, every word of the command reads as its text in the line. -/
theorem cstrAt_nulterminate (ln : List Char) (c : Cmd (ℕ × ℕ)) (hnul : '\x00' ∉ ln)
    (hw : ∀ w ∈ c.words, WordRun ln w.1 w.2) :
    c.map (fun w => cstrAt (nulterminate c ln) w.1) = c.map (fun w => (ln.drop w.1).take (w.2 - w.1)) := by
  apply Cmd.map_congr
  intro w hwm
  have hrun := hw w hwm
  -- no word ends inside another: a word ends where the line has no word byte
  have hends : ∀ k, wordByteAt ln k = true → k ∉ c.words.map Prod.snd := by
    intro k hk hm
    obtain ⟨w', hw', rfl⟩ := List.mem_map.mp hm
    rw [(hw w' hw').after] at hk
    exact Bool.false_ne_true hk
  apply cstrAt_of_getElem?
  · exact fun h => hnul (List.mem_of_mem_drop (List.mem_of_mem_take h))
  · intro m hm
    simp only [List.length_take, List.length_drop] at hm
    have hin := hrun.inside (w.1 + m) (by omega) (by omega)
    rw [nulterminate_getElem?, if_neg (hends _ hin)]
    simp [hm]
  · have hlen : ((ln.drop w.1).take (w.2 - w.1)).length = w.2 - w.1 := by
      simp only [List.length_take, List.length_drop]
      have := hrun.le
      omega
    rw [hlen, show w.1 + (w.2 - w.1) = w.2 by have := hrun.lt; omega, nulterminate_getElem?,
      if_pos (List.mem_map_of_mem hwm)]
    cases ln[w.2]? <;> simp

end Xv6Net.User.Sh
