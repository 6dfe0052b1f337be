import Xv6Net.Lib.Except
import Xv6Net.User.ShLex

/-! The grammar of `sh.c`'s command lines over the tokens of `lex`, the command each derivation
stands for, and the proof that `parsecmd` returns exactly on the lines the grammar derives, with the
command of that derivation. Soundness goes by induction on the fuel, one step lemma a parse
function; completeness by induction on the derivation, with the fuel bounded by four rounds a
token; a third induction shows that fuel never runs out. -/

namespace Xv6Net.User.Sh

open Xv6Net.Lib.Except

/-- The redirections `<`, `>` and `>>`. -/
inductive RKind where
  | input
  | output
  | append
  deriving DecidableEq, Repr

/-- The token of a redirection, `'+'` for `>>`. -/
def RKind.tok : RKind → Char
  | .input => '<'
  | .output => '>'
  | .append => '+'

structure Redir where
  kind : RKind
  file : ℕ × ℕ
  deriving DecidableEq, Repr

/-- The `redircmd` that `parseredirs` puts around `cmd`. -/
def Redir.wrap (cmd : Cmd (ℕ × ℕ)) (r : Redir) : Cmd (ℕ × ℕ) :=
  match r.kind with
  | .input => .redir cmd r.file O_RDONLY 0
  | .output => .redir cmd r.file (O_WRONLY ||| O_CREATE) 1
  | .append => .redir cmd r.file (O_WRONLY ||| O_CREATE) 1

/-- `k` `backcmd`s around a command. -/
def Cmd.backs {α : Type} : ℕ → Cmd α → Cmd α
  | 0, c => c
  | k + 1, c => Cmd.backs k (.back c)

/-- A command under redirections, the later ones outermost. -/
def wrap (cmd : Cmd (ℕ × ℕ)) (rs : List Redir) : Cmd (ℕ × ℕ) := rs.foldl Redir.wrap cmd

def redirToks (rs : List Redir) : List Tok := rs.flatMap fun r => [.sym r.kind.tok, .word r.file.1 r.file.2]

@[simp] lemma redirToks_nil : redirToks [] = [] := rfl

@[simp] lemma redirToks_cons (r : Redir) (rs : List Redir) :
    redirToks (r :: rs) = .sym r.kind.tok :: .word r.file.1 r.file.2 :: redirToks rs := rfl

@[simp] lemma length_redirToks (rs : List Redir) : (redirToks rs).length = 2 * rs.length := by
  induction rs with
  | nil => rfl
  | cons r rs ih => simp [ih]; omega

/-- The words of a simple command, each with the redirections after it. -/
def groupToks (groups : List ((ℕ × ℕ) × List Redir)) : List Tok :=
  groups.flatMap fun g => .word g.1.1 g.1.2 :: redirToks g.2

/-- The nonterminals `line`, `pipe` and `exec`. -/
inductive NT where
  | line
  | pipe
  | exec
  deriving DecidableEq, Repr

/-- The symbols that may follow each nonterminal, as the parser peeks at them. -/
def follows : NT → List Char
  | .line => [')']
  | .pipe => [')', '&', ';']
  | .exec => ['|', ')', '&', ';']

/-- The tokens after a nonterminal: none, or one of its followers first. -/
def Follow (x : NT) (rest : List Tok) : Prop := rest = [] ∨ peeks (follows x) rest = true

variable {n : ℕ} {s : List Char}

lemma wrap_cons (cmd : Cmd (ℕ × ℕ)) (r : Redir) (rs : List Redir) : wrap cmd (r :: rs) = wrap (r.wrap cmd) rs :=
  rfl

lemma wrap_append (cmd : Cmd (ℕ × ℕ)) (rs rs' : List Redir) : wrap cmd (rs ++ rs') = wrap (wrap cmd rs) rs' :=
  List.foldl_append

lemma setArgv_wrap (argv : List (ℕ × ℕ)) : ∀ (rs : List Redir) (cmd : Cmd (ℕ × ℕ)),
    (wrap cmd rs).setArgv argv = wrap (cmd.setArgv argv) rs
  | [], _ => rfl
  | r :: rs, cmd => by
    rw [wrap_cons, wrap_cons, setArgv_wrap argv rs]
    rcases r with ⟨_ | _ | _, file⟩ <;> rfl

/-! ### Reading one token -/

lemma gettoken_cons {tok : Tok} {ts : List Tok} {x : Char} {q eq : ℕ} {s' : List Char}
    (h : lex n s = tok :: ts) (hg : gettoken n s = (x, q, eq, s')) : x = tok.kind ∧ lex n s' = ts := by
  obtain ⟨h₁, h₂, -⟩ := gettoken_spec n s
  rw [hg] at h₁ h₂
  exact ⟨by simpa [h] using h₁, by simpa [h] using h₂⟩

lemma gettoken_word {q eq : ℕ} {s' : List Char} (hg : gettoken n s = ('a', q, eq, s')) :
    lex n s = .word q eq :: lex n s' := by
  obtain ⟨h₁, h₂, h₃⟩ := gettoken_spec n s
  rw [hg] at h₁ h₂ h₃
  rcases hl : lex n s with _ | ⟨tok, ts⟩
  · simp [hl] at h₁
  · rcases tok with ⟨q', eq'⟩ | c
    · obtain ⟨rfl, rfl⟩ := h₃ q' eq' (by simp [hl])
      simp [h₂, hl]
    · have hc := lex_sym_mem (n := n) (c := c) s (by simp [hl])
      simp only [hl, List.head?_cons, Option.map_some, Option.getD_some, Tok.kind] at h₁
      subst h₁
      simp [symbols] at hc

lemma gettoken_nul {q eq : ℕ} {s' : List Char} (hg : gettoken n s = ('\x00', q, eq, s')) :
    lex n s = [] ∧ lex n s' = [] := by
  obtain ⟨h₁, h₂, -⟩ := gettoken_spec n s
  rw [hg] at h₁ h₂
  rcases hl : lex n s with _ | ⟨tok, ts⟩
  · simp [hl] at h₂
    exact ⟨rfl, h₂⟩
  · rcases tok with ⟨q', eq'⟩ | c
    · simp [hl, Tok.kind] at h₁
    · have hc := lex_sym_mem (n := n) (c := c) s (by simp [hl])
      simp only [hl, List.head?_cons, Option.map_some, Option.getD_some, Tok.kind] at h₁
      subst h₁
      simp [symbols] at hc

lemma gettoken_of_lex_nil {x : Char} {q eq : ℕ} {s' : List Char} (h : lex n s = [])
    (hg : gettoken n s = (x, q, eq, s')) : x = '\x00' ∧ lex n s' = [] := by
  obtain ⟨h₁, h₂, -⟩ := gettoken_spec n s
  rw [hg] at h₁ h₂
  exact ⟨by simpa [h] using h₁, by simpa [h] using h₂⟩

lemma peek_eq (toks : List Char) (ht : toks.all isSymbol = true) :
    peek s toks = (s.dropWhile isWhitespace, peeks toks (lex n s)) :=
  Prod.ext (peek_spec (n := n) toks ht).1 (peek_spec (n := n) toks ht).2

lemma lex_gettoken (s : List Char) : lex n (gettoken n s).2.2.2 = (lex n s).tail :=
  (gettoken_spec n s).2.1

lemma peeks_cons {toks : List Char} {ts : List Tok} (h : peeks toks ts = true) :
    ∃ c rest, ts = .sym c :: rest ∧ (if c = '+' then '>' else c) ∈ toks := by
  match ts, h with
  | .sym c :: rest, h => exact ⟨c, rest, rfl, by simpa [peeks] using h⟩

lemma rkind_of_peeks {x : Char} (h : (if x = '+' then '>' else x) ∈ ['<', '>']) : ∃ k : RKind, k.tok = x := by
  by_cases hx : x = '+'
  · exact ⟨.append, hx.symm⟩
  · rw [if_neg hx] at h
    rcases List.mem_cons.mp h with rfl | h
    · exact ⟨.input, rfl⟩
    · rw [List.mem_singleton] at h
      exact ⟨.output, h.symm⟩

/-! ### The loops -/

lemma parseredirs_sound : ∀ (fuel : ℕ) (cmd : Cmd (ℕ × ℕ)) (s : List Char) (c : Cmd (ℕ × ℕ)) (s' : List Char),
    parseredirs n cmd fuel s = .ok (c, s') → ∃ rs, lex n s = redirToks rs ++ lex n s' ∧ c = wrap cmd rs
  | 0, _, _, _, _, h => by cases h
  | fuel + 1, cmd, s, c, s', h => by
    rw [parseredirs, peek_eq (n := n) ['<', '>'] (by decide)] at h
    dsimp only at h
    cases hmore : peeks ['<', '>'] (lex n s) with
    | false =>
      rw [hmore] at h
      obtain ⟨rfl, rfl⟩ : cmd = c ∧ s.dropWhile isWhitespace = s' := by simpa using h
      exact ⟨[], by simp [lex_dropWhile, redirToks], rfl⟩
    | true =>
      rw [hmore] at h
      -- a redirection symbol, then the file's word
      obtain ⟨x, ts, hl, hx⟩ := peeks_cons hmore
      obtain ⟨k, rfl⟩ := rkind_of_peeks hx
      rw [← lex_dropWhile] at hl
      generalize hg₁ : gettoken n (s.dropWhile isWhitespace) = g₁ at h
      obtain ⟨tok, q₀, e₀, s₂⟩ := g₁
      obtain ⟨rfl, hts⟩ := gettoken_cons hl hg₁
      generalize hg₂ : gettoken n s₂ = g₂ at h
      obtain ⟨t, q, eq, s₃⟩ := g₂
      dsimp only at h
      simp only [Bool.not_true, Bool.false_eq_true, if_false] at h
      split_ifs at h with ht
      rw [not_not] at ht
      subst ht
      obtain ⟨rs, hrs, rfl⟩ := parseredirs_sound fuel _ _ c s' h
      refine ⟨⟨k, (q, eq)⟩ :: rs, ?_, ?_⟩
      · rw [← lex_dropWhile, hl, ← hts, gettoken_word hg₂, hrs]
        simp
      · rw [wrap_cons]
        congr 1
        cases k <;> rfl

lemma parseredirs_complete : ∀ (rs : List Redir) (fuel : ℕ) (cmd : Cmd (ℕ × ℕ)) (s : List Char) (rest : List Tok),
    lex n s = redirToks rs ++ rest → peeks ['<', '>'] rest = false → rs.length < fuel →
    ∃ s', parseredirs n cmd fuel s = .ok (wrap cmd rs, s') ∧ lex n s' = rest
  | _, 0, _, _, _, _, _, hf => absurd hf (Nat.not_lt_zero _)
  | [], fuel + 1, cmd, s, rest, hl, hp, _ => by
    rw [parseredirs, peek_eq (n := n) ['<', '>'] (by decide), hl, redirToks_nil, List.nil_append, hp]
    refine ⟨s.dropWhile isWhitespace, rfl, ?_⟩
    rw [lex_dropWhile, hl]
    rfl
  | r :: rs, fuel + 1, cmd, s, rest, hl, hp, hf => by
    have hmore : peeks ['<', '>'] (lex n s) = true := by
      rw [hl]
      rcases r with ⟨_ | _ | _, file⟩ <;> rfl
    rw [parseredirs, peek_eq (n := n) ['<', '>'] (by decide), hmore]
    dsimp only
    -- the symbol, then the file's word
    have hl₁ : lex n (s.dropWhile isWhitespace) = .sym r.kind.tok :: .word r.file.1 r.file.2 :: (redirToks rs ++ rest) := by
      rw [lex_dropWhile, hl, redirToks_cons]
      rfl
    generalize hg₁ : gettoken n (s.dropWhile isWhitespace) = g₁
    obtain ⟨tok, q₀, e₀, s₂⟩ := g₁
    obtain ⟨rfl, hl₂⟩ := gettoken_cons hl₁ hg₁
    generalize hg₂ : gettoken n s₂ = g₂
    obtain ⟨t, q, eq, s₃⟩ := g₂
    obtain ⟨rfl, hl₃⟩ := gettoken_cons hl₂ hg₂
    have hw := gettoken_word hg₂
    rw [hl₂, hl₃, List.cons.injEq, Tok.word.injEq] at hw
    obtain ⟨⟨rfl, rfl⟩, -⟩ := hw
    dsimp only
    simp only [Bool.not_true, Bool.false_eq_true, if_false, Tok.kind, ne_eq, not_true_eq_false]
    obtain ⟨s', hs', hl'⟩ := parseredirs_complete rs fuel (r.wrap cmd) s₃ rest hl₃ hp (by simp at hf; omega)
    refine ⟨s', ?_, hl'⟩
    rw [wrap_cons, ← hs']
    congr 1
    rcases r with ⟨_ | _ | _, file⟩ <;> rfl

lemma peeks_of_disjoint {toks toks' : List Char} {rest : List Tok} (h : peeks toks rest = true)
    (hd : toks'.any toks.contains = false) : peeks toks' rest = false := by
  obtain ⟨c, r, rfl, hc⟩ := peeks_cons h
  simp only [peeks, Bool.eq_false_iff]
  intro hc'
  have := List.any_eq_false.mp hd _ (List.contains_iff_mem.mp hc')
  simp [hc] at this

lemma peeks_of_follow {x : NT} {toks : List Char} {rest : List Tok} (h : Follow x rest)
    (hd : toks.any (follows x).contains = false) : peeks toks rest = false := by
  rcases h with rfl | h
  · rfl
  · exact peeks_of_disjoint h hd

lemma execLoop_sound : ∀ (fuel : ℕ) (a : List (ℕ × ℕ)) (rs : List Redir) (argv : List (ℕ × ℕ))
    (s : List Char) (c : Cmd (ℕ × ℕ)) (s' : List Char), argv.length < MAXARGS →
    execLoop n fuel (wrap (.exec a) rs) argv s = .ok (c, s') →
    ∃ groups, lex n s = groupToks groups ++ lex n s' ∧ (argv ++ groups.map Prod.fst).length < MAXARGS ∧
      c = wrap (.exec (argv ++ groups.map Prod.fst)) (rs ++ groups.flatMap Prod.snd)
  | 0, _, _, _, _, _, _, _, h => by cases h
  | fuel + 1, a, rs, argv, s, c, s', hargv, h => by
    rw [execLoop, peek_eq (n := n) ['|', ')', '&', ';'] (by decide)] at h
    dsimp only at h
    have hstopped : ∀ s₂, (Except.ok ((wrap (.exec a) rs).setArgv argv, s₂) : Except String _) = .ok (c, s') →
        lex n s = lex n s₂ → ∃ groups, lex n s = groupToks groups ++ lex n s' ∧
          (argv ++ groups.map Prod.fst).length < MAXARGS ∧
          c = wrap (.exec (argv ++ groups.map Prod.fst)) (rs ++ groups.flatMap Prod.snd) := by
      intro s₂ h hl
      obtain ⟨rfl, rfl⟩ := Except.ok.inj h |> Prod.mk.inj
      exact ⟨[], by simpa [groupToks] using hl, by simpa using hargv, by simp [setArgv_wrap, Cmd.setArgv]⟩
    cases hstop : peeks ['|', ')', '&', ';'] (lex n s) with
    | true =>
      rw [hstop] at h
      exact hstopped _ (by simpa using h) lex_dropWhile.symm
    | false =>
      rw [hstop] at h
      generalize hg : gettoken n (s.dropWhile isWhitespace) = g at h
      obtain ⟨tok, q, eq, s₂⟩ := g
      dsimp only at h
      simp only [Bool.false_eq_true, if_false] at h
      split_ifs at h with h0 ha hmax
      · -- the end of the line
        subst h0
        obtain ⟨hnil, hnil'⟩ := gettoken_nul hg
        exact hstopped _ h (by rw [← lex_dropWhile, hnil, hnil'])
      · rw [not_not] at ha
        subst ha
        obtain ⟨⟨ret, s₃⟩, hr, h⟩ := bind_ok h
        obtain ⟨rs', hrs', rfl⟩ := parseredirs_sound fuel _ _ _ _ hr
        rw [← wrap_append] at h
        obtain ⟨groups, hg', hlen, rfl⟩ := execLoop_sound fuel a (rs ++ rs') _ s₃ c s' (by omega) h
        refine ⟨((q, eq), rs') :: groups, ?_, by simpa using hlen, by simp⟩
        rw [← lex_dropWhile, gettoken_word hg, hrs', hg']
        simp [groupToks]

lemma execLoop_complete : ∀ (groups : List ((ℕ × ℕ) × List Redir)) (fuel : ℕ) (a : List (ℕ × ℕ))
    (rs : List Redir) (argv : List (ℕ × ℕ)) (s : List Char) (rest : List Tok),
    lex n s = groupToks groups ++ rest → Follow .exec rest → (argv ++ groups.map Prod.fst).length < MAXARGS →
    (lex n s).length < fuel →
    ∃ s', execLoop n fuel (wrap (.exec a) rs) argv s =
      .ok (wrap (.exec (argv ++ groups.map Prod.fst)) (rs ++ groups.flatMap Prod.snd), s') ∧ lex n s' = rest
  | _, 0, _, _, _, _, _, _, _, _, hf => absurd hf (Nat.not_lt_zero _)
  | [], fuel + 1, a, rs, argv, s, rest, hl, hfol, _, _ => by
    have hstop : (wrap (.exec a) rs).setArgv argv = wrap (.exec argv) rs := by
      simp [setArgv_wrap, Cmd.setArgv]
    simp only [groupToks, List.flatMap_nil, List.nil_append] at hl
    rw [execLoop, peek_eq (n := n) ['|', ')', '&', ';'] (by decide), hl]
    dsimp only
    rcases hfol with rfl | hfol
    · -- the end of the line: `gettoken` reads `'\x00'`
      generalize hg : gettoken n (s.dropWhile isWhitespace) = g
      obtain ⟨tok, q, eq, s₂⟩ := g
      obtain ⟨rfl, hl₂⟩ := gettoken_of_lex_nil (by rw [lex_dropWhile, hl]) hg
      exact ⟨s₂, by simp [peeks, hstop], hl₂⟩
    · have hfol' : peeks ['|', ')', '&', ';'] rest = true := hfol
      exact ⟨s.dropWhile isWhitespace, by rw [hfol', if_pos rfl]; simp [hstop], by rw [lex_dropWhile, hl]⟩
  | ((q, eq), rs') :: groups, fuel + 1, a, rs, argv, s, rest, hl, hfol, hmax, hfuel => by
    have hl₁ : lex n (s.dropWhile isWhitespace) = .word q eq :: (redirToks rs' ++ (groupToks groups ++ rest)) := by
      rw [lex_dropWhile, hl]
      simp [groupToks]
    rw [execLoop, peek_eq (n := n) ['|', ')', '&', ';'] (by decide), ← lex_dropWhile, hl₁,
      show peeks ['|', ')', '&', ';'] (.word q eq :: _) = false from rfl]
    dsimp only
    generalize hg : gettoken n (s.dropWhile isWhitespace) = g
    obtain ⟨tok, q', eq', s₂⟩ := g
    obtain ⟨rfl, hl₂⟩ := gettoken_cons hl₁ hg
    have hw := gettoken_word hg
    rw [hl₁, hl₂, List.cons.injEq, Tok.word.injEq] at hw
    obtain ⟨⟨rfl, rfl⟩, -⟩ := hw
    have hmax' : ¬MAXARGS ≤ (argv ++ [(q, eq)]).length := by
      simp only [List.map_cons, List.length_append, List.length_cons, List.length_nil, List.length_map] at hmax ⊢
      omega
    have hfuel' : (lex n s₂).length < fuel := by
      rw [← lex_dropWhile, hl₁] at hfuel
      rw [hl₂]
      simp only [List.length_cons] at hfuel
      omega
    -- the redirections after the word stop at the next word or at a follower of `exec`
    have hnext : peeks ['<', '>'] (groupToks groups ++ rest) = false := by
      cases groups with
      | nil => exact peeks_of_follow hfol (by decide)
      | cons g groups => rfl
    obtain ⟨s₃, hr, hl₃⟩ := parseredirs_complete rs' fuel (wrap (.exec a) rs) s₂ _ hl₂ hnext
      (by rw [hl₂] at hfuel'; simp at hfuel'; omega)
    simp only [Tok.kind, show ('a' : Char) ≠ '\x00' by decide, if_false, ne_eq, not_true_eq_false, hmax', hr,
      ok_bind]
    rw [← wrap_append]
    obtain ⟨s', he, hl'⟩ := execLoop_complete groups fuel a (rs ++ rs') (argv ++ [(q, eq)]) s₃ rest hl₃ hfol
      (by simpa using hmax) (by rw [hl₃]; rw [hl₂] at hfuel'; simp at hfuel' ⊢; omega)
    exact ⟨s', by rw [he]; simp, hl'⟩

lemma backLoop_sound : ∀ (fuel : ℕ) (cmd : Cmd (ℕ × ℕ)) (s : List Char) (c : Cmd (ℕ × ℕ)) (s' : List Char),
    backLoop n fuel cmd s = .ok (c, s') → ∃ k, lex n s = List.replicate k (.sym '&') ++ lex n s' ∧ c = Cmd.backs k cmd
  | 0, _, _, _, _, h => by cases h
  | fuel + 1, cmd, s, c, s', h => by
    rw [backLoop, peek_eq (n := n) ['&'] (by decide)] at h
    dsimp only at h
    cases hamp : peeks ['&'] (lex n s) with
    | false =>
      rw [hamp] at h
      obtain ⟨rfl, rfl⟩ : cmd = c ∧ s.dropWhile isWhitespace = s' := by simpa using h
      exact ⟨0, by simp [lex_dropWhile], rfl⟩
    | true =>
      obtain ⟨x, ts, hl, hx⟩ := peeks_cons hamp
      obtain rfl : x = '&' := by
        by_cases hplus : x = '+'
        · simp [hplus] at hx
        · simpa [hplus] using hx
      rw [hamp, if_pos rfl] at h
      have htail := lex_gettoken (n := n) (s.dropWhile isWhitespace)
      rw [lex_dropWhile, hl, List.tail_cons] at htail
      obtain ⟨k, hk, rfl⟩ := backLoop_sound fuel _ _ c s' h
      refine ⟨k + 1, ?_, rfl⟩
      rw [hl, ← htail, hk]
      simp [List.replicate_succ]

lemma backLoop_complete : ∀ (k fuel : ℕ) (cmd : Cmd (ℕ × ℕ)) (s : List Char) (rest : List Tok),
    lex n s = List.replicate k (.sym '&') ++ rest → peeks ['&'] rest = false → k < fuel →
    ∃ s', backLoop n fuel cmd s = .ok (Cmd.backs k cmd, s') ∧ lex n s' = rest
  | _, 0, _, _, _, _, _, hf => absurd hf (Nat.not_lt_zero _)
  | 0, fuel + 1, cmd, s, rest, hl, hp, _ => by
    rw [backLoop, peek_eq (n := n) ['&'] (by decide), hl, List.replicate_zero, List.nil_append, hp]
    exact ⟨s.dropWhile isWhitespace, rfl, by rw [lex_dropWhile, hl]; rfl⟩
  | k + 1, fuel + 1, cmd, s, rest, hl, hp, hf => by
    rw [backLoop, peek_eq (n := n) ['&'] (by decide), hl, List.replicate_succ, List.cons_append,
      show peeks ['&'] (.sym '&' :: _) = true from rfl]
    dsimp only
    rw [if_pos rfl]
    have htail := lex_gettoken (n := n) (s.dropWhile isWhitespace)
    rw [lex_dropWhile, hl, List.replicate_succ, List.cons_append, List.tail_cons] at htail
    obtain ⟨s', h, hl'⟩ := backLoop_complete k fuel (.back cmd) _ rest htail hp (by omega)
    exact ⟨s', h, hl'⟩

/-! ### The grammar -/

/-- A derivation. `simple pre groups` is `redirs (WORD redirs)*`, with the first `redirs` in `pre`
and each word with the redirections after it in `groups`; `block` is `( line ) redirs`; `line p k`
is a pipe and `k` ampersands, and `list p k l` goes on with `; l`. -/
inductive Syn where
  | simple (pre : List Redir) (groups : List ((ℕ × ℕ) × List Redir))
  | block (line : Syn) (redirs : List Redir)
  | pipe (left right : Syn)
  | line (pipe : Syn) (amps : ℕ)
  | list (pipe : Syn) (amps : ℕ) (next : Syn)
  deriving DecidableEq, Repr

/-- `line ::= pipe '&'* (';' line)?`, `pipe ::= exec ('|' pipe)?` and
`exec ::= '(' line ')' redirs | redirs (WORD redirs)*`, with fewer than `MAXARGS` words. -/
inductive Gram : NT → Syn → Prop
  | simple {pre groups} : groups.length < MAXARGS → Gram .exec (.simple pre groups)
  | block {l rs} : Gram .line l → Gram .exec (.block l rs)
  | exec {e} : Gram .exec e → Gram .pipe e
  | pipe {e p} : Gram .exec e → Gram .pipe p → Gram .pipe (.pipe e p)
  | line {p k} : Gram .pipe p → Gram .line (.line p k)
  | list {p k l} : Gram .pipe p → Gram .line l → Gram .line (.list p k l)

/-- The tokens a derivation derives. -/
def Syn.flatten : Syn → List Tok
  | .simple pre groups => redirToks pre ++ groupToks groups
  | .block l rs => .sym '(' :: l.flatten ++ .sym ')' :: redirToks rs
  | .pipe e p => e.flatten ++ .sym '|' :: p.flatten
  | .line p k => p.flatten ++ List.replicate k (.sym '&')
  | .list p k l => p.flatten ++ List.replicate k (.sym '&') ++ .sym ';' :: l.flatten

/-- The command a derivation stands for: `;` right-nested, `&` postfix, `|` right-nested, later
redirections outermost. -/
def Syn.toCmd : Syn → Cmd (ℕ × ℕ)
  | .simple pre groups => wrap (.exec (groups.map Prod.fst)) (pre ++ groups.flatMap Prod.snd)
  | .block l rs => wrap l.toCmd rs
  | .pipe e p => .pipe e.toCmd p.toCmd
  | .line p k => Cmd.backs k p.toCmd
  | .list p k l => .list (Cmd.backs k p.toCmd) l.toCmd

variable (n) in
/-- What a parse function returns is a derivation of the nonterminal from the tokens it read. -/
def Sound (x : NT) (parse : List Char → Except String (Cmd (ℕ × ℕ) × List Char)) : Prop :=
  ∀ s c s', parse s = .ok (c, s') → ∃ d, Gram x d ∧ lex n s = d.flatten ++ lex n s' ∧ d.toCmd = c

lemma lex_gettoken_of_peek (toks : List Char) {x : Char} {ts : List Tok} (h : lex n s = .sym x :: ts) :
    lex n (gettoken n (peek s toks).1).2.2.2 = ts := by
  obtain ⟨-, htail, -⟩ := gettoken_spec n (peek s toks).1
  rw [htail, lex_peek, h, List.tail_cons]

lemma sym_of_peek {x : Char} (hx : x ≠ '>') (hs : isSymbol x = true) (h : (peek s [x]).2 = true) :
    ∃ ts, lex n s = .sym x :: ts := by
  rw [(peek_spec (n := n) [x] (by simp [hs])).2] at h
  obtain ⟨c, ts, hl, hc⟩ := peeks_cons h
  rw [List.mem_singleton] at hc
  by_cases hplus : c = '+'
  · rw [if_pos hplus] at hc
    exact absurd hc.symm hx
  · rw [if_neg hplus] at hc
    exact ⟨ts, hc ▸ hl⟩

lemma parseline_step {fuel : ℕ} (hp : Sound n .pipe (parsepipe n fuel)) (hl : Sound n .line (parseline n fuel)) :
    Sound n .line (parseline n (fuel + 1)) := by
  intro s c s' h
  rw [parseline] at h
  obtain ⟨⟨c₁, s₁⟩, h₁, h⟩ := bind_ok h
  obtain ⟨⟨c₂, s₂⟩, h₂, h⟩ := bind_ok h
  obtain ⟨d₁, hd₁, hl₁, rfl⟩ := hp s c₁ s₁ h₁
  obtain ⟨k, hk, rfl⟩ := backLoop_sound fuel _ s₁ c₂ s₂ h₂
  dsimp only at h
  split_ifs at h with hsemi
  · -- `; line`
    obtain ⟨⟨c₃, s₃⟩, h₃, h⟩ := bind_ok h
    obtain ⟨ts, hts⟩ := sym_of_peek (by decide) (by decide) hsemi
    obtain ⟨d₂, hd₂, hl₂, rfl⟩ := hl _ c₃ s₃ h₃
    have h' : (Cmd.list (Cmd.backs k d₁.toCmd) d₂.toCmd, s₃) = (c, s') := Except.ok.inj h
    obtain ⟨rfl, rfl⟩ := Prod.mk.inj h'
    refine ⟨.list d₁ k d₂, .list hd₁ hd₂, ?_, rfl⟩
    rw [hl₁, hk, hts, ← lex_gettoken_of_peek [';'] hts, hl₂]
    simp [Syn.flatten]
  · obtain ⟨rfl, rfl⟩ := Prod.mk.inj (Except.ok.inj h)
    refine ⟨.line d₁ k, .line hd₁, ?_, rfl⟩
    rw [hl₁, hk, lex_peek]
    simp [Syn.flatten]

lemma parsepipe_step {fuel : ℕ} (he : Sound n .exec (parseexec n fuel)) (hp : Sound n .pipe (parsepipe n fuel)) :
    Sound n .pipe (parsepipe n (fuel + 1)) := by
  intro s c s' h
  rw [parsepipe] at h
  obtain ⟨⟨c₁, s₁⟩, h₁, h⟩ := bind_ok h
  obtain ⟨d₁, hd₁, hl₁, rfl⟩ := he s c₁ s₁ h₁
  dsimp only at h
  split_ifs at h with hbar
  · -- `| pipe`
    obtain ⟨⟨c₂, s₂⟩, h₂, h⟩ := bind_ok h
    obtain ⟨ts, hts⟩ := sym_of_peek (by decide) (by decide) hbar
    obtain ⟨d₂, hd₂, hl₂, rfl⟩ := hp _ c₂ s₂ h₂
    have h' : (Cmd.pipe d₁.toCmd d₂.toCmd, s₂) = (c, s') := Except.ok.inj h
    obtain ⟨rfl, rfl⟩ := Prod.mk.inj h'
    refine ⟨.pipe d₁ d₂, .pipe hd₁ hd₂, ?_, rfl⟩
    rw [hl₁, hts, ← lex_gettoken_of_peek ['|'] hts, hl₂]
    simp [Syn.flatten]
  · obtain ⟨rfl, rfl⟩ := Prod.mk.inj (Except.ok.inj h)
    exact ⟨d₁, .exec hd₁, by rw [hl₁, lex_peek], rfl⟩

lemma parseblock_step {fuel : ℕ} (hl : Sound n .line (parseline n fuel)) :
    Sound n .exec (parseblock n (fuel + 1)) := by
  intro s c s' h
  rw [parseblock] at h
  dsimp only at h
  split_ifs at h with hlp
  obtain ⟨⟨c₁, s₁⟩, h₁, h⟩ := bind_ok h
  obtain ⟨ts, hts⟩ := sym_of_peek (x := '(') (by decide) (by decide) (by simpa using hlp)
  obtain ⟨d₁, hd₁, hl₁, rfl⟩ := hl _ c₁ s₁ h₁
  dsimp only at h
  split_ifs at h with hrp
  obtain ⟨ts', hts'⟩ := sym_of_peek (x := ')') (by decide) (by decide) (by simpa using hrp)
  obtain ⟨rs, hrs, rfl⟩ := parseredirs_sound fuel _ _ c s' h
  refine ⟨.block d₁ rs, .block hd₁, ?_, rfl⟩
  rw [hts, ← lex_gettoken_of_peek ['('] hts, hl₁, hts', ← lex_gettoken_of_peek [')'] hts', hrs]
  simp [Syn.flatten]

lemma parseexec_step {fuel : ℕ} (hb : Sound n .exec (parseblock n fuel)) :
    Sound n .exec (parseexec n (fuel + 1)) := by
  intro s c s' h
  rw [parseexec] at h
  dsimp only at h
  split_ifs at h with hlp
  · obtain ⟨d, hd, hl, hc⟩ := hb _ c s' h
    exact ⟨d, hd, by rw [← hl, lex_peek], hc⟩
  · -- `redirs (WORD redirs)*`
    obtain ⟨⟨c₁, s₁⟩, h₁, h⟩ := bind_ok h
    obtain ⟨pre, hpre, rfl⟩ := parseredirs_sound fuel _ _ c₁ s₁ h₁
    obtain ⟨groups, hg, hlen, rfl⟩ := execLoop_sound fuel [] pre [] s₁ c s' (by decide) h
    refine ⟨.simple pre groups, .simple (by simpa using hlen), ?_, by simp [Syn.toCmd]⟩
    rw [← lex_peek, hpre, hg]
    simp [Syn.flatten]

/-- Every parse function returns a derivation of its nonterminal, at every fuel. -/
theorem parse_sound : ∀ fuel : ℕ, Sound n .line (parseline n fuel) ∧ Sound n .pipe (parsepipe n fuel) ∧
    Sound n .exec (parseexec n fuel) ∧ Sound n .exec (parseblock n fuel)
  | 0 => by
    refine ⟨?_, ?_, ?_, ?_⟩ <;> intro s c s' h <;> cases h
  | fuel + 1 =>
    have ⟨hl, hp, he, hb⟩ := parse_sound fuel
    ⟨parseline_step hp hl, parsepipe_step he hp, parseexec_step hb, parseblock_step hl⟩

/-! ### Every derivation is parsed -/

/-- The parse function of each nonterminal. -/
def NT.parse (n : ℕ) : NT → ℕ → List Char → Except String (Cmd (ℕ × ℕ) × List Char)
  | .line => parseline n
  | .pipe => parsepipe n
  | .exec => parseexec n

/-- How much fuel a nonterminal needs beyond four rounds a token: each call down the grammar
spends one. -/
def NT.rank : NT → ℕ
  | .line => 3
  | .pipe => 2
  | .exec => 1

variable (n) in
/-- A derivation of `x` is parsed whole, up to a follower of `x`, with enough fuel. -/
def Complete (x : NT) (d : Syn) : Prop :=
  ∀ fuel s rest, lex n s = d.flatten ++ rest → Follow x rest → 4 * (lex n s).length + x.rank < fuel →
    ∃ s', x.parse n fuel s = .ok (d.toCmd, s') ∧ lex n s' = rest

lemma peeks_mono {toks toks' : List Char} {rest : List Tok} (hsub : toks.all toks'.contains = true)
    (h : peeks toks rest = true) : peeks toks' rest = true := by
  obtain ⟨c, r, rfl, hc⟩ := peeks_cons h
  simpa [peeks] using List.all_eq_true.mp hsub _ hc

lemma Follow.of_line {rest : List Tok} (h : Follow .line rest) : Follow .pipe rest :=
  h.imp_right (peeks_mono (by decide))

lemma Follow.of_pipe {rest : List Tok} (h : Follow .pipe rest) : Follow .exec rest :=
  h.imp_right (peeks_mono (by decide))

lemma simple_complete {pre : List Redir} {groups : List ((ℕ × ℕ) × List Redir)} (h : groups.length < MAXARGS) :
    Complete n .exec (.simple pre groups) := by
  intro fuel s rest hl hf hfuel
  obtain ⟨fuel, rfl⟩ : ∃ f, fuel = f + 1 := ⟨fuel - 1, by simp [NT.rank] at hfuel; omega⟩
  simp only [Syn.flatten, List.append_assoc] at hl
  -- the first token is a redirection, a word or a follower of `exec`: not `(`
  have hlp : peeks ['('] (lex n s) = false := by
    rw [hl]
    rcases pre with _ | ⟨r, pre⟩
    · rcases groups with _ | ⟨g, groups⟩
      · exact peeks_of_follow hf (by decide)
      · rfl
    · rcases r with ⟨_ | _ | _, file⟩ <;> rfl
  have hnext : peeks ['<', '>'] (groupToks groups ++ rest) = false := by
    rcases groups with _ | ⟨g, groups⟩
    · exact peeks_of_follow hf (by decide)
    · rfl
  have hlen : (lex n s).length = 2 * pre.length + (groupToks groups ++ rest).length := by
    simp [hl]
  obtain ⟨s₁, hr, hl₁⟩ := parseredirs_complete pre fuel (.exec []) (s.dropWhile isWhitespace) _
    (by rw [lex_dropWhile, hl]) hnext (by simp [NT.rank] at hfuel; omega)
  obtain ⟨s', he, hl'⟩ := execLoop_complete groups fuel [] pre [] s₁ rest hl₁ hf (by simpa using h)
    (by rw [hl₁]; simp [NT.rank] at hfuel; omega)
  refine ⟨s', ?_, hl'⟩
  simp only [NT.parse]
  rw [parseexec, peek_eq (n := n) ['('] (by decide), hlp]
  simp only [Bool.false_eq_true, if_false, hr, ok_bind]
  rw [he]
  simp [Syn.toCmd]

lemma block_complete {l : Syn} {rs : List Redir} (ih : Complete n .line l) : Complete n .exec (.block l rs) := by
  intro fuel s rest hl hf hfuel
  simp only [Syn.flatten, List.cons_append, List.append_assoc] at hl
  have hlen : (lex n s).length = l.flatten.length + 2 * rs.length + rest.length + 2 := by
    simp [hl]; omega
  obtain ⟨fuel, rfl⟩ : ∃ f, fuel = f + 2 := ⟨fuel - 2, by simp [NT.rank] at hfuel; omega⟩
  -- `(`, the line up to `)`, then the redirections
  have hl₁ : lex n (gettoken n (s.dropWhile isWhitespace)).2.2.2 = l.flatten ++ (.sym ')' :: (redirToks rs ++ rest)) := by
    rw [lex_gettoken, lex_dropWhile, hl, List.tail_cons]
  obtain ⟨s₂, hp₂, hl₂⟩ := ih fuel _ _ hl₁ (.inr rfl) (by rw [hl₁]; simp [NT.rank] at hfuel ⊢; omega)
  have hl₃ : lex n (gettoken n (s₂.dropWhile isWhitespace)).2.2.2 = redirToks rs ++ rest := by
    rw [lex_gettoken, lex_dropWhile, hl₂, List.tail_cons]
  obtain ⟨s', hr, hl'⟩ := parseredirs_complete rs fuel l.toCmd _ rest hl₃ (peeks_of_follow hf (by decide))
    (by simp [NT.rank] at hfuel; omega)
  refine ⟨s', ?_, hl'⟩
  simp only [NT.parse]
  rw [parseexec, peek_eq (n := n) ['('] (by decide), hl]
  simp only [show peeks ['('] (.sym '(' :: _) = true from rfl, if_true]
  rw [parseblock, peek_eq (n := n) ['('] (by decide), lex_dropWhile, hl, List.dropWhile_idempotent]
  simp only [show peeks ['('] (.sym '(' :: _) = true from rfl, Bool.not_true, Bool.false_eq_true, if_false]
  simp only [NT.parse] at hp₂
  rw [hp₂, ok_bind]
  dsimp only
  rw [peek_eq (n := n) [')'] (by decide), hl₂]
  simp only [show peeks [')'] (.sym ')' :: _) = true from rfl, Bool.not_true, Bool.false_eq_true, if_false]
  exact hr

lemma exec_complete {e : Syn} (ih : Complete n .exec e) : Complete n .pipe e := by
  intro fuel s rest hl hf hfuel
  obtain ⟨fuel, rfl⟩ : ∃ f, fuel = f + 1 := ⟨fuel - 1, by simp [NT.rank] at hfuel; omega⟩
  obtain ⟨s₁, he, hl₁⟩ := ih fuel s rest hl hf.of_pipe (by simp [NT.rank] at hfuel ⊢; omega)
  refine ⟨s₁.dropWhile isWhitespace, ?_, by rw [lex_dropWhile, hl₁]⟩
  simp only [NT.parse] at he ⊢
  rw [parsepipe, he, ok_bind]
  dsimp only
  rw [peek_eq (n := n) ['|'] (by decide), hl₁, peeks_of_follow hf (by decide)]
  rfl

lemma pipe_complete {e p : Syn} (ihe : Complete n .exec e) (ihp : Complete n .pipe p) :
    Complete n .pipe (.pipe e p) := by
  intro fuel s rest hl hf hfuel
  simp only [Syn.flatten, List.append_assoc, List.cons_append] at hl
  obtain ⟨fuel, rfl⟩ : ∃ f, fuel = f + 1 := ⟨fuel - 1, by simp [NT.rank] at hfuel; omega⟩
  -- the exec up to `|`, then the pipe after it
  obtain ⟨s₁, he, hl₁⟩ := ihe fuel s _ hl (.inr rfl) (by simp [NT.rank] at hfuel ⊢; omega)
  have hl₂ : lex n (gettoken n (s₁.dropWhile isWhitespace)).2.2.2 = p.flatten ++ rest := by
    rw [lex_gettoken, lex_dropWhile, hl₁, List.tail_cons]
  obtain ⟨s', hp, hl'⟩ := ihp fuel _ rest hl₂ hf
    (by rw [hl₂]; rw [hl] at hfuel; simp [NT.rank] at hfuel ⊢; omega)
  refine ⟨s', ?_, hl'⟩
  simp only [NT.parse] at he hp ⊢
  rw [parsepipe, he, ok_bind]
  dsimp only
  rw [peek_eq (n := n) ['|'] (by decide), hl₁]
  simp only [show peeks ['|'] (.sym '|' :: _) = true from rfl, if_true]
  rw [hp, ok_bind]
  rfl

lemma line_complete {p : Syn} {k : ℕ} (ih : Complete n .pipe p) : Complete n .line (.line p k) := by
  intro fuel s rest hl hf hfuel
  simp only [Syn.flatten, List.append_assoc] at hl
  obtain ⟨fuel, rfl⟩ : ∃ f, fuel = f + 1 := ⟨fuel - 1, by simp [NT.rank] at hfuel; omega⟩
  -- after the pipe come the ampersands, and after them a follower of `line`
  have hfp : Follow .pipe (List.replicate k (.sym '&') ++ rest) := by
    cases k with
    | zero => exact hf.of_line
    | succ k => exact .inr rfl
  obtain ⟨s₁, hp, hl₁⟩ := ih fuel s _ hl hfp (by simp [NT.rank] at hfuel ⊢; omega)
  obtain ⟨s₂, hb, hl₂⟩ := backLoop_complete k fuel p.toCmd s₁ rest hl₁ (peeks_of_follow hf (by decide))
    (by rw [hl] at hfuel; simp [NT.rank] at hfuel; omega)
  refine ⟨s₂.dropWhile isWhitespace, ?_, by rw [lex_dropWhile, hl₂]⟩
  simp only [NT.parse] at hp ⊢
  rw [parseline, hp, ok_bind]
  dsimp only
  rw [hb, ok_bind]
  dsimp only
  rw [peek_eq (n := n) [';'] (by decide), hl₂, peeks_of_follow hf (by decide)]
  rfl

lemma list_complete {p l : Syn} {k : ℕ} (ihp : Complete n .pipe p) (ihl : Complete n .line l) :
    Complete n .line (.list p k l) := by
  intro fuel s rest hl hf hfuel
  simp only [Syn.flatten, List.append_assoc, List.cons_append] at hl
  obtain ⟨fuel, rfl⟩ : ∃ f, fuel = f + 1 := ⟨fuel - 1, by simp [NT.rank] at hfuel; omega⟩
  have hfp : Follow .pipe (List.replicate k (.sym '&') ++ .sym ';' :: (l.flatten ++ rest)) := by
    cases k with
    | zero => exact .inr rfl
    | succ k => exact .inr rfl
  obtain ⟨s₁, hp, hl₁⟩ := ihp fuel s _ hl hfp (by simp [NT.rank] at hfuel ⊢; omega)
  obtain ⟨s₂, hb, hl₂⟩ := backLoop_complete k fuel p.toCmd s₁ _ hl₁ rfl
    (by rw [hl] at hfuel; simp [NT.rank] at hfuel; omega)
  -- `;`, then the rest of the line
  have hl₃ : lex n (gettoken n (s₂.dropWhile isWhitespace)).2.2.2 = l.flatten ++ rest := by
    rw [lex_gettoken, lex_dropWhile, hl₂, List.tail_cons]
  obtain ⟨s', hl', hl'₂⟩ := ihl fuel _ rest hl₃ hf
    (by rw [hl₃]; rw [hl] at hfuel; simp [NT.rank] at hfuel ⊢; omega)
  refine ⟨s', ?_, hl'₂⟩
  simp only [NT.parse] at hp hl' ⊢
  rw [parseline, hp, ok_bind]
  dsimp only
  rw [hb, ok_bind]
  dsimp only
  rw [peek_eq (n := n) [';'] (by decide), hl₂]
  simp only [show peeks [';'] (.sym ';' :: _) = true from rfl, if_true]
  rw [hl', ok_bind]
  rfl

/-- Every derivation of a nonterminal is parsed, up to a follower of it, with enough fuel. -/
theorem parse_complete {x : NT} {d : Syn} (hd : Gram x d) : Complete n x d := by
  induction hd with
  | simple h => exact simple_complete h
  | block _ ih => exact block_complete ih
  | exec _ ih => exact exec_complete ih
  | pipe _ _ ihe ihp => exact pipe_complete ihe ihp
  | line _ ih => exact line_complete ih
  | list _ _ ihp ihl => exact list_complete ihp ihl

/-! ### The fuel never runs out -/

lemma length_lex_gettoken_lt {s : List Char} (h : lex n s ≠ []) :
    (lex n (gettoken n s).2.2.2).length < (lex n s).length := by
  rw [lex_gettoken, List.length_tail]
  have := List.length_pos_iff.mpr h
  omega

lemma parseredirs_fuel : ∀ (fuel : ℕ) (cmd : Cmd (ℕ × ℕ)) (s : List Char), (lex n s).length < fuel →
    parseredirs n cmd fuel s ≠ .error "out of fuel"
  | 0, _, _, hf => absurd hf (Nat.not_lt_zero _)
  | fuel + 1, cmd, s, hf => by
    rw [parseredirs, peek_eq (n := n) ['<', '>'] (by decide)]
    dsimp only
    cases hm : peeks ['<', '>'] (lex n s)
    · simp
    · obtain ⟨x, ts, hl, -⟩ := peeks_cons hm
      simp only [Bool.not_true, Bool.false_eq_true, if_false]
      split_ifs
      · simp
      · -- the symbol and the file are two tokens
        apply parseredirs_fuel
        have h₁ := lex_gettoken (n := n) (s.dropWhile isWhitespace)
        have h₂ := lex_gettoken (n := n) (gettoken n (s.dropWhile isWhitespace)).2.2.2
        rw [h₂, h₁, lex_dropWhile, hl]
        rw [hl] at hf
        simp only [List.tail_cons, List.length_cons, List.length_tail] at hf ⊢
        omega

lemma execLoop_fuel : ∀ (fuel : ℕ) (ret : Cmd (ℕ × ℕ)) (argv : List (ℕ × ℕ)) (s : List Char),
    (lex n s).length < fuel → execLoop n fuel ret argv s ≠ .error "out of fuel"
  | 0, _, _, _, hf => absurd hf (Nat.not_lt_zero _)
  | fuel + 1, ret, argv, s, hf => by
    rw [execLoop, peek_eq (n := n) ['|', ')', '&', ';'] (by decide)]
    dsimp only
    generalize hg : gettoken n (s.dropWhile isWhitespace) = g
    obtain ⟨tok, q, eq, s₂⟩ := g
    dsimp only
    split_ifs with hstop h0 ha hmax
    · simp
    · simp
    · simp
    · simp
    · -- a word, then its redirections
      rw [not_not] at ha
      subst ha
      have hl := gettoken_word hg
      rw [lex_dropWhile] at hl
      rw [hl, List.length_cons] at hf
      apply bind_ne_error (parseredirs_fuel fuel _ _ (by omega))
      rintro ⟨ret', s₃⟩ hr
      obtain ⟨rs, hrs, -⟩ := parseredirs_sound fuel _ _ _ _ hr
      have hle : (lex n s₃).length ≤ (lex n s₂).length := by
        rw [hrs, List.length_append]
        omega
      exact execLoop_fuel fuel ret' _ s₃ (by omega)

lemma backLoop_fuel : ∀ (fuel : ℕ) (cmd : Cmd (ℕ × ℕ)) (s : List Char), (lex n s).length < fuel →
    backLoop n fuel cmd s ≠ .error "out of fuel"
  | 0, _, _, hf => absurd hf (Nat.not_lt_zero _)
  | fuel + 1, cmd, s, hf => by
    rw [backLoop, peek_eq (n := n) ['&'] (by decide)]
    dsimp only
    split_ifs with hamp
    · obtain ⟨x, ts, hl, -⟩ := peeks_cons hamp
      have hlt := length_lex_gettoken_lt (n := n) (s := s.dropWhile isWhitespace) (by rw [lex_dropWhile, hl]; simp)
      rw [lex_dropWhile] at hlt
      exact backLoop_fuel fuel _ _ (by omega)
    · simp

variable (n) in
/-- With fuel past four rounds a token and the rank, a parse function never runs out. -/
def Fueled (rank fuel : ℕ) (parse : List Char → Except String (Cmd (ℕ × ℕ) × List Char)) : Prop :=
  ∀ s, 4 * (lex n s).length + rank < fuel → parse s ≠ .error "out of fuel"

lemma Sound.length_le {x : NT} {p : List Char → Except String (Cmd (ℕ × ℕ) × List Char)} (hs : Sound n x p)
    {s s' : List Char} {c : Cmd (ℕ × ℕ)} (h : p s = .ok (c, s')) : (lex n s').length ≤ (lex n s).length := by
  obtain ⟨d, -, hl, -⟩ := hs s c s' h
  rw [hl, List.length_append]
  omega

lemma parseline_fuel_step {fuel : ℕ} (hsp : Sound n .pipe (parsepipe n fuel))
    (hfp : Fueled n 2 fuel (parsepipe n fuel)) (hfl : Fueled n 3 fuel (parseline n fuel)) :
    Fueled n 3 (fuel + 1) (parseline n (fuel + 1)) := by
  intro s hf
  rw [parseline]
  apply bind_ne_error (hfp s (by omega))
  rintro ⟨c₁, s₁⟩ h₁
  have hle₁ := hsp.length_le h₁
  dsimp only
  apply bind_ne_error (backLoop_fuel fuel _ _ (by omega))
  rintro ⟨c₂, s₂⟩ h₂
  obtain ⟨k, hk, -⟩ := backLoop_sound fuel _ _ _ _ h₂
  have hle₂ : (lex n s₂).length ≤ (lex n s₁).length := by
    rw [hk, List.length_append]
    omega
  dsimp only
  split_ifs with hsemi
  · -- `;` is one more token
    obtain ⟨ts, hts⟩ := sym_of_peek (by decide) (by decide) hsemi
    have hlt : (lex n (gettoken n (peek s₂ [';']).1).2.2.2).length < (lex n s₂).length := by
      rw [lex_gettoken_of_peek [';'] hts, hts, List.length_cons]
      omega
    apply bind_ne_error (hfl _ (by omega))
    intro _ _
    simp
  · simp

lemma parsepipe_fuel_step {fuel : ℕ} (hse : Sound n .exec (parseexec n fuel))
    (hfe : Fueled n 1 fuel (parseexec n fuel)) (hfp : Fueled n 2 fuel (parsepipe n fuel)) :
    Fueled n 2 (fuel + 1) (parsepipe n (fuel + 1)) := by
  intro s hf
  rw [parsepipe]
  apply bind_ne_error (hfe s (by omega))
  rintro ⟨c₁, s₁⟩ h₁
  have hle₁ := hse.length_le h₁
  dsimp only
  split_ifs with hbar
  · -- `|` is one more token
    obtain ⟨ts, hts⟩ := sym_of_peek (by decide) (by decide) hbar
    have hlt : (lex n (gettoken n (peek s₁ ['|']).1).2.2.2).length < (lex n s₁).length := by
      rw [lex_gettoken_of_peek ['|'] hts, hts, List.length_cons]
      omega
    apply bind_ne_error (hfp _ (by omega))
    intro _ _
    simp
  · simp

lemma parseblock_fuel_step {fuel : ℕ} (hsl : Sound n .line (parseline n fuel))
    (hfl : Fueled n 3 fuel (parseline n fuel)) : Fueled n 0 (fuel + 1) (parseblock n (fuel + 1)) := by
  intro s hf
  rw [parseblock]
  dsimp only
  split_ifs with hlp
  · simp
  · -- `(` is one token
    obtain ⟨ts, hts⟩ := sym_of_peek (x := '(') (by decide) (by decide) (by simpa using hlp)
    have hlt : (lex n (gettoken n (peek s ['(']).1).2.2.2).length < (lex n s).length := by
      rw [lex_gettoken_of_peek ['('] hts, hts, List.length_cons]
      omega
    apply bind_ne_error (hfl _ (by omega))
    rintro ⟨c₁, s₁⟩ h₁
    have hle₁ := hsl.length_le h₁
    dsimp only
    split_ifs with hrp
    · simp
    · -- `)` is one more
      obtain ⟨ts', hts'⟩ := sym_of_peek (x := ')') (by decide) (by decide) (by simpa using hrp)
      have hlt' : (lex n (gettoken n (peek s₁ [')']).1).2.2.2).length < (lex n s₁).length := by
        rw [lex_gettoken_of_peek [')'] hts', hts', List.length_cons]
        omega
      exact parseredirs_fuel fuel _ _ (by omega)

lemma parseexec_fuel_step {fuel : ℕ} (hfb : Fueled n 0 fuel (parseblock n fuel)) :
    Fueled n 1 (fuel + 1) (parseexec n (fuel + 1)) := by
  intro s hf
  rw [parseexec]
  dsimp only
  split_ifs with hlp
  · exact hfb _ (by rw [lex_peek]; omega)
  · apply bind_ne_error (parseredirs_fuel fuel _ _ (by rw [lex_peek]; omega))
    rintro ⟨ret, s₁⟩ h₁
    obtain ⟨rs, hrs, -⟩ := parseredirs_sound fuel _ _ _ _ h₁
    have hle : (lex n s₁).length ≤ (lex n s).length := by
      rw [← lex_peek (s := s) ['('], hrs, List.length_append]
      omega
    dsimp only
    exact execLoop_fuel fuel _ _ _ (by omega)

/-- Every parse function has enough fuel with four rounds a token and its rank. -/
theorem parse_fueled : ∀ fuel : ℕ, Fueled n 3 fuel (parseline n fuel) ∧ Fueled n 2 fuel (parsepipe n fuel) ∧
    Fueled n 1 fuel (parseexec n fuel) ∧ Fueled n 0 fuel (parseblock n fuel)
  | 0 => by
    refine ⟨?_, ?_, ?_, ?_⟩ <;> intro s hf <;> omega
  | fuel + 1 => by
    obtain ⟨hsl, hsp, hse, -⟩ := parse_sound (n := n) fuel
    obtain ⟨hfl, hfp, hfe, hfb⟩ := parse_fueled fuel
    exact ⟨parseline_fuel_step hsp hfp hfl, parsepipe_fuel_step hse hfe hfp, parseexec_fuel_step hfb,
      parseblock_fuel_step hsl hfl⟩

/-! ### `parsecmd` -/

lemma Redir.wrap_words (c : Cmd (ℕ × ℕ)) (r : Redir) : (r.wrap c).words = c.words ++ [r.file] := by
  rcases r with ⟨_ | _ | _, file⟩ <;> rfl

lemma wrap_words (rs : List Redir) : ∀ c : Cmd (ℕ × ℕ), (wrap c rs).words = c.words ++ rs.map Redir.file := by
  induction rs with
  | nil => simp [wrap]
  | cons r rs ih =>
    intro c
    rw [wrap_cons, ih, Redir.wrap_words]
    simp

lemma backs_words {α : Type} : ∀ (k : ℕ) (c : Cmd α), (Cmd.backs k c).words = c.words
  | 0, _ => rfl
  | k + 1, c => backs_words k (.back c)

lemma mem_redirToks {r : Redir} {rs : List Redir} (h : r ∈ rs) : .word r.file.1 r.file.2 ∈ redirToks rs := by
  simp only [redirToks, List.mem_flatMap, List.mem_cons]
  exact ⟨r, h, .inr (.inl rfl)⟩

lemma toCmd_words (d : Syn) : ∀ w ∈ d.toCmd.words, Tok.word w.1 w.2 ∈ d.flatten := by
  induction d with
  | simple pre groups =>
    intro w hw
    simp only [Syn.toCmd, wrap_words, Cmd.words, List.map_append, List.mem_append, List.mem_map,
      List.mem_flatMap] at hw
    simp only [Syn.flatten, List.mem_append, groupToks, List.mem_flatMap, List.mem_cons]
    rcases hw with ⟨g, hg, rfl⟩ | ⟨r, hr, rfl⟩ | ⟨r, ⟨g, hg, hr⟩, rfl⟩
    · exact .inr ⟨g, hg, .inl rfl⟩
    · exact .inl (mem_redirToks hr)
    · exact .inr ⟨g, hg, .inr (mem_redirToks hr)⟩
  | block l rs ih =>
    intro w hw
    simp only [Syn.toCmd, wrap_words, List.mem_append, List.mem_map] at hw
    simp only [Syn.flatten, List.mem_cons, List.mem_append, reduceCtorEq, false_or]
    rcases hw with hw | ⟨r, hr, rfl⟩
    · exact .inl (ih w hw)
    · exact .inr (mem_redirToks hr)
  | pipe e p ihe ihp =>
    intro w hw
    simp only [Syn.toCmd, Cmd.words, List.mem_append] at hw
    simp only [Syn.flatten, List.mem_append, List.mem_cons, reduceCtorEq, false_or]
    exact hw.imp (ihe w) (ihp w)
  | line p k ih =>
    intro w hw
    rw [Syn.toCmd, backs_words] at hw
    exact List.mem_append_left _ (ih w hw)
  | list p k l ihp ihl =>
    intro w hw
    simp only [Syn.toCmd, Cmd.words, backs_words, List.mem_append] at hw
    rw [Syn.flatten]
    rcases hw with hw | hw
    · exact List.mem_append_left _ (List.mem_append_left _ (ihp w hw))
    · exact List.mem_append_right _ (List.mem_cons_of_mem _ (ihl w hw))

lemma parsecmd_sound {s buf : List Char} {c : Cmd (ℕ × ℕ)} (h : parsecmd s = .ok (c, buf)) :
    (∃ d, Gram .line d ∧ d.flatten = lex s.length s ∧ d.toCmd = c) ∧ buf = nulterminate c s := by
  rw [parsecmd] at h
  obtain ⟨⟨c₁, rest⟩, h₁, h⟩ := bind_ok h
  dsimp only at h
  split_ifs at h with hrest
  obtain ⟨rfl, rfl⟩ := Prod.mk.inj (Except.ok.inj h)
  obtain ⟨d, hd, hl, rfl⟩ := (parse_sound (4 * s.length + 4)).1 s _ rest h₁
  have hnil : lex s.length rest = [] := lex_eq_nil_iff.mpr (by simpa [peek] using hrest)
  exact ⟨⟨d, hd, by rw [hl, hnil, List.append_nil], rfl⟩, rfl⟩

lemma parsecmd_complete {s : List Char} {d : Syn} (hd : Gram .line d) (hl : d.flatten = lex s.length s) :
    parsecmd s = .ok (d.toCmd, nulterminate d.toCmd s) := by
  have hlen := lex_length_le (n := s.length) s
  obtain ⟨s', hp, hl'⟩ := parse_complete hd (4 * s.length + 4) s [] (by rw [hl, List.append_nil]) (.inl rfl)
    (by simp only [NT.rank]; omega)
  have hrest : (peek s' []).1 = [] := by
    simpa [peek] using lex_eq_nil_iff.mp hl'
  simp only [NT.parse] at hp
  rw [parsecmd, hp, ok_bind]
  dsimp only
  rw [if_neg (by simp [hrest])]
  rfl

lemma parsecmd_fuel (s : List Char) : parsecmd s ≠ .error "out of fuel" := by
  rw [parsecmd]
  have hlen := lex_length_le (n := s.length) s
  apply bind_ne_error ((parse_fueled (4 * s.length + 4)).1 s (by omega))
  intro _ _
  dsimp only
  split_ifs <;> simp

/-- `parsecmd` on a line with no NUL in it returns, and does not panic, exactly when the line's
tokens derive `line`; the command it returns is the one of that derivation, and after
`nulterminate` every word of it, in `argv` or as a file, reads as its text: a maximal run of word
bytes of the line. -/
theorem parsecmd_accepts_grammar (s : List Char) (hs : '\x00' ∉ s) :
    ((∃ r, parsecmd s = .ok r) ↔ ∃ d, Gram .line d ∧ d.flatten = lex s.length s) ∧
    parsecmd s ≠ .error "out of fuel" ∧
    (∀ d, Gram .line d → d.flatten = lex s.length s → ∃ buf, parsecmd s = .ok (d.toCmd, buf)) ∧
    ∀ c buf, parsecmd s = .ok (c, buf) →
      (∃ d, Gram .line d ∧ d.flatten = lex s.length s ∧ d.toCmd = c) ∧
      (∀ w ∈ c.words, WordRun s w.1 w.2) ∧
      c.map (fun w => cstrAt buf w.1) = c.map fun w => (s.drop w.1).take (w.2 - w.1) := by
  have hwords : ∀ c buf, parsecmd s = .ok (c, buf) → ∀ w ∈ c.words, WordRun s w.1 w.2 := by
    intro c buf h w hw
    obtain ⟨⟨d, -, hl, rfl⟩, -⟩ := parsecmd_sound h
    have hmem := toCmd_words d w hw
    rw [hl] at hmem
    exact lex_wordRun s s List.suffix_rfl (.inl rfl) w.1 w.2 hmem
  refine ⟨⟨?_, ?_⟩, parsecmd_fuel s, fun d hd hl => ⟨_, parsecmd_complete hd hl⟩, ?_⟩
  · rintro ⟨⟨c, buf⟩, h⟩
    obtain ⟨⟨d, hd, hl, -⟩, -⟩ := parsecmd_sound h
    exact ⟨d, hd, hl⟩
  · rintro ⟨d, hd, hl⟩
    exact ⟨_, parsecmd_complete hd hl⟩
  · intro c buf h
    obtain ⟨hsyn, rfl⟩ := parsecmd_sound h
    exact ⟨hsyn, hwords c _ h, cstrAt_nulterminate s c hs (hwords c _ h)⟩

theorem parsecmd_ls_redirect : '\x00' ∉ "ls > out".toList ∧
    ∃ d, Gram .line d ∧ d.flatten = lex 8 "ls > out".toList ∧
      d.toCmd = .redir (.exec [(0, 2)]) (5, 8) (O_WRONLY ||| O_CREATE) 1 :=
  ⟨by decide, ((parsecmd_accepts_grammar "ls > out".toList (by decide)).2.2.2 _ _ rfl).1⟩

end Xv6Net.User.Sh
