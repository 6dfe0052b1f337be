import Mathlib.Data.List.Basic

/-! `grep.c`: the Kernighan–Pike matcher `match`, `matchhere` and `matchstar`, and the read loop of
`grep`. Strings are the text before their NUL. The matcher decides the language of its pattern
read as atoms, each a character ('.' for any) with an optional '*', after a leading '^' and a
trailing '$' are taken off as anchors. -/

namespace Xv6Net.User.Grep

/-- `matchstar(c, re, text)`, with `here` for `matchhere(re, ·)`: `do { if(matchhere(re, text))
return 1; } while(*text!='\0' && (*text++==c || c=='.'));`. -/
def matchstar (c : Char) (here : List Char → Bool) : List Char → Bool
  | [] => here []
  | t :: text => here (t :: text) || ((t == c || c == '.') && matchstar c here text)

def matchhere : List Char → List Char → Bool
  | [], _ => true
  | c :: '*' :: re, text => matchstar c (matchhere re) text
  | ['$'], text => text.isEmpty
  | c :: re, t :: text => (c == '.' || c == t) && matchhere re text
  | _ :: _, [] => false

/-- `match`'s loop `do { if(matchhere(re, text)) return 1; } while(*text++ != '\0');`. -/
def matchLoop (re : List Char) : List Char → Bool
  | [] => matchhere re []
  | t :: text => matchhere re (t :: text) || matchLoop re text

/-- `match(re, text)`. -/
def matchRe (re text : List Char) : Bool :=
  match re with
  | '^' :: re => matchhere re text
  | _ => matchLoop re text

example : matchRe "a$b".toList "xa$b".toList = true ∧ matchRe "^*a".toList "*a".toList = true := by decide

/-! ### The language of a pattern -/

/-- An atom of a pattern: a character, matched once or, followed by `*`, any number of times. -/
inductive Atom where
  | one (c : Char)
  | star (c : Char)
  deriving DecidableEq, Repr

/-- A pattern read left to right as atoms. -/
def atoms : List Char → List Atom
  | [] => []
  | c :: '*' :: re => .star c :: atoms re
  | c :: re => .one c :: atoms re

/-- `.` matches any character, any other character itself. -/
def AtomChar (c t : Char) : Prop := c = '.' ∨ c = t

instance (c t : Char) : Decidable (AtomChar c t) := inferInstanceAs (Decidable (_ ∨ _))

/-- The strings a list of atoms matches. -/
inductive InLang : List Atom → List Char → Prop
  | nil : InLang [] []
  | one {c t : Char} {as : List Atom} {s : List Char} : AtomChar c t → InLang as s → InLang (.one c :: as) (t :: s)
  | skip {c : Char} {as : List Atom} {s : List Char} : InLang as s → InLang (.star c :: as) s
  | more {c t : Char} {as : List Atom} {s : List Char} :
      AtomChar c t → InLang (.star c :: as) s → InLang (.star c :: as) (t :: s)

def stripStart (re : List Char) : List Char := if re.head? = some '^' then re.tail else re

def stripEnd (re : List Char) : List Char := if re.getLast? = some '$' then re.dropLast else re

/-- `match`'s specification: some substring of `text` is in the language of the pattern's atoms; a
prefix when the pattern starts with `^`, and a suffix when it ends with `$` after that. -/
def Accepts (re text : List Char) : Prop :=
  ∃ u v w, text = u ++ v ++ w ∧ InLang (atoms (stripEnd (stripStart re))) v ∧
    (re.head? = some '^' → u = []) ∧ ((stripStart re).getLast? = some '$' → w = [])

def Rem (as : List Atom) (s r : List Char) : Prop := ∃ v, s = v ++ r ∧ InLang as v

/-- What `matchhere(re, text)` decides: a prefix of `text` is in the language of `re`'s atoms, and
is all of `text` when `re` ends with `$`. -/
def Here (re text : List Char) : Prop :=
  ∃ r, Rem (atoms (stripEnd re)) text r ∧ (re.getLast? = some '$' → r = [])

/-! ### The language, one atom at a time -/

section Language

variable {c : Char} {as : List Atom}

lemma InLang.star_split : ∀ {v : List Char}, InLang (.star c :: as) v →
    ∃ k ≤ v.length, (∀ t ∈ v.take k, AtomChar c t) ∧ InLang as (v.drop k)
  | [], h => by
    cases h with
    | skip h => exact ⟨0, Nat.le_refl 0, by simp, h⟩
  | t :: v, h => by
    cases h with
    | skip h => exact ⟨0, Nat.zero_le _, by simp, h⟩
    | more hc h =>
      obtain ⟨k, hk, hall, hr⟩ := InLang.star_split h
      refine ⟨k + 1, by simpa using hk, ?_, by simpa using hr⟩
      simpa [List.take_succ_cons] using ⟨hc, hall⟩

lemma InLang.star_join {u v : List Char} (hu : ∀ t ∈ u, AtomChar c t) (hv : InLang as v) :
    InLang (.star c :: as) (u ++ v) := by
  induction u with
  | nil => exact .skip hv
  | cons t u ih =>
    apply InLang.more (hu t (List.mem_cons_self ..))
    exact ih fun x hx => hu x (List.mem_cons_of_mem t hx)

variable {s r : List Char}

@[simp] lemma rem_nil : Rem [] s r ↔ r = s := by
  constructor
  · rintro ⟨v, hs, hv⟩
    cases hv
    simpa using hs.symm
  · rintro rfl
    exact ⟨[], rfl, .nil⟩

lemma rem_one : Rem (.one c :: as) s r ↔ ∃ t s', s = t :: s' ∧ AtomChar c t ∧ Rem as s' r := by
  constructor
  · rintro ⟨v, rfl, hv⟩
    cases hv with
    | one hc hv => exact ⟨_, _, rfl, hc, _, rfl, hv⟩
  · rintro ⟨t, s', rfl, hc, v, rfl, hv⟩
    exact ⟨t :: v, rfl, .one hc hv⟩

lemma rem_star : Rem (.star c :: as) s r ↔ ∃ k, (∀ t ∈ s.take k, AtomChar c t) ∧ Rem as (s.drop k) r := by
  constructor
  · rintro ⟨v, rfl, hv⟩
    obtain ⟨k, hk, hall, hr⟩ := hv.star_split
    refine ⟨k, by rwa [List.take_append_of_le_length hk], v.drop k, ?_, hr⟩
    rw [List.drop_append_of_le_length hk]
  · rintro ⟨k, hall, v, hs, hv⟩
    refine ⟨s.take k ++ v, ?_, InLang.star_join hall hv⟩
    rw [List.append_assoc, ← hs, List.take_append_drop]

end Language

/-! ### The pattern, one atom at a time -/

section Pattern

variable {c : Char} {re text : List Char}

lemma atoms_cons_one (h : re.head? ≠ some '*') : atoms (c :: re) = .one c :: atoms re := by
  cases re with
  | nil => rfl
  | cons d re =>
    have hd : d ≠ '*' := fun e => h (by simp [e])
    simp [atoms, hd]

lemma stripEnd_cons (h : c :: re ≠ ['$']) : stripEnd (c :: re) = c :: stripEnd re := by
  cases re with
  | nil =>
    have hc : c ≠ '$' := fun e => h (by rw [e])
    simp [stripEnd, hc]
  | cons d re =>
    unfold stripEnd
    split_ifs <;> simp_all

lemma getLast?_cons_dollar (h : c :: re ≠ ['$']) : (c :: re).getLast? = some '$' ↔ re.getLast? = some '$' := by
  cases re with
  | nil =>
    have hc : c ≠ '$' := fun e => h (by rw [e])
    simp [hc]
  | cons d re => simp

lemma head?_stripEnd (h : re.head? ≠ some '*') : (stripEnd re).head? ≠ some '*' := by
  obtain ⟨u, hu⟩ : stripEnd re <+: re := by
    unfold stripEnd
    split_ifs
    · exact List.dropLast_prefix re
    · exact List.prefix_refl re
  intro hs
  apply h
  cases hsr : stripEnd re with
  | nil => simp [hsr] at hs
  | cons x l => rw [← hu, hsr]; simpa [hsr] using hs

lemma here_nil : Here [] text := ⟨text, by simp [stripEnd, atoms], by simp⟩

lemma here_dollar : Here ['$'] text ↔ text = [] := by
  simp [Here, stripEnd, atoms, eq_comm]

lemma here_star : Here (c :: '*' :: re) text ↔
    ∃ k, (∀ t ∈ text.take k, AtomChar c t) ∧ Here re (text.drop k) := by
  have h₁ : c :: '*' :: re ≠ ['$'] := by simp
  have h₂ : '*' :: re ≠ ['$'] := by simp
  have ha : atoms (stripEnd (c :: '*' :: re)) = .star c :: atoms (stripEnd re) := by
    rw [stripEnd_cons h₁, stripEnd_cons h₂, atoms]
  simp only [Here, ha, rem_star, getLast?_cons_dollar h₁, getLast?_cons_dollar h₂]
  constructor
  · rintro ⟨r, ⟨k, hall, hr⟩, he⟩
    exact ⟨k, hall, r, hr, he⟩
  · rintro ⟨k, hall, r, hr, he⟩
    exact ⟨r, ⟨k, hall, hr⟩, he⟩

lemma here_one (hd : re.head? ≠ some '*') (hc : c :: re ≠ ['$']) :
    Here (c :: re) text ↔ ∃ t text', text = t :: text' ∧ AtomChar c t ∧ Here re text' := by
  simp only [Here, stripEnd_cons hc, atoms_cons_one (head?_stripEnd hd), rem_one, getLast?_cons_dollar hc]
  constructor
  · rintro ⟨r, ⟨t, s', rfl, ht, hr⟩, he⟩
    exact ⟨t, s', rfl, ht, r, hr, he⟩
  · rintro ⟨t, s', rfl, ht, r, hr, he⟩
    exact ⟨r, ⟨t, s', rfl, ht, hr⟩, he⟩

end Pattern

/-! ### The matcher decides the language -/

section Matcher

variable {c : Char}

lemma atomChar_iff_star {t : Char} : (t == c || c == '.') = true ↔ AtomChar c t := by
  simp only [AtomChar, Bool.or_eq_true, beq_iff_eq, @eq_comm _ t c]
  exact Or.comm

lemma atomChar_iff_here {t : Char} : (c == '.' || c == t) = true ↔ AtomChar c t := by
  simp [AtomChar]

lemma matchstar_iff {here : List Char → Bool} : ∀ {text : List Char},
    matchstar c here text = true ↔ ∃ k, (∀ t ∈ text.take k, AtomChar c t) ∧ here (text.drop k) = true
  | [] => by
    rw [matchstar]
    constructor
    · intro h
      exact ⟨0, by simp, h⟩
    · rintro ⟨k, -, hk⟩
      simpa using hk
  | t :: text => by
    rw [matchstar, Bool.or_eq_true, Bool.and_eq_true, atomChar_iff_star, matchstar_iff]
    constructor
    · rintro (h | ⟨hc, k, hall, hk⟩)
      · exact ⟨0, by simp, h⟩
      · refine ⟨k + 1, ?_, by simpa using hk⟩
        simpa [List.take_succ_cons] using ⟨hc, hall⟩
    · rintro ⟨k, hall, hk⟩
      cases k with
      | zero => exact .inl hk
      | succ k =>
        simp only [List.take_succ_cons, List.mem_cons, forall_eq_or_imp] at hall
        exact .inr ⟨hall.1, k, hall.2, by simpa using hk⟩

/-- `matchhere(re, text)` decides `Here re text`; the cases are `matchhere`'s own. -/
theorem matchhere_iff : ∀ (re text : List Char), matchhere re text = true ↔ Here re text
  | [], text => by simp [matchhere, here_nil]
  | [c], text => by
    by_cases hc : c = '$'
    · subst hc
      simp [matchhere, here_dollar]
    · have hne : [c] ≠ ['$'] := by simpa using hc
      rw [here_one (by simp) hne]
      cases text with
      | nil => simp [matchhere, hc]
      | cons t text => simp [matchhere, hc, here_nil, AtomChar]
  | c :: d :: re, text => by
    by_cases hd : d = '*'
    · subst hd
      simp only [matchhere, matchstar_iff, here_star, matchhere_iff re]
    · have hne : c :: d :: re ≠ ['$'] := by simp
      rw [here_one (by simpa using hd) hne]
      cases text with
      | nil => simp [matchhere, hd]
      | cons t text =>
        rw [matchhere.eq_4 _ _ _ _ (by simp [hd]) (by simp), Bool.and_eq_true, atomChar_iff_here,
          matchhere_iff (d :: re) text]
        simp

variable {re : List Char}

lemma matchLoop_iff : ∀ {text : List Char}, matchLoop re text = true ↔ ∃ u w, text = u ++ w ∧ Here re w
  | [] => by
    rw [matchLoop, matchhere_iff]
    constructor
    · intro h
      exact ⟨[], [], rfl, h⟩
    · rintro ⟨u, w, h, hw⟩
      obtain ⟨-, rfl⟩ := List.append_eq_nil_iff.mp h.symm
      exact hw
  | t :: text => by
    rw [matchLoop, Bool.or_eq_true, matchhere_iff, matchLoop_iff]
    constructor
    · rintro (h | ⟨u, w, rfl, hw⟩)
      · exact ⟨[], _, rfl, h⟩
      · exact ⟨t :: u, w, rfl, hw⟩
    · rintro ⟨u, w, h, hw⟩
      cases u with
      | nil => exact .inl (h ▸ hw)
      | cons a u =>
        obtain ⟨-, rfl⟩ := List.cons.inj h
        exact .inr ⟨u, w, rfl, hw⟩

lemma matchRe_eq (text : List Char) :
    matchRe re text = if re.head? = some '^' then matchhere (stripStart re) text else matchLoop (stripStart re) text := by
  rcases re with _ | ⟨a, re⟩
  · rfl
  · by_cases ha : a = '^'
    · subst ha
      rfl
    · simp [matchRe, stripStart, ha]

/-- `match(re, text)` returns 1 exactly when a substring of `text` is in the language of the
pattern's atoms, a prefix for a leading `^` and a suffix for a trailing `$`. -/
theorem matchRe_iff_accepts (re text : List Char) : matchRe re text = true ↔ Accepts re text := by
  rw [matchRe_eq]
  by_cases hs : re.head? = some '^'
  · rw [if_pos hs, matchhere_iff]
    constructor
    · rintro ⟨r, ⟨v, rfl, hv⟩, he⟩
      exact ⟨[], v, r, rfl, hv, fun _ => rfl, he⟩
    · rintro ⟨u, v, w, rfl, hv, hu, hw⟩
      obtain rfl := hu hs
      exact ⟨w, ⟨v, rfl, hv⟩, hw⟩
  · rw [if_neg hs, matchLoop_iff]
    constructor
    · rintro ⟨u, w, rfl, r, ⟨v, rfl, hv⟩, he⟩
      exact ⟨u, v, r, by rw [List.append_assoc], hv, fun h => absurd h hs, he⟩
    · rintro ⟨u, v, w, rfl, hv, -, hw⟩
      exact ⟨u, v ++ w, List.append_assoc u v w, w, ⟨v, rfl, hv⟩, hw⟩

end Matcher

/-! ### The read loop -/

/-- `strchr(s, c)`: the index of the first `c` before a NUL. -/
def strchr (s : List Char) (c : Char) : Option ℕ :=
  match s with
  | [] => none
  | a :: s => if a = '\x00' then none else if a = c then some 0 else (strchr s c).map (· + 1)

/-- The inner loop `while((q = strchr(p, '\n')) != 0)` over the bytes from `p`, for at most `fuel`
rounds: what it writes and how far it moves `p`. -/
def lines (pattern : List Char) : ℕ → List Char → List Char × ℕ
  | 0, _ => ([], 0)
  | fuel + 1, p =>
    match strchr p '\n' with
    | none => ([], 0)
    | some q =>
      -- `*q = 0; if(match(pattern, p)){ *q = '\n'; write(1, p, q+1 - p); } p = q+1;`
      let out := if matchRe pattern (p.take q) then p.take (q + 1) else []
      let (w, k) := lines pattern fuel (p.drop (q + 1))
      (out ++ w, q + 1 + k)

/-- One pass of the outer loop once `read` put `chunk` after the `m` bytes `buf` kept: what it
writes and the bytes it keeps. -/
def grepRound (pattern buf chunk : List Char) : List Char × List Char :=
  let buf := buf ++ chunk
  let (w, p) := lines pattern (buf.length + 1) buf
  -- `if(p == buf) m = 0;`, and otherwise `m -= p - buf; memmove(buf, p, m);`
  (w, if p = 0 then [] else buf.drop p)

/-- `grep(pattern, fd)` when the successive `read`s return `reads` and then 0: all it writes. -/
def grep (pattern : List Char) : List (List Char) → List Char → List Char
  | [], _ => []
  | chunk :: reads, buf => (grepRound pattern buf chunk).1 ++ grep pattern reads (grepRound pattern buf chunk).2

/-- Each `read` returns at least one byte and at most the `sizeof(buf)-m-1` it asks for. -/
def ReadsFit (pattern : List Char) : List (List Char) → List Char → Prop
  | [], _ => True
  | chunk :: reads, buf =>
    0 < chunk.length ∧ chunk.length ≤ 1024 - buf.length - 1 ∧ ReadsFit pattern reads (grepRound pattern buf chunk).2

instance decReadsFit (pattern : List Char) : ∀ reads buf, Decidable (ReadsFit pattern reads buf)
  | [], _ => isTrue trivial
  | chunk :: reads, buf =>
    have := decReadsFit pattern reads (grepRound pattern buf chunk).2
    inferInstanceAs (Decidable (_ ∧ _ ∧ _))

/-- The newline-terminated lines of `stream` on which `match` returns 1, each with its `\n`. -/
def selected (pattern stream : List Char) : List Char :=
  (((stream.splitOn '\n').dropLast).filter (matchRe pattern)).flatMap (· ++ ['\n'])

/-- A line split over two reads, the first without its newline: `grep` drops the first part, where
one read of the whole line writes it. -/
theorem grep_drops_split_line :
    ReadsFit "ab".toList [['a'], ['b', '\n']] [] ∧ grep "ab".toList [['a'], ['b', '\n']] [] = [] ∧
      grep "ab".toList [['a', 'b', '\n']] [] = ['a', 'b', '\n'] ∧ selected "ab".toList ['a', 'b', '\n'] = ['a', 'b', '\n'] := by
  decide

end Xv6Net.User.Grep
