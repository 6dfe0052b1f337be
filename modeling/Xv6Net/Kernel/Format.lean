import Mathlib
import Xv6Net.Kernel.Printint

/-! The two format interpreters: `cprintf` of `console.c`, whose loop steps its index past the
character after a `%`, and `printf` of `printf.c`, a two-state machine over the characters. Both
read a format as a list of pieces, literal bytes and `%` conversions (`pieces`), and `cprintf_pieces`
and `printf_pieces` say each loop renders those pieces. On every format without a `%c`, and with
the same digit table, the two print the same bytes. -/

namespace Xv6Net.Kernel.Format

open Xv6Net.Kernel.Printint

/-- The `uint` words after `fmt` on the stack, and the string at each address: its bytes before the
NUL. -/
structure Varargs where
  word : ℕ → UInt32
  str : UInt32 → List UInt8

def bytesOf (s : String) : List UInt8 := s.toList.map Char.toUInt8

section Cprintf

variable (digits : List Char) (va : Varargs)

/-- The `consputc` calls of the `switch` of `cprintf` on the character `c` after a `%`, `argp` at
word `k`, and the word `argp` is left at. -/
def cprintfConv (c : UInt8) (k : ℕ) : List ℤ × ℕ :=
  if c = 'd'.toUInt8 then ((printintWith digits (va.word k).toInt32 10 true).map fun ch => (ch.toNat : ℤ), k + 1)
  else if c = 'x'.toUInt8 ∨ c = 'p'.toUInt8 then
    ((printintWith digits (va.word k).toInt32 16 false).map fun ch => (ch.toNat : ℤ), k + 1)
  else if c = 's'.toUInt8 then
    let s := va.word k
    let s := if s = 0 then bytesOf "(null)" else va.str s
    -- `consputc(*s)` passes each `char` sign-extended
    (s.map fun b => b.toInt8.toInt, k + 1)
  else if c = '%'.toUInt8 then (['%'.toNat], k)
  -- an unknown conversion is printed as it stands
  else (['%'.toNat, c.toNat], k)

/-- The loop of `cprintf` over the bytes of `fmt` before its NUL. -/
def cprintfLoop : List UInt8 → ℕ → List ℤ
  | [], _ => []
  | c :: fmt, k =>
    if c ≠ '%'.toUInt8 then (c.toNat : ℤ) :: cprintfLoop fmt k
    else match fmt with
      -- the byte after the `%` is the NUL: `break`
      | [] => []
      | c :: fmt => (cprintfConv digits va c k).1 ++ cprintfLoop fmt (cprintfConv digits va c k).2

end Cprintf

/-- `cprintf(fmt, ...)`: the `consputc` calls it makes; `cons.lock` is left out. -/
def cprintf (va : Varargs) (fmt : UInt32) : Except String (List ℤ) :=
  if fmt = 0 then .error "null fmt" else .ok (cprintfLoop consoleDigits va (va.str fmt) 0)

/-- `state` of `printf`: 0, or `'%'` after a `%`. -/
inductive PState where
  | plain
  | pct
  deriving DecidableEq, Repr

section Printf

variable (digits : List Char) (fd : ℕ) (va : Varargs)

/-- The `putc(fd, c)` calls of `printf` on the character `c` in state `'%'`, `ap` at word `k`, and
the word `ap` is left at. -/
def printfConv (c : UInt8) (k : ℕ) : List (ℕ × UInt8) × ℕ :=
  if c = 'd'.toUInt8 then ((printintWith digits (va.word k).toInt32 10 true).map fun ch => (fd, ch.toUInt8), k + 1)
  else if c = 'x'.toUInt8 ∨ c = 'p'.toUInt8 then
    ((printintWith digits (va.word k).toInt32 16 false).map fun ch => (fd, ch.toUInt8), k + 1)
  else if c = 's'.toUInt8 then
    let s := va.word k
    let s := if s = 0 then bytesOf "(null)" else va.str s
    (s.map fun b => (fd, b), k + 1)
  else if c = 'c'.toUInt8 then ([(fd, (va.word k).toUInt8)], k + 1)
  else if c = '%'.toUInt8 then ([(fd, c)], k)
  else ([(fd, '%'.toUInt8), (fd, c)], k)

def printfLoop : List UInt8 → PState → ℕ → List (ℕ × UInt8)
  | [], _, _ => []
  | c :: fmt, .plain, k =>
    if c = '%'.toUInt8 then printfLoop fmt .pct k else (fd, c) :: printfLoop fmt .plain k
  | c :: fmt, .pct, k => (printfConv digits fd va c k).1 ++ printfLoop fmt .plain (printfConv digits fd va c k).2

end Printf

/-- `printf(fd, fmt, ...)`: the `putc(fd, c)` calls it makes. -/
def printf (fd : ℕ) (va : Varargs) (fmt : UInt32) : List (ℕ × UInt8) :=
  printfLoop printfDigits fd va (va.str fmt) .plain 0

/-! ### The pieces of a format -/

/-- A literal byte, or a `%` with its conversion character. -/
inductive Piece where
  | lit (b : UInt8)
  | conv (c : UInt8)
  deriving DecidableEq, Repr

/-- The pieces of a format; a `%` at its end is none. -/
def pieces : List UInt8 → List Piece
  | [] => []
  | b :: fmt =>
    if b ≠ '%'.toUInt8 then .lit b :: pieces fmt
    else match fmt with
      | [] => []
      | c :: fmt => .conv c :: pieces fmt

/-- The output of the pieces: `lit` of each literal byte, and `conv c k` for a conversion `c` with
the arguments at word `k`, which gives its output and the word after its arguments. -/
def render {β : Type} (lit : UInt8 → β) (conv : UInt8 → ℕ → List β × ℕ) : List Piece → ℕ → List β
  | [], _ => []
  | .lit b :: ps, k => lit b :: render lit conv ps k
  | .conv c :: ps, k => (conv c k).1 ++ render lit conv ps (conv c k).2

section Render

variable {β γ : Type} {lit : UInt8 → β} {conv : UInt8 → ℕ → List β × ℕ}

lemma render_map {lit' : UInt8 → γ} {conv' : UInt8 → ℕ → List γ × ℕ} (f : β → γ)
    (hlit : ∀ b, lit' b = f (lit b)) :
    ∀ (ps : List Piece) (k : ℕ), (∀ c, .conv c ∈ ps → ∀ k, conv' c k = ((conv c k).1.map f, (conv c k).2)) →
      render lit' conv' ps k = (render lit conv ps k).map f
  | [], _, _ => rfl
  | .lit b :: ps, k, h => by
    rw [render, render, List.map_cons, hlit, render_map f hlit ps k fun c hc => h c (List.mem_cons_of_mem _ hc)]
  | .conv c :: ps, k, h => by
    rw [render, render, h c List.mem_cons_self k, List.map_append,
      render_map f hlit ps _ fun c hc => h c (List.mem_cons_of_mem _ hc)]

lemma mem_render {P : β → Prop} (hlit : ∀ b, P (lit b)) (hconv : ∀ c k, ∀ x ∈ (conv c k).1, P x) :
    ∀ (ps : List Piece) (k : ℕ), ∀ x ∈ render lit conv ps k, P x
  | [], _, _, hx => absurd hx List.not_mem_nil
  | .lit b :: ps, k, x, hx => by
    rw [render, List.mem_cons] at hx
    rcases hx with rfl | hx
    exacts [hlit b, mem_render hlit hconv ps k x hx]
  | .conv c :: ps, k, x, hx => by
    rw [render, List.mem_append] at hx
    rcases hx with hx | hx
    exacts [hconv c k x hx, mem_render hlit hconv ps _ x hx]

end Render

lemma pieces_cons_lit {c : UInt8} (hc : c ≠ '%'.toUInt8) (fmt : List UInt8) :
    pieces (c :: fmt) = .lit c :: pieces fmt := by
  cases fmt <;> simp [pieces, hc]

lemma cprintfLoop_eq (digits : List Char) (va : Varargs) :
    ∀ (fmt : List UInt8) (k : ℕ),
      cprintfLoop digits va fmt k = render (fun b => (b.toNat : ℤ)) (cprintfConv digits va) (pieces fmt) k
  | [], _ => rfl
  | c :: fmt, k => by
    by_cases hc : c = '%'.toUInt8
    · cases fmt with
      | nil =>
        rw [cprintfLoop, pieces]
        simp [hc, render]
      | cons c' fmt =>
        rw [cprintfLoop, pieces]
        simp [hc, render, cprintfLoop_eq digits va fmt]
    · have hstep : cprintfLoop digits va (c :: fmt) k = (c.toNat : ℤ) :: cprintfLoop digits va fmt k := by
        cases fmt <;> simp [cprintfLoop, hc]
      rw [hstep, pieces_cons_lit hc, render, cprintfLoop_eq digits va fmt k]

/-- The bytes of the format that the state stands for: the `%` seen last. -/
def PState.pending : PState → List UInt8
  | .plain => []
  | .pct => ['%'.toUInt8]

lemma printfLoop_eq (digits : List Char) (fd : ℕ) (va : Varargs) :
    ∀ (fmt : List UInt8) (st : PState) (k : ℕ), printfLoop digits fd va fmt st k =
      render (fun b => (fd, b)) (printfConv digits fd va) (pieces (st.pending ++ fmt)) k
  | [], .plain, _ => rfl
  | [], .pct, _ => rfl
  | c :: fmt, .plain, k => by
    by_cases hc : c = '%'.toUInt8
    · rw [printfLoop, if_pos hc, printfLoop_eq digits fd va fmt .pct k, hc]
      rfl
    · rw [printfLoop, if_neg hc, printfLoop_eq digits fd va fmt .plain k]
      simp [PState.pending, pieces_cons_lit hc, render]
  | c :: fmt, .pct, k => by
    rw [printfLoop, printfLoop_eq digits fd va fmt .plain _]
    simp [PState.pending, pieces, render]

/-! ### The bytes of the two outputs -/

lemma ofInt_toNat (b : UInt8) : UInt8.ofInt (b.toNat : ℤ) = b := by
  apply UInt8.toNat_inj.mp
  simp only [UInt8.ofInt, UInt8.toNat_ofNat']
  have := b.toNat_lt
  omega

lemma ofInt_toInt8 (b : UInt8) : UInt8.ofInt b.toInt8.toInt = b := by
  have h : b.toInt8.toInt = b.toBitVec.toInt := rfl
  rw [h, BitVec.toInt_eq_toNat_cond]
  apply UInt8.toNat_inj.mp
  simp only [UInt8.ofInt, UInt8.toNat_ofNat', UInt8.toNat_toBitVec]
  have := b.toNat_lt
  split_ifs <;> omega

lemma ofInt_charToNat (c : Char) : UInt8.ofInt (c.toNat : ℤ) = c.toUInt8 := by
  apply UInt8.toNat_inj.mp
  have h : c.toUInt8.toNat = c.toNat % 2 ^ 8 := UInt32.toNat_toUInt8 c.val
  simp only [UInt8.ofInt, UInt8.toNat_ofNat', h]
  omega

lemma ofInt_pct : UInt8.ofInt 37 = '%'.toUInt8 := by decide

lemma printfConv_eq (digits : List Char) (fd : ℕ) (va : Varargs) {c : UInt8} (hc : c ≠ 'c'.toUInt8) (k : ℕ) :
    printfConv digits fd va c k =
      ((cprintfConv digits va c k).1.map fun z => (fd, UInt8.ofInt z), (cprintfConv digits va c k).2) := by
  unfold printfConv cprintfConv
  split_ifs <;> simp_all [ofInt_toNat, ofInt_toInt8, ofInt_charToNat, ofInt_pct, Function.comp_def]

/-! ### What `cprintf` passes to `consputc` -/

lemma getD_mem_or {l : List Char} (i : ℕ) (d : Char) : l.getD i d ∈ l ∨ l.getD i d = d := by
  rw [List.getD_eq_getElem?_getD]
  cases h : l[i]? with
  | none => exact Or.inr rfl
  | some ch => exact Or.inl (List.mem_of_getElem? h)

lemma mem_digitLoop {P : Char → Prop} {digits : List Char} (hd : ∀ ch ∈ digits, P ch) (h0 : P '\x00') (base : ℕ) :
    ∀ (fuel x : ℕ) (buf : List Char), (∀ ch ∈ buf, P ch) → ∀ ch ∈ digitLoop digits base fuel x buf, P ch
  | 0, _, _, hb => hb
  | fuel + 1, x, buf, hb => by
    -- the digit appended in this round is one of `digits`, or the `getD` default
    have hb' : ∀ ch ∈ buf ++ [digits.getD (x % base) '\x00'], P ch := by
      intro ch hch
      rcases List.mem_append.mp hch with hch | hch
      · exact hb ch hch
      · rw [List.mem_singleton.mp hch]
        rcases getD_mem_or (l := digits) (x % base) '\x00' with hm | hm
        · exact hd _ hm
        · rw [hm]
          exact h0
    unfold digitLoop
    split_ifs
    exacts [mem_digitLoop hd h0 base fuel _ _ hb', hb']

lemma mem_printintWith {P : Char → Prop} {digits : List Char} (hd : ∀ ch ∈ digits, P ch) (h0 : P '\x00')
    (hneg : P '-') (xx : Int32) (base : ℕ) (sign : Bool) : ∀ ch ∈ printintWith digits xx base sign, P ch := by
  intro ch hch
  rw [printintWith, List.mem_reverse, printintBuf] at hch
  have hloop : ∀ x, ∀ ch ∈ digitLoop digits base 32 x [], P ch :=
    fun x => mem_digitLoop hd h0 base 32 x [] fun _ h => absurd h List.not_mem_nil
  split_ifs at hch
  · rcases List.mem_append.mp hch with hch | hch
    · exact hloop _ ch hch
    · rw [List.mem_singleton.mp hch]
      exact hneg
  · exact hloop _ ch hch

lemma consoleDigits_lt : ∀ ch ∈ consoleDigits, ch.toNat < 256 := by
  rw [show consoleDigits = ['0', '1', '2', '3', '4', '5', '6', '7', '8', '9', 'a', 'b', 'c', 'd', 'e', 'f'] from rfl]
  simp only [List.forall_mem_cons, List.not_mem_nil, false_imp_iff, forall_const, and_true]
  refine ⟨?_, ?_, ?_, ?_, ?_, ?_, ?_, ?_, ?_, ?_, ?_, ?_, ?_, ?_, ?_, ?_⟩ <;> decide

lemma cprintfLoop_lt (va : Varargs) (fmt : List UInt8) (k : ℕ) :
    ∀ z ∈ cprintfLoop consoleDigits va fmt k, z < 256 := by
  rw [cprintfLoop_eq]
  refine mem_render (fun b => by have := b.toNat_lt; omega) (fun c k z hz => ?_) _ _
  have hpr : ∀ xx base sign, ∀ ch ∈ printintWith consoleDigits xx base sign, ch.toNat < 256 :=
    mem_printintWith consoleDigits_lt (by decide) (by decide)
  unfold cprintfConv at hz
  split_ifs at hz
  · obtain ⟨ch, hch, rfl⟩ := List.mem_map.mp hz
    exact_mod_cast hpr _ _ _ ch hch
  · obtain ⟨ch, hch, rfl⟩ := List.mem_map.mp hz
    exact_mod_cast hpr _ _ _ ch hch
  · obtain ⟨b, -, rfl⟩ := List.mem_map.mp hz
    have := b.toInt8.toInt_lt
    omega
  · rw [List.mem_singleton.mp hz]
    decide
  · have := c.toNat_lt
    simp only [List.mem_cons, List.not_mem_nil, or_false] at hz
    rcases hz with rfl | rfl
    · decide
    · omega

theorem printf_agrees_with_cprintf (digits : List Char) (fd : ℕ) (va : Varargs) (fmt : List UInt8)
    (hc : Piece.conv 'c'.toUInt8 ∉ pieces fmt) (k : ℕ) :
    printfLoop digits fd va fmt .plain k = (cprintfLoop digits va fmt k).map fun z => (fd, UInt8.ofInt z) := by
  rw [printfLoop_eq, cprintfLoop_eq]
  refine render_map _ (fun b => by simp [ofInt_toNat]) _ _ fun c hmem k => printfConv_eq digits fd va ?_ k
  rintro rfl
  exact hc hmem

theorem pid_line_agrees :
    printfLoop printfDigits 1 ⟨fun _ => 42, fun _ => bytesOf "init"⟩ (bytesOf "pid %d %s %x%%\n") .plain 0 =
      (cprintfLoop printfDigits ⟨fun _ => 42, fun _ => bytesOf "init"⟩ (bytesOf "pid %d %s %x%%\n") 0).map
        fun z => (1, UInt8.ofInt z) :=
  printf_agrees_with_cprintf _ _ _ _ (by decide +kernel) 0

end Xv6Net.Kernel.Format
