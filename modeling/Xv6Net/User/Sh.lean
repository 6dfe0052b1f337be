import Mathlib.Data.List.Basic

/-! The command-line parser of `sh.c`: `gettoken`, `peek`, the recursive descent `parseline`,
`parsepipe`, `parseexec`, `parseblock` and `parseredirs`, `parsecmd`'s check for leftovers, and
`nulterminate`. The line is the text before its NUL, of length `n` (so `es` is position `n`); the
cursor `*ps` is the rest of the line from it, at position `n - s.length`. A panic is an error; the
mutually recursive functions run on `fuel`. -/

namespace Xv6Net.User.Sh

def whitespace : List Char := [' ', '\t', '\r', '\n', '\x0b']
def symbols : List Char := ['<', '|', '>', '&', ';', '(', ')']

def MAXARGS : ℕ := 10

def O_RDONLY : ℕ := 0x000
def O_WRONLY : ℕ := 0x001
def O_CREATE : ℕ := 0x200

/-- `struct execcmd`, `redircmd`, `pipecmd`, `listcmd` and `backcmd`, with the words of type `α`:
the positions of a word's first byte and of the byte after it, or the text there. -/
inductive Cmd (α : Type) where
  | exec (argv : List α)
  | redir (cmd : Cmd α) (file : α) (mode fd : ℕ)
  | pipe (left right : Cmd α)
  | list (left right : Cmd α)
  | back (cmd : Cmd α)
  deriving DecidableEq, Repr

def Cmd.map {α β : Type} (f : α → β) : Cmd α → Cmd β
  | .exec argv => .exec (argv.map f)
  | .redir c file mode fd => .redir (c.map f) (f file) mode fd
  | .pipe l r => .pipe (l.map f) (r.map f)
  | .list l r => .list (l.map f) (r.map f)
  | .back c => .back (c.map f)

/-- The `execcmd` that `parseexec`'s redirections wrap gets its `argv` once they are all read. -/
def Cmd.setArgv {α : Type} : Cmd α → List α → Cmd α
  | .exec _, argv => .exec argv
  | .redir c file mode fd, argv => .redir (c.setArgv argv) file mode fd
  | c, _ => c

def isWhitespace (c : Char) : Bool := whitespace.contains c
def isSymbol (c : Char) : Bool := symbols.contains c

/-- A byte of a word: `!strchr(whitespace, *s) && !strchr(symbols, *s)`. -/
def isWordChar (c : Char) : Bool := !isWhitespace c && !isSymbol c

variable (n : ℕ)

/-- `gettoken(ps, es, q, eq)`: the token (`'a'` for a word, `'+'` for `>>`, `'\x00'` at the end),
`q` and `eq` around it, and `*ps` past it and the whitespace after. -/
def gettoken (s : List Char) : Char × ℕ × ℕ × List Char :=
  let s := s.dropWhile isWhitespace
  let q := n - s.length
  let (ret, s) : Char × List Char :=
    match s with
    | [] => ('\x00', [])
    | '>' :: '>' :: t => ('+', t)
    | c :: t =>
      if c ∈ ['|', '(', ')', ';', '&', '<', '>'] then (c, t)
      else ('a', (c :: t).dropWhile isWordChar)
  (ret, q, n - s.length, s.dropWhile isWhitespace)

/-- `peek(ps, es, toks)`: `*ps` past the whitespace, and whether the byte there is one of `toks`. -/
def peek (s : List Char) (toks : List Char) : List Char × Bool :=
  let s := s.dropWhile isWhitespace
  (s, match s with
    | [] => false
    | c :: _ => toks.contains c)

/-- `while(peek(ps, es, "<>"))` of `parseredirs`, wrapping `cmd` in each redirection it reads. -/
def parseredirs (cmd : Cmd (ℕ × ℕ)) : ℕ → List Char → Except String (Cmd (ℕ × ℕ) × List Char)
  | 0, _ => .error "out of fuel"
  | fuel + 1, s =>
    let (s, more) := peek s ['<', '>']
    if !more then .ok (cmd, s)
    else
      let (tok, _, _, s) := gettoken n s
      let (t, q, eq, s) := gettoken n s
      if t ≠ 'a' then .error "missing file for redirection"
      else
        let cmd := match tok with
          | '<' => .redir cmd (q, eq) O_RDONLY 0
          | '>' => .redir cmd (q, eq) (O_WRONLY ||| O_CREATE) 1
          | '+' => .redir cmd (q, eq) (O_WRONLY ||| O_CREATE) 1
          | _ => cmd
        parseredirs cmd fuel s

/-- `while(!peek(ps, es, "|)&;"))` of `parseexec`: the words go to `argv`, each followed by its
redirections. -/
def execLoop : ℕ → Cmd (ℕ × ℕ) → List (ℕ × ℕ) → List Char → Except String (Cmd (ℕ × ℕ) × List Char)
  | 0, _, _, _ => .error "out of fuel"
  | fuel + 1, ret, argv, s =>
    let (s, stop) := peek s ['|', ')', '&', ';']
    if stop then .ok (ret.setArgv argv, s)
    else
      let (tok, q, eq, s) := gettoken n s
      if tok = '\x00' then .ok (ret.setArgv argv, s)
      else if tok ≠ 'a' then .error "syntax"
      else
        let argv := argv ++ [(q, eq)]
        if MAXARGS ≤ argv.length then .error "too many args"
        else do
          let (ret, s) ← parseredirs n ret fuel s
          execLoop fuel ret argv s

/-- `while(peek(ps, es, "&"))` of `parseline`. -/
def backLoop : ℕ → Cmd (ℕ × ℕ) → List Char → Except String (Cmd (ℕ × ℕ) × List Char)
  | 0, _, _ => .error "out of fuel"
  | fuel + 1, cmd, s =>
    let (s, amp) := peek s ['&']
    if amp then backLoop fuel (.back cmd) (gettoken n s).2.2.2 else .ok (cmd, s)

mutual

def parseline : ℕ → List Char → Except String (Cmd (ℕ × ℕ) × List Char)
  | 0, _ => .error "out of fuel"
  | fuel + 1, s => do
    let (cmd, s) ← parsepipe fuel s
    let (cmd, s) ← backLoop n fuel cmd s
    let (s, semi) := peek s [';']
    if semi then
      let (right, s) ← parseline fuel (gettoken n s).2.2.2
      pure (.list cmd right, s)
    else pure (cmd, s)

def parsepipe : ℕ → List Char → Except String (Cmd (ℕ × ℕ) × List Char)
  | 0, _ => .error "out of fuel"
  | fuel + 1, s => do
    let (cmd, s) ← parseexec fuel s
    let (s, bar) := peek s ['|']
    if bar then
      let (right, s) ← parsepipe fuel (gettoken n s).2.2.2
      pure (.pipe cmd right, s)
    else pure (cmd, s)

def parseblock : ℕ → List Char → Except String (Cmd (ℕ × ℕ) × List Char)
  | 0, _ => .error "out of fuel"
  | fuel + 1, s =>
    let (s, lp) := peek s ['(']
    if !lp then .error "parseblock"
    else do
      let (cmd, s) ← parseline fuel (gettoken n s).2.2.2
      let (s, rp) := peek s [')']
      if !rp then .error "syntax - missing )"
      else parseredirs n cmd fuel (gettoken n s).2.2.2

def parseexec : ℕ → List Char → Except String (Cmd (ℕ × ℕ) × List Char)
  | 0, _ => .error "out of fuel"
  | fuel + 1, s =>
    let (s, lp) := peek s ['(']
    if lp then parseblock fuel s
    else do
      let (ret, s) ← parseredirs n (.exec []) fuel s
      execLoop n fuel ret [] s

end

/-- `nulterminate(cmd)`: a NUL after every word, written into the line. -/
def nulterminate : Cmd (ℕ × ℕ) → List Char → List Char
  | .exec argv, buf => argv.foldl (fun buf w => buf.set w.2 '\x00') buf
  | .redir c file _ _, buf => (nulterminate c buf).set file.2 '\x00'
  | .pipe l r, buf => nulterminate r (nulterminate l buf)
  | .list l r, buf => nulterminate r (nulterminate l buf)
  | .back c, buf => nulterminate c buf

/-- `parsecmd(s)`: the command and the line after `nulterminate`; a panic when the line does not
parse or has leftovers. -/
def parsecmd (s : List Char) : Except String (Cmd (ℕ × ℕ) × List Char) := do
  let (cmd, rest) ← parseline s.length (4 * s.length + 4) s
  if (peek rest []).1 ≠ [] then .error "syntax"
  else pure (cmd, nulterminate cmd s)

/-- The string a word's pointer reads, up to the first NUL. -/
def cstrAt (buf : List Char) (q : ℕ) : List Char := (buf.drop q).takeWhile (· != '\x00')

end Xv6Net.User.Sh
