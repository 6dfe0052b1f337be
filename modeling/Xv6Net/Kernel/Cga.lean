import Mathlib
import Xv6Net.Kernel.Format

/-! The console's output (console.c, uart.c): `cgaputc` writes a character into the CGA text memory
at the cursor that registers 14 and 15 of the CRT controller hold, and scrolls up once the cursor
reaches row 24; `consputc` also sends the character to the serial port. From any cursor on the
80×25 screen, every sequence of `consputc` calls keeps the cursor on the screen, never reaches the
`pos under/overflow` panic, writes only screen cells, and sends the serial port each character,
a backspace as `\b \b`. -/

namespace Xv6Net.Kernel.Cga

def BACKSPACE : ℤ := 0x100

/-- The CGA text memory at `crt`, in `ushort` cells, and the cursor location registers 14 and 15 of
the CRT controller. -/
structure Screen where
  crt : ℤ → UInt16
  hi : UInt8
  lo : UInt8

/-- `pos = inb(CRTPORT+1) << 8; pos |= inb(CRTPORT+1);` after selecting registers 14 and 15. -/
def cursor (s : Screen) : ℤ := ((s.hi.toNat <<< 8 ||| s.lo.toNat : ℕ) : ℤ)

/-- The cursor after the character `c` at `pos`, and the cells with it written. -/
def put (c pos : ℤ) (crt : ℤ → UInt16) : ℤ × (ℤ → UInt16) :=
  if c = ('\n'.toNat : ℤ) then (pos + 80 - pos % 80, crt)
  else if c = BACKSPACE then (if pos > 0 then pos - 1 else pos, crt)
  -- `(c&0xff) | 0x0700`: black on white
  else (pos + 1, Function.update crt pos (UInt16.ofInt (c % 256) ||| 0x0700))

/-- `memmove(crt, crt+80, sizeof(crt[0])*23*80)`. -/
def scroll (crt : ℤ → UInt16) : ℤ → UInt16 := fun i => if 0 ≤ i ∧ i < 23 * 80 then crt (i + 80) else crt i

/-- `memset(crt+pos, 0, sizeof(crt[0])*(24*80 - pos))`, whose byte count is a `uint`. -/
def clear (crt : ℤ → UInt16) (pos : ℤ) : ℤ → UInt16 :=
  let n : ℤ := 2 * (24 * 80 - pos) % 2 ^ 32
  fun i => if pos ≤ i ∧ 2 * (i - pos) < n then 0 else crt i

/-- The scroll of `cgaputc` once the cursor is in row 24: up one row, and the cursor with it. -/
def scrollUp (p : ℤ × (ℤ → UInt16)) : ℤ × (ℤ → UInt16) :=
  if p.1 / 80 ≥ 24 then (p.1 - 80, clear (scroll p.2) (p.1 - 80)) else p

def cgaputc (c : ℤ) (s : Screen) : Except String Screen :=
  let p := put c (cursor s) s.crt
  if p.1 < 0 ∨ p.1 > 25 * 80 then .error "pos under/overflow"
  else
    let q := scrollUp p
    .ok ⟨Function.update q.2 q.1 (UInt16.ofNat ' '.toNat ||| 0x0700), UInt8.ofInt (q.1 >>> (8 : ℕ)), UInt8.ofInt q.1⟩

/-- Whether there is a serial port (`uart`), and the bytes sent to it. -/
structure Uart where
  present : Bool
  sent : List UInt8

/-- `uartputc(c)`; its wait for the transmitter, at most 128 polls of the line status, is left out. -/
def uartputc (c : ℤ) (u : Uart) : Uart :=
  if !u.present then u else { u with sent := u.sent ++ [UInt8.ofInt c] }

structure Console where
  screen : Screen
  uart : Uart
  panicked : Bool

/-- The serial output of `consputc(c)`. -/
def uartOut (c : ℤ) (u : Uart) : Uart :=
  if c = BACKSPACE then uartputc ('\x08'.toNat) (uartputc (' '.toNat) (uartputc ('\x08'.toNat) u))
  else uartputc c u

/-- `consputc(c)`; `none` after a panic, where it spins with interrupts off. -/
def consputc (c : ℤ) (s : Console) : Option (Except String Console) :=
  if s.panicked then none
  else some ((cgaputc c s.screen).map fun screen => { s with screen, uart := uartOut c s.uart })

/-- The `consputc` calls of `cprintf` one after another. -/
def consputcs : List ℤ → Console → Option (Except String Console)
  | [], s => some (.ok s)
  | c :: cs, s =>
    match consputc c s with
    | some (.ok s') => consputcs cs s'
    | r => r

/-! ### The cursor and the cells -/

lemma cursor_eq (s : Screen) : cursor s = s.hi.toNat * 256 + s.lo.toNat := by
  have hlo : s.lo.toNat < 2 ^ 8 := s.lo.toNat_lt
  rw [cursor, ← Nat.shiftLeft_add_eq_or_of_lt hlo, Nat.shiftLeft_eq]
  push_cast
  ring

lemma cursor_nonneg (s : Screen) : 0 ≤ cursor s := by
  rw [cursor_eq]
  positivity

lemma cursor_regs (crt : ℤ → UInt16) {q : ℤ} (h0 : 0 ≤ q) (h1 : q < 2 ^ 16) :
    cursor ⟨crt, UInt8.ofInt (q >>> (8 : ℕ)), UInt8.ofInt q⟩ = q := by
  rw [cursor_eq]
  dsimp only
  rw [Int.shiftRight_eq_div_pow]
  simp only [UInt8.ofInt, UInt8.toNat_ofNat']
  omega

lemma put_bound (c : ℤ) {pos : ℤ} (h0 : 0 ≤ pos) (h1 : pos < 25 * 80) (crt : ℤ → UInt16) :
    0 ≤ (put c pos crt).1 ∧ (put c pos crt).1 ≤ 25 * 80 := by
  unfold put
  split_ifs <;> omega

lemma put_frame (c pos : ℤ) (crt : ℤ → UInt16) {i : ℤ} (hi : i ≠ pos) : (put c pos crt).2 i = crt i := by
  unfold put
  split_ifs <;> simp [Function.update_of_ne hi]

lemma scroll_frame (crt : ℤ → UInt16) {i : ℤ} (hi : i < 0 ∨ 23 * 80 ≤ i) : scroll crt i = crt i := by
  unfold scroll
  rw [if_neg (by omega)]

lemma clear_frame (crt : ℤ → UInt16) {pos : ℤ} (h0 : 0 ≤ pos) (h1 : pos ≤ 24 * 80) {i : ℤ}
    (hi : i < pos ∨ 24 * 80 ≤ i) : clear crt pos i = crt i := by
  have hn : 2 * (24 * 80 - pos) % 2 ^ 32 = 2 * (24 * 80 - pos) := Int.emod_eq_of_lt (by omega) (by omega)
  unfold clear
  rw [hn, if_neg (by omega)]

lemma scrollUp_bound {p : ℤ × (ℤ → UInt16)} (h0 : 0 ≤ p.1) (h1 : p.1 ≤ 25 * 80) :
    0 ≤ (scrollUp p).1 ∧ (scrollUp p).1 ≤ 24 * 80 := by
  unfold scrollUp
  split_ifs <;> omega

lemma scrollUp_frame {p : ℤ × (ℤ → UInt16)} (h0 : 0 ≤ p.1) (h1 : p.1 ≤ 25 * 80) {i : ℤ} (hi : i < 0 ∨ 24 * 80 ≤ i) :
    (scrollUp p).2 i = p.2 i := by
  unfold scrollUp
  split_ifs with hs
  · dsimp only
    rw [clear_frame _ (by omega) (by omega) (by omega), scroll_frame _ (by omega)]
  · rfl

lemma cgaputc_on_screen (c : ℤ) {s : Screen} (h : cursor s < 25 * 80) :
    ∃ s', cgaputc c s = .ok s' ∧ cursor s' ≤ 24 * 80 ∧ ∀ i, (i < 0 ∨ 25 * 80 ≤ i) → s'.crt i = s.crt i := by
  obtain ⟨hp0, hp1⟩ := put_bound c (cursor_nonneg s) h s.crt
  have hfr : ∀ i, i ≠ cursor s → (put c (cursor s) s.crt).2 i = s.crt i := fun i hi => put_frame c _ _ hi
  obtain ⟨p, hp⟩ : ∃ p, put c (cursor s) s.crt = p := ⟨_, rfl⟩
  rw [hp] at hp0 hp1 hfr
  obtain ⟨hq0, hq1⟩ := scrollUp_bound hp0 hp1
  refine ⟨⟨Function.update (scrollUp p).2 (scrollUp p).1 (UInt16.ofNat ' '.toNat ||| 0x0700),
    UInt8.ofInt ((scrollUp p).1 >>> (8 : ℕ)), UInt8.ofInt (scrollUp p).1⟩, ?_, ?_, fun i hi => ?_⟩
  · unfold cgaputc
    rw [hp, if_neg (by omega)]
  · rw [cursor_regs _ hq0 (by omega)]
    exact hq1
  · dsimp only
    rw [Function.update_of_ne (by omega), scrollUp_frame hp0 hp1 (by omega), hfr i (by have := cursor_nonneg s; omega)]

/-! ### Runs of `consputc` -/

/-- The bytes the serial port is sent for the `consputc` calls `cs`. -/
def uartBytes (cs : List ℤ) : List UInt8 :=
  cs.flatMap fun c => if c = BACKSPACE then [8, 32, 8] else [UInt8.ofInt c]

lemma consputc_on_screen (c : ℤ) {s : Console} (hp : s.panicked = false) (h : cursor s.screen < 25 * 80) :
    ∃ s', consputc c s = some (.ok s') ∧ cursor s'.screen < 25 * 80 ∧
      (∀ i, (i < 0 ∨ 25 * 80 ≤ i) → s'.screen.crt i = s.screen.crt i) ∧
      s'.uart.sent = s.uart.sent ++ (if s.uart.present then uartBytes [c] else []) ∧
      s'.uart.present = s.uart.present ∧ s'.panicked = false := by
  obtain ⟨scr, hcga, hcur, hfr⟩ := cgaputc_on_screen c h
  have hcons : consputc c s = some (.ok { s with screen := scr, uart := uartOut c s.uart }) := by
    rw [consputc, if_neg (by simp [hp]), hcga]
    rfl
  refine ⟨_, hcons, lt_of_le_of_lt hcur (by norm_num), hfr, ?_, ?_, hp⟩
  · have h8 : UInt8.ofInt 8 = 8 := by decide
    have h32 : UInt8.ofInt 32 = 32 := by decide
    by_cases hb : c = BACKSPACE <;> cases hu : s.uart.present <;> simp [uartOut, uartputc, uartBytes, hb, hu, h8, h32]
  · by_cases hb : c = BACKSPACE <;> cases hu : s.uart.present <;> simp [uartOut, uartputc, hb, hu]

lemma consputcs_ok (cs : List ℤ) {s : Console} (hp : s.panicked = false) (h : cursor s.screen < 25 * 80) :
    ∃ s', consputcs cs s = some (.ok s') ∧ cursor s'.screen < 25 * 80 ∧
      (∀ i, (i < 0 ∨ 25 * 80 ≤ i) → s'.screen.crt i = s.screen.crt i) ∧
      s'.uart.sent = s.uart.sent ++ (if s.uart.present then uartBytes cs else []) := by
  induction cs generalizing s with
  | nil => exact ⟨s, rfl, h, fun _ _ => rfl, by simp [uartBytes]⟩
  | cons c cs ih =>
    obtain ⟨s₁, h₁, hcur₁, hfr₁, hsent₁, hpres₁, hp₁⟩ := consputc_on_screen c hp h
    obtain ⟨s₂, h₂, hcur₂, hfr₂, hsent₂⟩ := ih hp₁ hcur₁
    refine ⟨s₂, by rw [consputcs, h₁]; exact h₂, hcur₂, fun i hi => (hfr₂ i hi).trans (hfr₁ i hi), ?_⟩
    rw [hsent₂, hsent₁, hpres₁]
    cases s.uart.present <;> simp [uartBytes]

lemma uartBytes_of_lt {cs : List ℤ} (h : ∀ z ∈ cs, z < 256) : uartBytes cs = cs.map UInt8.ofInt := by
  induction cs with
  | nil => rfl
  | cons c cs ih =>
    have hc : c ≠ BACKSPACE := by
      have := h c List.mem_cons_self
      unfold BACKSPACE
      omega
    rw [uartBytes, List.flatMap_cons, if_neg hc, ← uartBytes, ih fun z hz => h z (List.mem_cons_of_mem _ hz)]
    rfl

open Xv6Net.Kernel.Format Xv6Net.Kernel.Printint in
theorem cprintf_keeps_cursor_on_screen (va : Varargs) {fmt : UInt32} (hf : fmt ≠ 0) {s : Console}
    (hp : s.panicked = false) (h : cursor s.screen < 25 * 80) :
    ∃ cs s', cprintf va fmt = .ok cs ∧ consputcs cs s = some (.ok s') ∧ cursor s'.screen < 25 * 80 ∧
      (∀ i, (i < 0 ∨ 25 * 80 ≤ i) → s'.screen.crt i = s.screen.crt i) ∧
      s'.uart.sent = s.uart.sent ++ (if s.uart.present then cs.map UInt8.ofInt else []) := by
  obtain ⟨s', hrun, hcur, hfr, hsent⟩ := consputcs_ok (cprintfLoop consoleDigits va (va.str fmt) 0) hp h
  refine ⟨_, s', by rw [cprintf, if_neg hf], hrun, hcur, hfr, ?_⟩
  rw [hsent, uartBytes_of_lt (cprintfLoop_lt va _ 0)]

open Xv6Net.Kernel.Format Xv6Net.Kernel.Printint in
theorem hello_on_blank_screen : ∃ cs s', cprintf ⟨fun _ => 0, fun _ => bytesOf "hello\n"⟩ 1 = .ok cs ∧
    consputcs cs ⟨⟨fun _ => 0, 0, 0⟩, ⟨true, []⟩, false⟩ = some (.ok s') ∧ cursor s'.screen < 25 * 80 :=
  let ⟨cs, s', hc, hrun, hcur, _⟩ := cprintf_keeps_cursor_on_screen ⟨fun _ => 0, fun _ => bytesOf "hello\n"⟩
    (show (1 : UInt32) ≠ 0 by decide) (s := ⟨⟨fun _ => 0, 0, 0⟩, ⟨true, []⟩, false⟩) rfl (by decide)
  ⟨cs, s', hc, hrun, hcur⟩

end Xv6Net.Kernel.Cga
