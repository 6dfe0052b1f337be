import Mathlib
import Xv6Net.Lib.Bytes
import Xv6Net.Lib.Flags
import Xv6Net.Kernel.Console

/-! The keyboard driver of `kbd.c` and `kbd.h`. Each call of `kbdgetc` reads one scan code from the
data port and keeps the modifier keys, the lock keys and a pending `0xE0` prefix as the bits of its
static `shift`. Scan codes are read as key events: bit `0x80` marks a key going up, and the prefix
`0xE0` extends the next code to a key of its own. `kbd_shift_register`: from boot, after any run,
`shift` is exactly the encoding of the keyboard state the codes read so far describe: a modifier is
down when its last event was a press, a lock is on after an odd number of presses, and `E0ESC` is
set exactly when the last code read was the prefix. -/

namespace Xv6Net.Kernel.Kbd

open Xv6Net.Lib.Bytes Xv6Net.Lib.Flags
open Xv6Net.Kernel.Console (C)

def KBS_DIB : UInt32 := 0x01

def NO : UInt8 := 0

def SHIFT : UInt32 := (1 : UInt32) <<< 0
def CTL : UInt32 := (1 : UInt32) <<< 1
def ALT : UInt32 := (1 : UInt32) <<< 2

def CAPSLOCK : UInt32 := (1 : UInt32) <<< 3
def NUMLOCK : UInt32 := (1 : UInt32) <<< 4
def SCROLLLOCK : UInt32 := (1 : UInt32) <<< 5

def E0ESC : UInt32 := (1 : UInt32) <<< 6

def KEY_HOME : UInt8 := 0xE0
def KEY_END : UInt8 := 0xE1
def KEY_UP : UInt8 := 0xE2
def KEY_DN : UInt8 := 0xE3
def KEY_LF : UInt8 := 0xE4
def KEY_RT : UInt8 := 0xE5
def KEY_PGUP : UInt8 := 0xE6
def KEY_PGDN : UInt8 := 0xE7
def KEY_INS : UInt8 := 0xE8
def KEY_DEL : UInt8 := 0xE9

-- The `uchar` tables are indexed by `data`; `shift |= shiftcode[data]` promotes their values.
def shiftcode (data : UInt32) : UInt32 :=
  match data.toNat with
  | 0x1D => CTL
  | 0x2A => SHIFT
  | 0x36 => SHIFT
  | 0x38 => ALT
  | 0x9D => CTL
  | 0xB8 => ALT
  | _ => 0

def togglecode (data : UInt32) : UInt32 :=
  match data.toNat with
  | 0x3A => CAPSLOCK
  | 0x45 => NUMLOCK
  | 0x46 => SCROLLLOCK
  | _ => 0

/-- The designated entries the three character maps share. -/
def navKey : ℕ → Option UInt8
  | 0xC8 => some KEY_UP
  | 0xD0 => some KEY_DN
  | 0xC9 => some KEY_PGUP
  | 0xD1 => some KEY_PGDN
  | 0xCB => some KEY_LF
  | 0xCD => some KEY_RT
  | 0x97 => some KEY_HOME
  | 0xCF => some KEY_END
  | 0xD2 => some KEY_INS
  | 0xD3 => some KEY_DEL
  | _ => none

/-- A character map: its rows from `0x00`, its `KP_Enter` at `0x9C` and `KP_Div` at `0xB5`, and
the navigation keys; `NO` everywhere else. -/
def charmap (rows : List UInt8) (kpEnter kpDiv : UInt8) (data : UInt32) : UInt32 :=
  UInt8.toUInt32 <|
    match data.toNat with
    | 0x9C => kpEnter
    | 0xB5 => kpDiv
    | n => (navKey n).getD (rows.getD n NO)

-- One string for each row of eight entries of `kbd.h`, `NO` as `\x00`.
def normalRows : List UInt8 := (String.join
  ["\x00\x1b123456", "7890-=\x08\t",
   "qwertyui", "op[]\n\x00as",
   "dfghjkl;", "'`\x00\\zxcv",
   "bnm,./\x00*", "\x00 \x00\x00\x00\x00\x00\x00",
   "\x00\x00\x00\x00\x00\x00\x007", "89-456+1",
   "230.\x00\x00\x00\x00"]).toList.map Char.toUInt8

def shiftRows : List UInt8 := (String.join
  ["\x00\x1b!@#$%^", "&*()_+\x08\t",
   "QWERTYUI", "OP\x7b\x7d\n\x00AS",
   "DFGHJKL:", "\"~\x00|ZXCV",
   "BNM<>?\x00*", "\x00 \x00\x00\x00\x00\x00\x00",
   "\x00\x00\x00\x00\x00\x00\x007", "89-456+1",
   "230.\x00\x00\x00\x00"]).toList.map Char.toUInt8

def ctlRows : List UInt8 :=
  [NO, NO, NO, NO, NO, NO, NO, NO,
   NO, NO, NO, NO, NO, NO, NO, NO,
   C 'Q', C 'W', C 'E', C 'R', C 'T', C 'Y', C 'U', C 'I',
   C 'O', C 'P', NO, NO, '\r'.toUInt8, NO, C 'A', C 'S',
   C 'D', C 'F', C 'G', C 'H', C 'J', C 'K', C 'L', NO,
   NO, NO, NO, C '\\', C 'Z', C 'X', C 'C', C 'V',
   C 'B', C 'N', C 'M', NO, NO, C '/', NO, NO]

def normalmap : UInt32 → UInt32 := charmap normalRows '\n'.toUInt8 '/'.toUInt8
def shiftmap : UInt32 → UInt32 := charmap shiftRows '\n'.toUInt8 '/'.toUInt8
def ctlmap : UInt32 → UInt32 := charmap ctlRows '\r'.toUInt8 (C '/')

/-- `charcode[4] = {normalmap, shiftmap, ctlmap, ctlmap}`. -/
def charcode (i : UInt32) : UInt32 → UInt32 := [normalmap, shiftmap, ctlmap, ctlmap].getD i.toNat normalmap

/-- `if('a' <= c && c <= 'z') c += 'A' - 'a'; else if('A' <= c && c <= 'Z') c += 'a' - 'A';` -/
def capsSwap (c : UInt32) : UInt32 :=
  if 'a'.val ≤ c ∧ c ≤ 'z'.val then c + ('A'.val - 'a'.val)
  else if 'A'.val ≤ c ∧ c ≤ 'Z'.val then c + ('a'.val - 'A'.val)
  else c

/-- The end of `kbdgetc` for a pressed key: its entry in the map the modifiers choose, with the case
of a letter swapped under `CAPSLOCK`. -/
def keyChar (shift data : UInt32) : UInt32 :=
  let c := charcode (shift &&& (CTL ||| SHIFT)) data
  if shift &&& CAPSLOCK ≠ 0 then capsSwap c else c

/-- `kbdgetc()` with `st` what `inb(KBSTATP)` returns and `b` what `inb(KBDATAP)` then returns:
the value returned and the new `shift`. -/
def kbdgetc (st b : UInt8) (shift : UInt32) : ℤ × UInt32 :=
  if st.toUInt32 &&& KBS_DIB = 0 then (-1, shift)
  else
    let data := b.toUInt32
    if data = 0xE0 then (0, shift ||| E0ESC)
    else if data &&& 0x80 ≠ 0 then
      -- Key released
      let data := if shift &&& E0ESC ≠ 0 then data else data &&& 0x7F
      (0, shift &&& ~~~(shiftcode data ||| E0ESC))
    else
      -- Last character was an E0 escape; or with 0x80
      let esc := shift &&& E0ESC ≠ 0
      let data := if esc then data ||| 0x80 else data
      let shift := if esc then shift &&& ~~~E0ESC else shift
      let shift := (shift ||| shiftcode data) ^^^ togglecode data
      (signed (keyChar shift data), shift)

/-- Successive calls from `shift`, each with the status and the data byte it reads. -/
def kbdRun (l : List (UInt8 × UInt8)) (shift : UInt32) : UInt32 :=
  l.foldl (fun s x => (kbdgetc x.1 x.2 s).2) shift

/-- The scan codes a run reads: the data of the calls that find `KBS_DIB` set. -/
def reads (l : List (UInt8 × UInt8)) : List UInt8 :=
  l.filterMap fun x => if x.1.toUInt32 &&& KBS_DIB = 0 then none else some x.2

/-! ### Scan codes as key events -/

/-- A key going down or up, and its key code: the scan code, with `0x80` added for a key that the
prefix `0xE0` extends. -/
structure KeyEvent where
  down : Bool
  key : UInt32

/-- The key event of the scan code `b`, `esc` when the code before it was the prefix. -/
def keyEvent (esc : Bool) (b : UInt8) : KeyEvent :=
  if b.toUInt32 &&& 0x80 ≠ 0 then ⟨false, if esc then b.toUInt32 else b.toUInt32 &&& 0x7F⟩
  else ⟨true, if esc then b.toUInt32 ||| 0x80 else b.toUInt32⟩

/-- The key events of the codes `bs`, with `prev` the code read before them. -/
def keyEvents : Option UInt8 → List UInt8 → List KeyEvent
  | _, [] => []
  | prev, b :: bs => (if b = 0xE0 then [] else [keyEvent (prev = some 0xE0) b]) ++ keyEvents (some b) bs

/-- The keyboard as the codes read so far leave it. -/
structure KeyState where
  shift : Bool
  ctl : Bool
  alt : Bool
  capslock : Bool
  numlock : Bool
  scrolllock : Bool
  e0esc : Bool

def KeyState.encode (k : KeyState) : UInt32 :=
  (if k.shift then SHIFT else 0) ||| (if k.ctl then CTL else 0) ||| (if k.alt then ALT else 0) |||
    (if k.capslock then CAPSLOCK else 0) ||| (if k.numlock then NUMLOCK else 0) |||
    (if k.scrolllock then SCROLLLOCK else 0) ||| (if k.e0esc then E0ESC else 0)

/-- Modifier `m` is down when the last event of a key whose `shiftcode` has bit `m` was a press;
lock `t` is on when an odd number of presses hit keys whose `togglecode` has bit `t`. -/
def keyState (bs : List UInt8) : KeyState :=
  let ev := keyEvents none bs
  let down (m : ℕ) := lastSet (fun e => bit (shiftcode e.key) m) KeyEvent.down ev
  let on (t : ℕ) := toggled (fun e => e.down && bit (togglecode e.key) t) ev
  ⟨down 0, down 1, down 2, on 3, on 4, on 5, bs.getLast? = some 0xE0⟩

/-- One more code: the prefix sets `e0esc`; any other code is a key event, which moves the
modifiers of its key, toggles the locks of a pressed key and ends the prefix. -/
def KeyState.step (k : KeyState) (b : UInt8) : KeyState :=
  if b = 0xE0 then { k with e0esc := true }
  else
    let e := keyEvent k.e0esc b
    let down (m : ℕ) (old : Bool) := if bit (shiftcode e.key) m then e.down else old
    let on (t : ℕ) (old : Bool) := old ^^ (e.down && bit (togglecode e.key) t)
    ⟨down 0 k.shift, down 1 k.ctl, down 2 k.alt, on 3 k.capslock, on 4 k.numlock, on 5 k.scrolllock, false⟩

/-- The bits of the encoding, in the order of `kbd.h`. -/
def KeyState.bit (k : KeyState) : ℕ → Bool
  | 0 => k.shift
  | 1 => k.ctl
  | 2 => k.alt
  | 3 => k.capslock
  | 4 => k.numlock
  | 5 => k.scrolllock
  | 6 => k.e0esc
  | _ => false

lemma getLast?_cons_or (c : UInt8) (bs : List UInt8) : (c :: bs).getLast? = bs.getLast?.or (some c) := by
  rw [List.getLast?_cons]
  cases bs.getLast? <;> rfl

lemma keyEvents_append_singleton (bs : List UInt8) (b : UInt8) : ∀ p : Option UInt8,
    keyEvents p (bs ++ [b]) =
      keyEvents p bs ++ (if b = 0xE0 then [] else [keyEvent (bs.getLast?.or p = some 0xE0) b]) := by
  induction bs with
  | nil =>
    intro p
    simp only [List.nil_append, keyEvents, List.append_nil, List.getLast?_nil]
    rfl
  | cons c bs ih =>
    intro p
    rw [List.cons_append, keyEvents, keyEvents, ih, getLast?_cons_or, List.append_assoc]
    -- the code before `b` is found in `c :: bs` already
    cases bs.getLast? <;> rfl

lemma keyState_append_singleton (bs : List UInt8) (b : UInt8) :
    keyState (bs ++ [b]) = (keyState bs).step b := by
  unfold keyState KeyState.step
  rw [keyEvents_append_singleton, Option.or_none]
  by_cases hb : b = 0xE0
  · simp [hb]
  · simp only [hb, if_false, List.getLast?_concat, lastSet_append_singleton,
      toggled_append_singleton]
    simp [hb]

/-! ### The register `shift` -/

@[simp] lemma bit_SHIFT (i : ℕ) : bit SHIFT i = decide (0 = i) := bit_of_twoPow (by decide) (by norm_num) i
@[simp] lemma bit_CTL (i : ℕ) : bit CTL i = decide (1 = i) := bit_of_twoPow (by decide) (by norm_num) i
@[simp] lemma bit_ALT (i : ℕ) : bit ALT i = decide (2 = i) := bit_of_twoPow (by decide) (by norm_num) i
@[simp] lemma bit_CAPSLOCK (i : ℕ) : bit CAPSLOCK i = decide (3 = i) := bit_of_twoPow (by decide) (by norm_num) i
@[simp] lemma bit_NUMLOCK (i : ℕ) : bit NUMLOCK i = decide (4 = i) := bit_of_twoPow (by decide) (by norm_num) i
@[simp] lemma bit_SCROLLLOCK (i : ℕ) : bit SCROLLLOCK i = decide (5 = i) := bit_of_twoPow (by decide) (by norm_num) i
@[simp] lemma bit_E0ESC (i : ℕ) : bit E0ESC i = decide (6 = i) := bit_of_twoPow (by decide) (by norm_num) i

lemma bit_encode (k : KeyState) (i : ℕ) : bit k.encode i = k.bit i := by
  simp only [KeyState.encode, bit_or, apply_ite (bit · i), bit_SHIFT, bit_CTL, bit_ALT, bit_CAPSLOCK,
    bit_NUMLOCK, bit_SCROLLLOCK, bit_E0ESC, bit_zero]
  rcases i with _ | _ | _ | _ | _ | _ | _ | i <;> cases k <;> simp [KeyState.bit]

lemma encode_E0ESC (k : KeyState) : k.encode &&& E0ESC ≠ 0 ↔ k.e0esc = true := by
  rw [and_ne_zero_iff (k := 6) (by decide) (by norm_num), bit_encode]
  rfl

lemma bit_shiftcode (data : UInt32) {i : ℕ} (hi : 3 ≤ i) : bit (shiftcode data) i = false := by
  unfold shiftcode
  split <;> simp <;> omega

lemma bit_togglecode (data : UInt32) {i : ℕ} (hi : i < 3 ∨ 6 ≤ i) : bit (togglecode data) i = false := by
  unfold togglecode
  split <;> simp <;> omega

lemma toUInt32_eq_E0 {b : UInt8} : b.toUInt32 = 0xE0 ↔ b = 0xE0 := by
  rw [← UInt8.toUInt32_inj]
  rfl

lemma kbdgetc_shift {st : UInt8} (hst : ¬st.toUInt32 &&& KBS_DIB = 0) (b : UInt8) (shift : UInt32) :
    (kbdgetc st b shift).2 =
      if b = 0xE0 then shift ||| E0ESC
      else if b.toUInt32 &&& 0x80 ≠ 0 then
        shift &&& ~~~(shiftcode (if shift &&& E0ESC ≠ 0 then b.toUInt32 else b.toUInt32 &&& 0x7F) ||| E0ESC)
      else
        let data := if shift &&& E0ESC ≠ 0 then b.toUInt32 ||| 0x80 else b.toUInt32
        ((if shift &&& E0ESC ≠ 0 then shift &&& ~~~E0ESC else shift) ||| shiftcode data) ^^^ togglecode data := by
  unfold kbdgetc
  simp only [if_neg hst, toUInt32_eq_E0]
  split_ifs <;> rfl

lemma kbdgetc_encode {st : UInt8} (hst : ¬st.toUInt32 &&& KBS_DIB = 0) (b : UInt8) (k : KeyState) :
    (kbdgetc st b k.encode).2 = (k.step b).encode := by
  apply ext_bit
  intro i hi
  rw [bit_encode, kbdgetc_shift hst]
  unfold KeyState.step keyEvent
  simp only [encode_E0ESC]
  by_cases hb : b = 0xE0
  · -- the prefix sets `E0ESC` only
    simp only [hb, ↓reduceIte, bit_or, bit_encode, bit_E0ESC]
    rcases i with _ | _ | _ | _ | _ | _ | _ | i <;> simp [KeyState.bit]
  by_cases hr : b.toUInt32 &&& 0x80 ≠ 0
  · -- a key goes up: its modifiers and `E0ESC` are cleared
    simp only [hb, hr, ne_eq, not_false_eq_true, ↓reduceIte, bit_and, bit_not _ hi, bit_or, bit_encode, bit_E0ESC]
    generalize (if k.e0esc = true then b.toUInt32 else b.toUInt32 &&& 127) = key
    have h3 := fun j (hj : 3 ≤ j) => bit_shiftcode key hj
    rcases i with _ | _ | _ | _ | _ | _ | _ | i <;> simp [KeyState.bit, h3] <;> cases bit (shiftcode key) _ <;> simp
  · -- a key goes down: its modifiers are set, its locks toggled and `E0ESC` cleared
    have hr' : b.toUInt32 &&& 0x80 = 0 := not_not.mp hr
    simp only [hb, hr', ne_eq, not_true_eq_false, ↓reduceIte]
    generalize (if k.e0esc = true then b.toUInt32 ||| 128 else b.toUInt32) = key
    have h3 := fun j (hj : 3 ≤ j) => bit_shiftcode key hj
    have ht := fun j (hj : j < 3 ∨ 6 ≤ j) => bit_togglecode key hj
    simp only [bit_xor, bit_or, apply_ite (bit · i), bit_and, bit_not _ hi, bit_encode, bit_E0ESC]
    cases he : k.e0esc <;> rcases i with _ | _ | _ | _ | _ | _ | _ | i <;>
      simp [KeyState.bit, h3, ht, he] <;> cases bit (shiftcode key) _ <;> simp

lemma reads_append_singleton (l : List (UInt8 × UInt8)) (x : UInt8 × UInt8) :
    reads (l ++ [x]) = reads l ++ if x.1.toUInt32 &&& KBS_DIB = 0 then [] else [x.2] := by
  unfold reads
  rw [List.filterMap_append, List.filterMap_cons, List.filterMap_nil]
  split_ifs <;> rfl

lemma kbdRun_append_singleton (l : List (UInt8 × UInt8)) (x : UInt8 × UInt8) (shift : UInt32) :
    kbdRun (l ++ [x]) shift = (kbdgetc x.1 x.2 (kbdRun l shift)).2 := by
  rw [kbdRun, List.foldl_append, List.foldl_cons, List.foldl_nil, ← kbdRun]

theorem kbd_shift_register (l : List (UInt8 × UInt8)) : kbdRun l 0 = (keyState (reads l)).encode := by
  -- by induction on the calls, the last one appended; `shift` is a zeroed static at boot
  induction l using List.reverseRecOn with
  | nil => decide
  | append_singleton l x ih =>
    rw [kbdRun_append_singleton, ih, reads_append_singleton]
    by_cases hst : x.1.toUInt32 &&& KBS_DIB = 0
    · -- no code waiting: `kbdgetc` returns -1 and leaves `shift`
      rw [if_pos hst, List.append_nil, kbdgetc, if_pos hst]
    · rw [if_neg hst, keyState_append_singleton, kbdgetc_encode hst]

-- Both keys hold `SHIFT` down; letting go of either lets it go.
example : kbdRun [(1, 0x2A), (1, 0x36), (1, 0xB6), (1, 0x1E)] 0 = 0 := by decide

end Xv6Net.Kernel.Kbd
