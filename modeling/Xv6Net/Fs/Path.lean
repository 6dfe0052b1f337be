import Xv6Net.Fs.Namespace

/-! `skipelem` of `fs.c` on the bytes it reads and writes. The path is the text before its NUL;
`name` is the caller's buffer, which `skipelem` overwrites with the element and, when the element is
shorter than `DIRSIZ`, a NUL after it. The rounds of `namex`'s loop visit the non-empty
`/`-separated components of the path in order, and the remainder is empty exactly at the last. -/

namespace Xv6Net.Fs.Path

open Xv6Net.Fs.Layout

/-- `memmove(name, s, DIRSIZ)` for a long element; `memmove(name, s, len); name[len] = 0` else. -/
def copyName (s name : List Char) : List Char :=
  if DIRSIZ ≤ s.length then s.take DIRSIZ ++ name.drop DIRSIZ
  else s ++ '\x00' :: name.drop (s.length + 1)

/-- `skipelem(path, name)`: the remainder and the new contents of `name`, or `none` for its 0. -/
def skipelem (path name : List Char) : Option (List Char × List Char) :=
  let path := path.dropWhile (· == '/')
  if path = [] then none
  else
    let s := path.takeWhile (· != '/')
    let path := path.dropWhile (· != '/')
    some (path.dropWhile (· == '/'), copyName s name)

example : skipelem "///a//bb".toList (List.replicate DIRSIZ '_') =
    some ("bb".toList, 'a' :: '\x00' :: List.replicate 12 '_') := by decide

/-- The rounds of `namex`'s loop `while((path = skipelem(path, name)) != 0)`, at most `fuel` of
them: each round's remainder and `name`. -/
def rounds : ℕ → List Char → List Char → List (List Char × List Char)
  | 0, _, _ => []
  | fuel + 1, path, name =>
    match skipelem path name with
    | none => []
    | some (rest, name) => (rest, name) :: rounds fuel rest name

def components (path : List Char) : List (List Char) := (path.splitOn '/').filter fun c => !c.isEmpty

/-- `name` starts with the first `min(len, DIRSIZ)` bytes of `c`, and a NUL after them when `c` is
shorter than `DIRSIZ`. -/
def NameHolds (c name : List Char) : Prop :=
  (if c.length < DIRSIZ then c ++ ['\x00'] else c.take DIRSIZ) <+: name

/-! ### Components -/

@[simp] lemma components_nil : components [] = [] := rfl

lemma components_append_slash (x y : List Char) : components (x ++ '/' :: y) = components x ++ components y := by
  simp only [components, List.splitOn_append_cons_self, List.filter_append]

@[simp] lemma components_slash_cons (y : List Char) : components ('/' :: y) = components y := by
  simpa using components_append_slash [] y

lemma components_of_word {w : List Char} (hw : w ≠ []) (h : '/' ∉ w) : components w = [w] := by
  simp [components, List.splitOn_eq_singleton h, hw]

lemma components_dropWhile (l : List Char) : components (l.dropWhile (· == '/')) = components l := by
  induction l with
  | nil => rfl
  | cons a l ih =>
    by_cases ha : a = '/'
    · subst ha
      simpa using ih
    · simp [ha]

lemma components_of_head {q : List Char} (hq : q ≠ []) (hh : q.head? ≠ some '/') :
    components q = q.takeWhile (· != '/') :: components (q.dropWhile (· != '/')) := by
  have hc : q.takeWhile (· != '/') ≠ [] := by
    obtain ⟨a, q', rfl⟩ := List.exists_cons_of_ne_nil hq
    simp_all
  have hw : '/' ∉ q.takeWhile (· != '/') := fun hm => by
    simpa using List.mem_takeWhile_imp hm
  have hsplit := List.takeWhile_append_dropWhile (p := (· != '/')) (l := q)
  cases hr : q.dropWhile (· != '/') with
  | nil =>
    rw [hr, List.append_nil] at hsplit
    rw [hsplit, components_nil]
    exact components_of_word hq (hsplit ▸ hw)
  | cons x r =>
    have hx : x = '/' := by
      have := List.head_dropWhile_not (· != '/') (l := q) (by simp [hr])
      simpa [hr] using this
    subst hx
    conv_lhs => rw [← hsplit, hr, components_append_slash, components_of_word hc hw]
    simp

lemma head?_dropWhile_slash (l : List Char) : (l.dropWhile (· == '/')).head? ≠ some '/' := by
  induction l with
  | nil => simp
  | cons a l ih => by_cases ha : a = '/' <;> simp [ha, ih]

lemma components_eq_nil_iff {l : List Char} (hh : l.head? ≠ some '/') : components l = [] ↔ l = [] := by
  constructor
  · intro h
    by_contra hl
    simp [components_of_head hl hh] at h
  · rintro rfl
    rfl

/-! ### One round -/

lemma copyName_holds (s name : List Char) : NameHolds s (copyName s name) := by
  unfold NameHolds copyName
  split_ifs with h₁ h₂ h₂
  · omega
  · exact ⟨name.drop (s.length + 1), by simp⟩
  · simp
  · omega

lemma skipelem_spec (path name : List Char) :
    (skipelem path name = none ∧ components path = []) ∨
    ∃ c rest, skipelem path name = some (rest, copyName c name) ∧ components path = c :: components rest ∧
      rest.head? ≠ some '/' ∧ rest.length < path.length := by
  have hq := components_dropWhile path
  by_cases h : path.dropWhile (· == '/') = []
  · left
    refine ⟨by simp [skipelem, h], ?_⟩
    rw [← hq, h, components_nil]
  · right
    set q := path.dropWhile (· == '/') with hqd
    have hh : q.head? ≠ some '/' := head?_dropWhile_slash path
    refine ⟨q.takeWhile (· != '/'), (q.dropWhile (· != '/')).dropWhile (· == '/'), ?_, ?_, ?_, ?_⟩
    · simp [skipelem, ← hqd, h]
    · rw [← hq, components_of_head h hh, components_dropWhile]
    · exact head?_dropWhile_slash _
    · have h₁ : ((q.dropWhile (· != '/')).dropWhile (· == '/')).length ≤ (q.dropWhile (· != '/')).length :=
        (List.dropWhile_suffix _).length_le
      have h₂ : (q.dropWhile (· != '/')).length < q.length := by
        obtain ⟨a, q', hq'⟩ := List.exists_cons_of_ne_nil h
        rw [hq'] at hh ⊢
        have ha : (a != '/') = true := by simpa using hh
        simp only [List.dropWhile_cons, ha, if_true, List.length_cons]
        exact Nat.lt_succ_of_le (List.dropWhile_suffix _).length_le
      have h₃ : q.length ≤ path.length := (List.dropWhile_suffix _).length_le
      omega

/-! ### The loop -/

/-- Every round's `name` holds its component and its remainder starts with no `/` and holds the
components still to come. -/
structure RoundsOk (path : List Char) (rs : List (List Char × List Char)) : Prop where
  names : List.Forall₂ (fun c r => NameHolds c r.2) (components path) rs
  rests : ∀ i (hi : i < rs.length), rs[i].1.head? ≠ some '/' ∧ components rs[i].1 = (components path).drop (i + 1)

lemma roundsOk_nil {path : List Char} (hc : components path = []) : RoundsOk path [] where
  names := hc ▸ .nil
  rests i hi := absurd hi (Nat.not_lt_zero i)

lemma RoundsOk.cons {path rest c name : List Char} {rs : List (List Char × List Char)}
    (hc : components path = c :: components rest) (hh : rest.head? ≠ some '/') (h : RoundsOk rest rs) :
    RoundsOk path ((rest, copyName c name) :: rs) where
  names := hc ▸ .cons (copyName_holds c name) h.names
  rests i hi := by
    cases i with
    | zero => exact ⟨hh, by simp [hc]⟩
    | succ i =>
      obtain ⟨hh', hr⟩ := h.rests i (by simpa using hi)
      exact ⟨hh', by simpa [hc] using hr⟩

lemma rounds_ok {fuel : ℕ} {path : List Char} (name : List Char) (hf : path.length < fuel) :
    RoundsOk path (rounds fuel path name) := by
  induction fuel generalizing path name with
  | zero => exact absurd hf (Nat.not_lt_zero _)
  | succ fuel ih =>
    rcases skipelem_spec path name with ⟨hs, hc⟩ | ⟨c, rest, hs, hc, hh, hl⟩
    · rw [rounds, hs]
      exact roundsOk_nil hc
    · rw [rounds, hs]
      exact (ih (copyName c name) (by omega)).cons hc hh

lemma rounds_fuel {fuel fuel' : ℕ} {path : List Char} (name : List Char) (hf : path.length < fuel)
    (hf' : path.length < fuel') : rounds fuel path name = rounds fuel' path name := by
  induction fuel generalizing fuel' path name with
  | zero => exact absurd hf (Nat.not_lt_zero _)
  | succ fuel ih =>
    obtain ⟨fuel', rfl⟩ : ∃ k, fuel' = k + 1 := ⟨fuel' - 1, by omega⟩
    rcases skipelem_spec path name with ⟨hs, -⟩ | ⟨c, rest, hs, -, -, hl⟩
    · rw [rounds, rounds, hs]
    · rw [rounds, rounds, hs]
      dsimp only
      rw [@ih fuel' rest (copyName c name) (by omega) (by omega)]

/-- `namex`'s loop visits the components of the path in order: the rounds stop on their own, each
leaves its component in `name` and a remainder with no leading `/` holding the components still to
come, and the remainder is empty exactly at the last component. -/
theorem skipelem_visits_components (path name : List Char) :
    (∀ fuel, path.length < fuel → rounds fuel path name = rounds (path.length + 1) path name) ∧
    List.Forall₂ (fun c r => NameHolds c r.2) (components path) (rounds (path.length + 1) path name) ∧
    ∀ i (hi : i < (rounds (path.length + 1) path name).length),
      (rounds (path.length + 1) path name)[i].1.head? ≠ some '/' ∧
      components (rounds (path.length + 1) path name)[i].1 = (components path).drop (i + 1) ∧
      ((rounds (path.length + 1) path name)[i].1 = [] ↔ i + 1 = (components path).length) := by
  have h := rounds_ok name (Nat.lt_add_one path.length)
  refine ⟨fun fuel hf => rounds_fuel name hf (Nat.lt_add_one _), h.names, fun i hi => ?_⟩
  obtain ⟨hh, hr⟩ := h.rests i hi
  have hlen := h.names.length_eq
  refine ⟨hh, hr, ?_⟩
  rw [← components_eq_nil_iff hh, hr, List.drop_eq_nil_iff]
  omega

end Xv6Net.Fs.Path
