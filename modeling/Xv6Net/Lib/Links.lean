import Mathlib.Data.List.Induction
import Mathlib.Data.List.Nodup
import Mathlib.Logic.Function.Basic

/-! Lists kept in pointer fields. A singly linked list runs from a head pointer through `next`
fields to null, and is appended to by walking a pointer to a pointer to its last link. A circular
doubly linked list runs through `next` and `prev` fields from a sentinel back to it, and is changed
by unlinking a node and pushing a node at the front. A null pointer, and the sentinel, are `none`.

Each operation is written as the assignments a C program makes, in their order, and the lemmas say
which list the pointers represent afterwards. -/

namespace Xv6Net.Lib.Links

variable {α : Type*}

/-! ### Singly linked lists -/

/-- From the pointer `x`, the `next` fields run through the nodes `l`, none of them twice, to null. -/
inductive Chain (next : α → Option α) : Option α → List α → Prop
  | nil : Chain next none []
  | cons {a : α} {l : List α} : a ∉ l → Chain next (next a) l → Chain next (some a) (a :: l)

section Chain

variable {next next' : α → Option α} {x : Option α} {l : List α}

lemma Chain.nodup (h : Chain next x l) : l.Nodup := by
  induction h with
  | nil => exact List.nodup_nil
  | cons ha _ ih => exact List.nodup_cons.mpr ⟨ha, ih⟩

lemma Chain.head (h : Chain next x l) : x = l.head? := by
  cases h <;> rfl

lemma Chain.congr (h : Chain next x l) (hn : ∀ a ∈ l, next' a = next a) : Chain next' x l := by
  induction h with
  | nil => exact .nil
  | @cons a l ha _ ih =>
    refine .cons ha ?_
    rw [hn a List.mem_cons_self]
    exact ih fun c hc => hn c (List.mem_cons_of_mem a hc)

lemma Chain.snoc {z b : α} (h : Chain next x l) (hx : x ≠ none) (hz : l.getLast? = some z) (hb : b ∉ l)
    (hz' : next' z = some b) (hb' : next' b = none) (hn : ∀ a ∈ l, a ≠ z → next' a = next a) :
    Chain next' x (l ++ [b]) := by
  induction h with
  | nil => exact absurd rfl hx
  | @cons a l ha h ih =>
    have hab : a ≠ b := fun e => hb (e ▸ List.mem_cons_self)
    refine .cons (by simp [ha, hab]) ?_
    rcases l.eq_nil_or_concat' with rfl | ⟨l', c, rfl⟩
    · -- `a` was the last node
      obtain rfl : a = z := by simpa using hz
      rw [hz']
      exact .cons (by simp) (hb' ▸ .nil)
    · rw [← List.cons_append, List.getLast?_concat, Option.some_inj] at hz
      subst hz
      have hc : next a ≠ none := by rw [h.head]; simp
      have ih' := ih hc (by rw [List.getLast?_concat]) (fun e => hb (List.mem_cons_of_mem a e))
        fun d hd => hn d (List.mem_cons_of_mem a hd)
      have haz : a ≠ c := fun e => ha (by simp [e])
      rwa [hn a List.mem_cons_self haz]

/-- `*pp` for a pointer `pp` to a link: `none` is the head pointer itself, `some a` is `a->next`. -/
def deref (head : Option α) (next : α → Option α) : Option α → Option α
  | none => head
  | some a => next a

/-- `for(pp = &head; *pp; pp = &(*pp)->next);`, moving at most `fuel` times. -/
def walk (head : Option α) (next : α → Option α) : ℕ → Option α → Option α
  | 0, pp => pp
  | fuel + 1, pp =>
    match deref head next pp with
    | none => pp
    | some a => walk head next fuel (some a)

lemma walk_eq {head : Option α} {fuel : ℕ} {pp : Option α} (h : Chain next (deref head next pp) l)
    (hf : l.length ≤ fuel) : walk head next fuel pp = l.getLast?.or pp := by
  induction l generalizing fuel pp with
  | nil =>
    have hd : deref head next pp = none := h.head
    cases fuel <;> simp [walk, hd]
  | cons a l ih =>
    have hd : deref head next pp = some a := h.head
    obtain ⟨fuel, rfl⟩ : ∃ f, fuel = f + 1 := ⟨fuel - 1, by simp at hf; omega⟩
    rw [hd] at h
    cases h with
    | cons _ h' =>
      simp only [walk, hd]
      rw [ih (show Chain next (deref head next (some a)) l from h') (by simp at hf; omega)]
      cases hl : l.getLast? <;> simp [List.getLast?_cons, hl]

variable [DecidableEq α]

/-- `*pp = b`. -/
def store (head : Option α) (next : α → Option α) (b : α) : Option α → Option α × (α → Option α)
  | none => (some b, next)
  | some a => (head, Function.update next a (some b))

/-- `b->next = 0; for(pp = &head; *pp; pp = &(*pp)->next); *pp = b;`: the new head pointer and
`next` fields. -/
def append (fuel : ℕ) (head : Option α) (next : α → Option α) (b : α) : Option α × (α → Option α) :=
  let next := Function.update next b none
  store head next b (walk head next fuel none)

lemma append_chain {head : Option α} {b : α} {fuel : ℕ} (h : Chain next head l) (hb : b ∉ l)
    (hf : l.length ≤ fuel) : Chain (append fuel head next b).2 (append fuel head next b).1 (l ++ [b]) := by
  have h₁ : Chain (Function.update next b none) head l :=
    h.congr fun a ha => Function.update_of_ne (fun e => hb (by rw [← e]; exact ha)) _ _
  rw [append, walk_eq (h₁ : Chain _ (deref head _ none) l) hf]
  rcases l.eq_nil_or_concat' with rfl | ⟨l', z, rfl⟩
  · cases h
    simp only [List.getLast?_nil, Option.none_or, store, List.nil_append]
    exact .cons (by simp) (by rw [Function.update_self]; exact .nil)
  · have hz : b ≠ z := fun e => hb (by simp [e])
    simp only [List.getLast?_append, List.getLast?_singleton, Option.some_or, store]
    refine h₁.snoc ?_ (by simp) hb (by simp) (by simp [hz]) fun a _ ha => Function.update_of_ne ha _ _
    rw [h.head]
    simp

end Chain

/-! ### Circular doubly linked lists through a sentinel -/

/-- The `next` and `prev` fields of the nodes and of the sentinel `none`. -/
structure DLinks (α : Type*) where
  next : Option α → Option α
  prev : Option α → Option α

namespace DLinks

/-- From `x`, `next` runs through the nodes `l` to `z`, and `prev` leads back from each node. -/
def Path (L : DLinks α) : Option α → List α → Option α → Prop
  | x, [], z => x = z
  | x, a :: l, z => L.next x = some a ∧ L.prev (some a) = x ∧ L.Path (some a) l z

/-- The ring holds the nodes `l`, each once, in order from `head.next` round to `head.prev`. -/
def Ring (L : DLinks α) (l : List α) : Prop :=
  l.Nodup ∧ ∃ z, L.Path none l z ∧ L.next z = none ∧ L.prev none = z

section Update

variable [DecidableEq α]

/-- `b->next->prev = b->prev; b->prev->next = b->next;` -/
def unlink (L : DLinks α) (b : α) : DLinks α :=
  let L := { L with prev := Function.update L.prev (L.next (some b)) (L.prev (some b)) }
  { L with next := Function.update L.next (L.prev (some b)) (L.next (some b)) }

/-- `b->next = head.next; b->prev = &head; head.next->prev = b; head.next = b;` -/
def pushFront (L : DLinks α) (b : α) : DLinks α :=
  let L := { L with next := Function.update L.next (some b) (L.next none) }
  let L := { L with prev := Function.update L.prev (some b) none }
  let L := { L with prev := Function.update L.prev (L.next none) (some b) }
  { L with next := Function.update L.next none (some b) }

end Update

/-- `for(b = x; b != &head; b = b->next) if(P(b)) return b;`, at most `fuel` times round. -/
def scanNext (L : DLinks α) (P : α → Bool) : ℕ → Option α → Option α
  | 0, _ => none
  | _ + 1, none => none
  | fuel + 1, some a => if P a then some a else L.scanNext P fuel (L.next (some a))

/-- `for(b = x; b != &head; b = b->prev) if(P(b)) return b;`, at most `fuel` times round. -/
def scanPrev (L : DLinks α) (P : α → Bool) : ℕ → Option α → Option α
  | 0, _ => none
  | _ + 1, none => none
  | fuel + 1, some a => if P a then some a else L.scanPrev P fuel (L.prev (some a))

variable {L L' : DLinks α}

lemma scanPrev_some {P : α → Bool} {fuel : ℕ} {x : Option α} {a : α} (h : L.scanPrev P fuel x = some a) : P a = true := by
  induction fuel generalizing x with
  | zero => simp [DLinks.scanPrev] at h
  | succ n ih =>
    cases x with
    | none => simp [DLinks.scanPrev] at h
    | some c =>
      simp only [DLinks.scanPrev] at h
      split_ifs at h with hc
      · cases h; exact hc
      · exact ih h

lemma Path.last {x z : Option α} {l : List α} (h : L.Path x l z) : z = l.getLast?.or x := by
  induction l generalizing x with
  | nil => exact h.symm
  | cons a l ih =>
    rw [ih h.2.2]
    cases hl : l.getLast? <;> simp [List.getLast?_cons, hl]

lemma path_append {x z : Option α} {l₁ l₂ : List α} :
    L.Path x (l₁ ++ l₂) z ↔ ∃ y, L.Path x l₁ y ∧ L.Path y l₂ z := by
  induction l₁ generalizing x with
  | nil => simp [Path]
  | cons a l₁ ih => simp only [List.cons_append, Path, ih, and_assoc, exists_and_left]

lemma Path.congr {x z : Option α} {l : List α} (h : L.Path x l z)
    (hn : ∀ y ∈ (x :: l.map some).dropLast, L'.next y = L.next y) (hp : ∀ a ∈ l, L'.prev (some a) = L.prev (some a)) :
    L'.Path x l z := by
  induction l generalizing x with
  | nil => exact h
  | cons a l ih =>
    obtain ⟨h₁, h₂, h₃⟩ := h
    refine ⟨(hn x (by simp)).trans h₁, (hp a List.mem_cons_self).trans h₂, ih h₃ ?_ fun c hc => hp c (by simp [hc])⟩
    intro y hy
    exact hn y (by rw [List.map_cons, List.dropLast_cons_cons]; exact List.mem_cons_of_mem x hy)

lemma mem_dropLast {a : α} {l : List α} (hl : l.Nodup) (hz : l.getLast? = some a) :
    some a ∉ ((none : Option α) :: l.map some).dropLast := by
  rcases l.eq_nil_or_concat' with rfl | ⟨l', c, rfl⟩
  · simp at hz
  · have hca : c = a := by simpa using hz
    subst hca
    have hc : c ∉ l' := fun h => (List.nodup_append.mp hl).2.2 c h c (List.mem_singleton_self c) rfl
    rw [List.map_append, List.map_singleton, ← List.cons_append, List.dropLast_concat]
    simpa using hc

lemma Path.scanNext {x z : Option α} {l : List α} {fuel : ℕ} (P : α → Bool) (h : L.Path x l z)
    (hz : L.next z = none) (hf : l.length ≤ fuel) : L.scanNext P fuel (L.next x) = l.find? P := by
  induction l generalizing x fuel with
  | nil =>
    cases h
    rw [hz]
    cases fuel <;> rfl
  | cons a l ih =>
    obtain ⟨fuel, rfl⟩ : ∃ f, fuel = f + 1 := ⟨fuel - 1, by simp at hf; omega⟩
    simp only [h.1, DLinks.scanNext]
    rw [ih h.2.2 (by simp at hf; omega), List.find?_cons]
    cases P a <;> rfl

lemma Path.scanPrev {z : Option α} {l : List α} {fuel : ℕ} (P : α → Bool) (h : L.Path none l z)
    (hf : l.length ≤ fuel) : L.scanPrev P fuel z = l.reverse.find? P := by
  induction l using List.reverseRecOn generalizing z fuel with
  | nil =>
    cases h
    cases fuel <;> rfl
  | append_singleton l a ih =>
    obtain ⟨y, hy, ha, hp, rfl⟩ := path_append.mp h
    obtain ⟨fuel, rfl⟩ : ∃ f, fuel = f + 1 := ⟨fuel - 1, by simp at hf; omega⟩
    simp only [DLinks.scanPrev, hp]
    rw [ih hy (by simp at hf; omega)]
    simp only [List.reverse_append, List.reverse_cons, List.reverse_nil, List.nil_append, List.singleton_append,
      List.find?_cons]
    cases P a <;> rfl

lemma Ring.scanNext {l : List α} {fuel : ℕ} (P : α → Bool) (h : L.Ring l) (hf : l.length ≤ fuel) :
    L.scanNext P fuel (L.next none) = l.find? P := by
  obtain ⟨-, z, hp, hz, -⟩ := h
  exact hp.scanNext P hz hf

lemma Ring.scanPrev {l : List α} {fuel : ℕ} (P : α → Bool) (h : L.Ring l) (hf : l.length ≤ fuel) :
    L.scanPrev P fuel (L.prev none) = l.reverse.find? P := by
  obtain ⟨-, z, hp, -, hz⟩ := h
  rw [hz]
  exact hp.scanPrev P hf

lemma ring_nil : Ring ⟨fun _ => none, fun _ => none⟩ ([] : List α) :=
  ⟨List.nodup_nil, none, rfl, rfl, rfl⟩

variable [DecidableEq α]

lemma Ring.pushFront {l : List α} {b : α} (h : L.Ring l) (hb : b ∉ l) : (L.pushFront b).Ring (b :: l) := by
  obtain ⟨hl, z, hpath, hz, hpz⟩ := h
  refine ⟨List.nodup_cons.mpr ⟨hb, hl⟩, ?_⟩
  cases l with
  | nil =>
    cases hpath
    refine ⟨some b, ⟨by simp [DLinks.pushFront], by simp [DLinks.pushFront, hz], rfl⟩, ?_, ?_⟩
    · simpa [DLinks.pushFront] using hz
    · simp [DLinks.pushFront, hz]
  | cons a l =>
    obtain ⟨h₁, h₂, h₃⟩ := hpath
    have hab : a ≠ b := fun e => hb (e ▸ List.mem_cons_self)
    have hal : a ∉ l := (List.nodup_cons.mp hl).1
    have hp : L.Path none (a :: l) z := ⟨h₁, h₂, h₃⟩
    have hzl : z = some ((a :: l).getLast (by simp)) := by
      rw [hp.last, List.getLast?_eq_some_getLast (by simp)]
      rfl
    have hzb : z ≠ some b := by
      rw [hzl]
      exact fun e => hb (Option.some_inj.mp e ▸ List.getLast_mem _)
    refine ⟨z, ⟨by simp [DLinks.pushFront], by simp [DLinks.pushFront, h₁, hab.symm], ?_⟩, ?_, ?_⟩
    · refine ⟨by simp [DLinks.pushFront, h₁], by simp [DLinks.pushFront, h₁], h₃.congr ?_ ?_⟩
      · intro y hy
        have hy' : y ∈ some a :: l.map some := List.dropLast_subset _ hy
        have hyb : y ≠ some b := by rintro rfl; exact hb (by simpa using hy')
        have hyn : y ≠ none := by rintro rfl; simp at hy'
        simp [DLinks.pushFront, hyb, hyn]
      · intro c hc
        have hcb : c ≠ b := fun e => hb (e ▸ List.mem_cons_of_mem a hc)
        have hca : c ≠ a := fun e => hal (e ▸ hc)
        simp [DLinks.pushFront, h₁, hcb, hca]
    · have hzn : z ≠ none := by simp [hzl]
      simp [DLinks.pushFront, hzb, hzn, hz]
    · simp [DLinks.pushFront, h₁, hpz]

lemma Ring.pushFronts {l₀ : List α} (l : List α) (h : L.Ring l₀) (hl : (l.reverse ++ l₀).Nodup) :
    (l.foldl DLinks.pushFront L).Ring (l.reverse ++ l₀) := by
  induction l generalizing L l₀ with
  | nil => exact h
  | cons a l ih =>
    have hl' : (l.reverse ++ a :: l₀).Nodup := by simpa using hl
    have ha : a ∉ l₀ := (List.nodup_cons.mp (List.nodup_append.mp hl').2.1).1
    simpa using ih (h.pushFront ha) hl'

lemma Ring.unlink {l : List α} {b : α} (h : L.Ring l) (hb : b ∈ l) : (L.unlink b).Ring (l.erase b) := by
  obtain ⟨hl, z, hpath, hz, hpz⟩ := h
  obtain ⟨l₁, l₂, rfl⟩ := List.append_of_mem hb
  have hnd := List.nodup_append.mp hl
  have hb₁ : b ∉ l₁ := fun e => hnd.2.2 b e b List.mem_cons_self rfl
  have hb₂ : b ∉ l₂ := (List.nodup_cons.mp hnd.2.1).1
  rw [List.erase_append_right _ hb₁, List.erase_cons_head]
  obtain ⟨p, hp₁, hnb, hpb, hp₂⟩ := path_append.mp hpath
  -- `b`'s successor is the first node of `l₂`, or the sentinel; its predecessor `p` is the last
  -- node of `l₁`, or the sentinel
  have hs : L.next (some b) = l₂.head? := by
    cases l₂ with
    | nil => cases hp₂; simpa using hz
    | cons c l₂ => simpa using hp₂.1
  have hsb : l₂.head? ≠ some b := by
    cases l₂ with
    | nil => simp
    | cons c l₂ => exact fun e => hb₂ (by simp_all)
  have hU : L.unlink b = ⟨Function.update L.next p l₂.head?, Function.update L.prev l₂.head? p⟩ := by
    simp only [DLinks.unlink, hs, Function.update_of_ne hsb.symm, hpb]
  rw [hU]
  -- `p` is the sentinel or a node of `l₁`, so no node of `b :: l₂`
  have hpne : ∀ d ∈ b :: l₂, some d ≠ p := by
    intro d hd e
    rw [hp₁.last] at e
    cases hl₁ : l₁.getLast? with
    | none => rw [hl₁] at e; simp at e
    | some a =>
      rw [hl₁, Option.some_or, Option.some_inj] at e
      exact hnd.2.2 a (List.mem_of_getLast? hl₁) d hd e.symm
  -- only `p->next` and the successor's `prev` changed, and the path through `l₁` reads neither
  have hp₁' : Path ⟨Function.update L.next p l₂.head?, Function.update L.prev l₂.head? p⟩ none l₁ p := by
    refine hp₁.congr (fun y hy => Function.update_of_ne ?_ _ _) fun a ha => Function.update_of_ne ?_ _ _
    · intro e
      have hlast := hp₁.last
      rw [← e] at hlast
      cases hl₁ : l₁.getLast? with
      | none => rw [List.getLast?_eq_none_iff] at hl₁; subst hl₁; simp at hy
      | some a => rw [hl₁, Option.some_or] at hlast; subst hlast; exact mem_dropLast hnd.1 hl₁ hy
    · cases l₂ with
      | nil => simp
      | cons c l₂ => exact fun e => hnd.2.2 a ha c (by simp) (by simpa using e)
  refine ⟨hl.sublist (by simp), ?_⟩
  cases l₂ with
  | nil => exact ⟨p, by simpa using hp₁', by simp, by simp⟩
  | cons c l₂ =>
    obtain ⟨-, hcb, hc⟩ := hp₂
    have hcl : c ∉ l₂ := (List.nodup_cons.mp (List.nodup_cons.mp hnd.2.1).2).1
    have hzc : ∃ d ∈ c :: l₂, z = some d := by
      rw [hc.last]
      cases hl₂ : l₂.getLast? with
      | none => exact ⟨c, List.mem_cons_self, rfl⟩
      | some d => exact ⟨d, List.mem_cons_of_mem c (List.mem_of_getLast? hl₂), rfl⟩
    obtain ⟨d, hd, rfl⟩ := hzc
    refine ⟨some d, path_append.mpr ⟨p, hp₁', by simp, by simp, hc.congr ?_ ?_⟩, ?_, ?_⟩
    · intro y hy
      have hy' : y ∈ some c :: l₂.map some := List.dropLast_subset _ hy
      obtain ⟨e, he, rfl⟩ : ∃ e ∈ c :: l₂, y = some e := by simpa [eq_comm] using hy'
      exact Function.update_of_ne (hpne e (List.mem_cons_of_mem b he)) _ _
    · intro a ha
      exact Function.update_of_ne (by simpa using fun e : a = c => hcl (e ▸ ha)) _ _
    · simpa [Function.update_of_ne (hpne d (List.mem_cons_of_mem b hd))] using hz
    · simpa using hpz

end DLinks

end Xv6Net.Lib.Links
