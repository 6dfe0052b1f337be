import Mathlib.Data.List.Pairwise

/-! Byte ranges `[a, a + n)` and ranges laid out in pages. A slot names a range by its page number,
its offset in the page and its length; once the page numbers are given distinct page-aligned
pages, slots in different pages, or apart within one page, cover disjoint ranges. -/

namespace Xv6Net.Lib.Regions

/-- The byte ranges `[a, a + n)` and `[b, b + m)` do not meet. -/
def Apart (a n b m : ℕ) : Prop := a + n ≤ b ∨ b + m ≤ a

instance (a n b m : ℕ) : Decidable (Apart a n b m) := inferInstanceAs (Decidable (_ ∨ _))

lemma Apart.symm {a n b m : ℕ} (h : Apart a n b m) : Apart b m a n := Or.symm h

lemma Apart.shift {a n b m : ℕ} (p : ℕ) (h : Apart a n b m) : Apart (p + a) n (p + b) m := by
  unfold Apart at *
  omega

lemma apart_of_pages {p q : ℕ} (hp : p % 4096 = 0) (hq : q % 4096 = 0) (hpq : p ≠ q) {a n b m : ℕ}
    (ha : a + n ≤ 4096) (hb : b + m ≤ 4096) : Apart (p + a) n (q + b) m := by
  unfold Apart
  omega

/-- A range within a page: the page's number, the offset in it and the length. -/
structure Slot where
  page : ℕ
  off : ℕ
  len : ℕ
  deriving DecidableEq, Repr

namespace Slot

/-- The slot lies inside one of the pages `0, …, n - 1`. -/
def Fits (n : ℕ) (s : Slot) : Prop := s.page < n ∧ s.off + s.len ≤ 4096

/-- Two slots in different pages, or apart within one. -/
def Separated (s t : Slot) : Prop := s.page ≠ t.page ∨ Apart s.off s.len t.off t.len

instance (n : ℕ) (s : Slot) : Decidable (s.Fits n) := inferInstanceAs (Decidable (_ ∧ _))

instance (s t : Slot) : Decidable (s.Separated t) := inferInstanceAs (Decidable (_ ∨ _))

/-- The range a slot covers, as (start, length), once page number `k` is the page at `pg k`. -/
def range (pg : ℕ → ℕ) (s : Slot) : ℕ × ℕ := (pg s.page + s.off, s.len)

end Slot

/-- `pg` numbers `n` distinct page-aligned pages. -/
structure DistinctPages (pg : ℕ → ℕ) (n : ℕ) : Prop where
  aligned : ∀ k < n, pg k % 4096 = 0
  inj : ∀ k < n, ∀ k' < n, pg k = pg k' → k = k'

section Pages

variable {pg : ℕ → ℕ} {n : ℕ}

lemma DistinctPages.apart (hpg : DistinctPages pg n) {s t : Slot} (hs : s.Fits n) (ht : t.Fits n)
    (h : s.Separated t) : Apart (s.range pg).1 (s.range pg).2 (t.range pg).1 (t.range pg).2 := by
  by_cases heq : s.page = t.page
  · have hoff : Apart s.off s.len t.off t.len := h.resolve_left (not_not.mpr heq)
    unfold Slot.range
    rw [heq]
    exact hoff.shift _
  · have hne : pg s.page ≠ pg t.page := fun hpq => heq (hpg.inj _ hs.1 _ ht.1 hpq)
    exact apart_of_pages (hpg.aligned _ hs.1) (hpg.aligned _ ht.1) hne hs.2 ht.2

lemma DistinctPages.pairwise_apart (hpg : DistinctPages pg n) {l : List Slot} (hl : ∀ s ∈ l, s.Fits n)
    (h : l.Pairwise Slot.Separated) : (l.map (Slot.range pg)).Pairwise fun x y => Apart x.1 x.2 y.1 y.2 := by
  rw [List.pairwise_map]
  exact h.imp_of_mem fun hs ht hst => hpg.apart (hl _ hs) (hl _ ht) hst

end Pages

lemma pairwise_map_range {α : Type} {R : α → α → Prop} {f : ℕ → α} {m : ℕ}
    (h : ∀ i j, i < j → j < m → R (f i) (f j)) : ((List.range m).map f).Pairwise R := by
  rw [List.pairwise_map]
  refine List.pairwise_lt_range.imp_of_mem fun hi hj hij => h _ _ hij ?_
  exact List.mem_range.mp hj

end Xv6Net.Lib.Regions
