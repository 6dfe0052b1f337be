import Xv6Net.User.Umalloc

/-! What the free list of `umalloc.c` stands for: a list of blocks in address order with a gap
between any two, and `free`'s insertion of a block into it, joined with the neighbours it
touches. -/

namespace Xv6Net.User.Umalloc

/-- A block: its header at `addr`, `units` headers long, header included. -/
structure Blk where
  addr : ℕ
  units : ℕ
  deriving DecidableEq, Repr

namespace Blk

/-- The address past the block. -/
def fin (b : Blk) : ℕ := b.addr + HDR * b.units

/-- `b` ends before `c` begins, with a gap between them. -/
def Before (b c : Blk) : Prop := b.fin < c.addr

/-- The two blocks share no byte. -/
def Apart (b c : Blk) : Prop := b.fin ≤ c.addr ∨ c.fin ≤ b.addr

/-- `b` and the block after it as one block. -/
def join (b c : Blk) : Blk := ⟨b.addr, b.units + c.units⟩

variable {b c d : Blk}

@[simp] lemma join_addr : (b.join c).addr = b.addr := rfl

lemma addr_le_fin (b : Blk) : b.addr ≤ b.fin := Nat.le_add_right _ _

lemma addr_lt_fin (hb : 0 < b.units) : b.addr < b.fin := by
  unfold fin HDR
  omega

lemma fin_join (hbc : b.fin = c.addr) : (b.join c).fin = c.fin := by
  unfold fin join at *
  rw [← hbc, Nat.mul_add, Nat.add_assoc]

lemma Apart.symm (h : b.Apart c) : c.Apart b := Or.symm h

instance : Std.Symm Apart := ⟨fun _ _ h => h.symm⟩

lemma Apart.mono (hlo : b.addr ≤ c.addr) (hhi : c.fin ≤ b.fin) (h : d.Apart b) : d.Apart c := by
  unfold Apart at *
  omega

lemma Before.apart (h : b.Before c) : b.Apart c := .inl (Nat.le_of_lt h)

lemma Before.addr_lt (h : b.Before c) : b.addr < c.addr := lt_of_le_of_lt b.addr_le_fin h

lemma Before.trans (h₁ : b.Before c) (h₂ : c.Before d) : b.Before d :=
  lt_trans h₁ (lt_of_le_of_lt c.addr_le_fin h₂)

lemma Apart.join (hd : 0 < d.units) (hbc : b.fin = c.addr) (hb : d.Apart b) (hc : d.Apart c) :
    d.Apart (b.join c) := by
  have := addr_lt_fin hd
  unfold Apart at *
  rw [fin_join hbc, join_addr]
  omega

lemma Apart.addr_ne (hb : 0 < b.units) (hc : 0 < c.units) (h : b.Apart c) : b.addr ≠ c.addr := by
  have := addr_lt_fin hb
  have := addr_lt_fin hc
  unfold Apart at h
  omega

end Blk

open Blk

/-- `free`'s effect on the free list: `x` goes in at its place in address order, joined with the
block that ends where it starts and with the block that starts where it ends. -/
def insert (x : Blk) : List Blk → List Blk
  | [] => [x]
  | c :: F =>
    if x.fin < c.addr then x :: c :: F
    else if x.fin = c.addr then x.join c :: F
    else if c.fin = x.addr then insert (c.join x) F
    else c :: insert x F

variable {x y c : Blk} {A B F : List Blk}

lemma forall_insert {P : Blk → Prop} (hP : ∀ b c, b.fin = c.addr → P b → P c → P (b.join c)) :
    ∀ {x : Blk} {F : List Blk}, P x → (∀ c ∈ F, P c) → ∀ d ∈ insert x F, P d
  | x, [], hx, _, d, hd => by
    rw [insert, List.mem_singleton] at hd
    exact hd ▸ hx
  | x, c :: F, hx, hF, d, hd => by
    have hc := hF c List.mem_cons_self
    have hF' : ∀ e ∈ F, P e := fun e he => hF e (List.mem_cons_of_mem _ he)
    rw [insert] at hd
    split_ifs at hd with h₁ h₂ h₃
    · rcases List.mem_cons.mp hd with rfl | hd
      · exact hx
      · exact hF d hd
    · rcases List.mem_cons.mp hd with rfl | hd
      · exact hP x c h₂ hx hc
      · exact hF' d hd
    · exact forall_insert hP (hP c x h₃ hc hx) hF' d hd
    · rcases List.mem_cons.mp hd with rfl | hd
      · exact hc
      · exact forall_insert hP hx hF' d hd

lemma sorted_insert : ∀ {x : Blk} {F : List Blk}, F.Pairwise Before → (∀ c ∈ F, x.Apart c) →
    (insert x F).Pairwise Before
  | x, [], _, _ => List.pairwise_singleton _ _
  | x, c :: F, hF, hx => by
    obtain ⟨hcF, hF⟩ := List.pairwise_cons.mp hF
    have hxc := hx c List.mem_cons_self
    rw [insert]
    split_ifs with h₁ h₂ h₃
    · refine List.Pairwise.cons (fun d hd => ?_) (hF.cons hcF)
      rcases List.mem_cons.mp hd with rfl | hd
      · exact h₁
      · exact Before.trans h₁ (hcF d hd)
    · refine hF.cons fun d hd => ?_
      show (x.join c).fin < d.addr
      rw [fin_join h₂]
      exact hcF d hd
    · -- `c` ends where `x` starts: the join goes on and may meet the next block too
      refine sorted_insert hF fun d hd => .inl ?_
      rw [fin_join h₃]
      have hcd := hcF d hd
      have := d.addr_le_fin
      have := hx d (List.mem_cons_of_mem _ hd)
      unfold Before at hcd
      unfold Apart at this
      omega
    · -- `c` lies wholly before `x`, with a gap
      have hcx : c.fin < x.addr := by
        have := x.addr_le_fin
        unfold Apart at hxc
        omega
      refine List.Pairwise.cons ?_ (sorted_insert hF fun d hd => hx d (List.mem_cons_of_mem _ hd))
      refine forall_insert (fun b d _ hb _ => hb) hcx hcF

lemma exists_units_le_insert : ∀ {x : Blk} {F : List Blk}, ∃ d ∈ insert x F, x.units ≤ d.units
  | x, [] => ⟨x, List.mem_singleton_self x, le_rfl⟩
  | x, c :: F => by
    rw [insert]
    split_ifs
    · exact ⟨x, List.mem_cons_self, le_rfl⟩
    · exact ⟨x.join c, List.mem_cons_self, Nat.le_add_right _ _⟩
    · obtain ⟨d, hd, hle⟩ := exists_units_le_insert (x := c.join x) (F := F)
      exact ⟨d, hd, Nat.le_trans (Nat.le_add_left _ _) hle⟩
    · obtain ⟨d, hd, hle⟩ := exists_units_le_insert (x := x) (F := F)
      exact ⟨d, List.mem_cons_of_mem _ hd, hle⟩

/-! ### `insert` at a split of the list -/

lemma exists_split : ∀ {F : List Blk}, F.Pairwise Before → (∀ c ∈ F, x.Apart c) →
    ∃ A B, F = A ++ B ∧ (∀ a ∈ A, a.fin ≤ x.addr) ∧ ∀ b ∈ B, x.fin ≤ b.addr
  | [], _, _ => ⟨[], [], rfl, by simp, by simp⟩
  | c :: F, hF, hx => by
    obtain ⟨hcF, hF⟩ := List.pairwise_cons.mp hF
    rcases hx c List.mem_cons_self with hxc | hcx
    · -- `x` comes before `c`, so before all of `F`
      refine ⟨[], c :: F, rfl, by simp, fun b hb => ?_⟩
      rcases List.mem_cons.mp hb with rfl | hb
      · exact hxc
      · exact Nat.le_trans hxc (Nat.le_of_lt (Before.addr_lt (hcF b hb)))
    · obtain ⟨A, B, rfl, hA, hB⟩ := exists_split hF fun d hd => hx d (List.mem_cons_of_mem _ hd)
      refine ⟨c :: A, B, rfl, fun a ha => ?_, hB⟩
      rcases List.mem_cons.mp ha with rfl | ha
      · exact hcx
      · exact hA a ha

@[simp] lemma insert_nil : insert y [] = [y] := rfl

lemma insert_gap (h : y.fin < c.addr) : insert y (c :: B) = y :: c :: B := by
  rw [insert, if_pos h]

lemma insert_touch (h : y.fin = c.addr) : insert y (c :: B) = y.join c :: B := by
  rw [insert, if_neg (by omega), if_pos h]

lemma insert_join (hx : 0 < x.units) (h : c.fin = x.addr) : insert x (c :: F) = insert (c.join x) F := by
  have := addr_lt_fin hx
  have := c.addr_le_fin
  rw [insert, if_neg (by omega), if_neg (by omega), if_pos h]

lemma insert_skip (h : c.fin < x.addr) : insert x (c :: F) = c :: insert x F := by
  have := x.addr_le_fin
  have := c.addr_le_fin
  rw [insert, if_neg (by omega), if_neg (by omega), if_neg (by omega)]

lemma insert_append (hA : ∀ a ∈ A, a.fin < x.addr) : insert x (A ++ F) = A ++ insert x F := by
  induction A with
  | nil => rfl
  | cons a A ih =>
    rw [List.cons_append, insert_skip (hA a List.mem_cons_self),
      ih fun b hb => hA b (List.mem_cons_of_mem _ hb), List.cons_append]

end Xv6Net.User.Umalloc
