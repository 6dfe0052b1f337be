import Mathlib.Data.List.Pairwise
import Xv6Net.User.UmallocBlocks

/-! The invariant of `umalloc.c` over the headers: the free list is the cycle of `ptr` fields from
`base` through the free blocks in address order and back to `base`, and `free` refines `insert`. -/

namespace Xv6Net.User.Umalloc

open Blk

lemma getLast?_getD_mem {a : ℕ} : ∀ {l : List ℕ}, l.getLast?.getD a ∈ a :: l
  | [] => List.mem_cons_self
  | b :: l => by
    rw [List.getLast?_cons, Option.getD_some]
    exact List.mem_cons_of_mem _ getLast?_getD_mem

/-- From `a`, the `ptr` fields run through the headers `l` and then to `z`. -/
def Path (mem : ℕ → Header) : ℕ → List ℕ → ℕ → Prop
  | a, [], z => (mem a).ptr = z
  | a, b :: l, z => (mem a).ptr = b ∧ Path mem b l z

section Path

variable {mem mem' : ℕ → Header} {a b z z' : ℕ}

@[simp] lemma path_nil : Path mem a [] z ↔ (mem a).ptr = z := Iff.rfl

@[simp] lemma path_cons {l : List ℕ} : Path mem a (b :: l) z ↔ (mem a).ptr = b ∧ Path mem b l z :=
  Iff.rfl

lemma path_append {l₂ : List ℕ} : ∀ {a : ℕ} {l₁ : List ℕ},
    Path mem a (l₁ ++ b :: l₂) z ↔ Path mem a l₁ b ∧ Path mem b l₂ z
  | a, [] => by simp
  | a, c :: l₁ => by simp [path_append, and_assoc]

lemma Path.congr : ∀ {a : ℕ} {l : List ℕ}, Path mem a l z →
    (∀ x ∈ a :: l, (mem' x).ptr = (mem x).ptr) → Path mem' a l z
  | _, [], h, hm => (hm _ List.mem_cons_self).trans h
  | _, _ :: _, h, hm =>
    ⟨(hm _ List.mem_cons_self).trans h.1, h.2.congr fun x hx => hm x (List.mem_cons_of_mem _ hx)⟩

lemma Path.redirect : ∀ {a : ℕ} {l : List ℕ}, Path mem a l z → (a :: l).Pairwise (· < ·) →
    (mem' (l.getLast?.getD a)).ptr = z' → (∀ x ∈ a :: l, x < l.getLast?.getD a → (mem' x).ptr = (mem x).ptr) →
    Path mem' a l z'
  | _, [], _, _, hz, _ => hz
  | a, b :: l, h, hs, hz, hm => by
    rw [List.getLast?_cons, Option.getD_some] at hz hm
    have hlast : a < l.getLast?.getD b := List.rel_of_pairwise_cons hs getLast?_getD_mem
    exact ⟨(hm a List.mem_cons_self hlast).trans h.1,
      h.2.redirect hs.of_cons hz fun x hx hlt => hm x (List.mem_cons_of_mem _ hx) hlt⟩

lemma Path.move {a' : ℕ} : ∀ {l : List ℕ}, Path mem a l z → (mem' a').ptr = (mem a).ptr →
    (∀ x ∈ l, (mem' x).ptr = (mem x).ptr) → Path mem' a' l z
  | [], h, ha, _ => ha.trans h
  | _ :: _, h, ha, hm => ⟨ha.trans h.1, h.2.congr hm⟩

end Path

/-! ### The invariant -/

/-- A block of the heap: its header holds its size, it is not empty, and it lies in the heap
above `start`. -/
structure InHeap (start : ℕ) (h : Heap) (b : Blk) : Prop where
  size : (h.mem b.addr).size = b.units
  pos : 0 < b.units
  lo : start ≤ b.addr
  hi : b.fin ≤ h.sz

/-- The free list of blocks `free`: from `base` the `ptr` fields run through them in address order
and back to `base`, and `freep` is on that cycle. -/
structure FreeList (base start : ℕ) (h : Heap) (free : List Blk) : Prop where
  path : Path h.mem base (free.map Blk.addr) base
  base_size : (h.mem base).size = 0
  blocks : ∀ b ∈ free, InHeap start h b
  sorted : free.Pairwise Before
  freep : h.freep ∈ base :: free.map Blk.addr

/-- The blocks `malloc` handed out and `free` has not taken back share no byte with each other or
with a free block. -/
structure LiveOk (start : ℕ) (h : Heap) (free live : List Blk) : Prop where
  blocks : ∀ b ∈ live, InHeap start h b
  apart : live.Pairwise Apart
  apart_free : ∀ b ∈ live, ∀ c ∈ free, b.Apart c

/-- The allocator's invariant; before the first `malloc`, `freep` is null and nothing is free or
live. -/
def Inv (base start : ℕ) (h : Heap) (free live : List Blk) : Prop :=
  start ≤ h.sz ∧
    (h.freep = 0 ∧ free = [] ∧ live = [] ∨ FreeList base start h free ∧ LiveOk start h free live)

lemma InHeap.frame {start : ℕ} {h h' : Heap} {b : Blk} (hb : InHeap start h b)
    (hm : (h'.mem b.addr).size = (h.mem b.addr).size) (hsz : h.sz ≤ h'.sz) : InHeap start h' b :=
  ⟨hm.trans hb.size, hb.pos, hb.lo, Nat.le_trans hb.hi hsz⟩

section Frame

variable {base start : ℕ} {h h' : Heap} {F live : List Blk}

lemma FreeList.frame (hF : FreeList base start h F) (hm : ∀ a ∈ base :: F.map addr, h'.mem a = h.mem a)
    (hfp : h'.freep = h.freep) (hsz : h.sz ≤ h'.sz) : FreeList base start h' F where
  path := hF.path.congr fun a ha => by rw [hm a ha]
  base_size := by rw [hm base List.mem_cons_self, hF.base_size]
  blocks b hb := (hF.blocks b hb).frame (by rw [hm b.addr (List.mem_cons_of_mem _ (List.mem_map_of_mem hb))]) hsz
  sorted := hF.sorted
  freep := hfp ▸ hF.freep

lemma LiveOk.frame (hL : LiveOk start h F live) (hm : ∀ b ∈ live, h'.mem b.addr = h.mem b.addr)
    (hsz : h.sz ≤ h'.sz) : LiveOk start h' F live where
  blocks b hb := (hL.blocks b hb).frame (by rw [hm b hb]) hsz
  apart := hL.apart
  apart_free := hL.apart_free

lemma LiveOk.nodup (hL : LiveOk start h F live) : live.Nodup :=
  hL.apart.imp_of_mem fun ha hb hab hEq =>
    hab.addr_ne (hL.blocks _ ha).pos (hL.blocks _ hb).pos (congrArg addr hEq)

lemma LiveOk.not_mem_cycle (hL : LiveOk start h F live) (hF : FreeList base start h F)
    (hstart : base + HDR ≤ start) {b : Blk} (hb : b ∈ live) : b.addr ∉ base :: F.map addr := by
  intro hmem
  rcases List.mem_cons.mp hmem with hbase | hmem
  · have := (hL.blocks b hb).lo
    unfold HDR at hstart
    omega
  · obtain ⟨c, hc, hcb⟩ := List.mem_map.mp hmem
    exact (hL.apart_free b hb c hc).addr_ne (hL.blocks b hb).pos (hF.blocks c hc).pos hcb.symm

end Frame

/-! ### The search of `free` -/

lemma freeSearch_mono {mem : ℕ → Header} {bp p : ℕ} : ∀ {fuel fuel' y : ℕ},
    freeSearch mem bp fuel y = some p → fuel ≤ fuel' → freeSearch mem bp fuel' y = some p
  | 0, _, _, h, _ => by cases h
  | fuel + 1, fuel' + 1, y, h, hf => by
    rw [freeSearch] at h ⊢
    split_ifs at h ⊢
    · exact h
    · exact h
    · exact freeSearch_mono h (by omega)
  | _ + 1, 0, _, _, hf => absurd hf (by omega)

section Search

variable {mem : ℕ → Header} {base bp : ℕ}

lemma search_below {nxt : ℕ} (hnxt : nxt = base ∨ bp < nxt) : ∀ {ys : List ℕ} {y fuel : ℕ},
    Path mem y ys nxt → (y :: ys).Pairwise (· < ·) → (∀ v ∈ y :: ys, base ≤ v ∧ v < bp) →
    ys.length < fuel → freeSearch mem bp fuel y = some (ys.getLast?.getD y)
  | _, _, 0, _, _, _, hf => absurd hf (Nat.not_lt_zero _)
  | [], y, fuel + 1, hp, _, hv, _ => by
    obtain ⟨hy₁, hy₂⟩ := hv y List.mem_cons_self
    rw [path_nil] at hp
    rw [freeSearch, hp]
    rcases hnxt with rfl | hnxt
    · rw [if_neg (by omega), if_pos (by omega)]
      rfl
    · rw [if_pos ⟨hy₂, hnxt⟩]
      rfl
  | y' :: ys, y, fuel + 1, hp, hs, hv, hf => by
    have hyy' : y < y' := List.rel_of_pairwise_cons hs List.mem_cons_self
    have hy' : y' < bp := (hv y' (List.mem_cons_of_mem _ List.mem_cons_self)).2
    rw [freeSearch, hp.1, if_neg (by omega), if_neg (by omega), List.getLast?_cons, Option.getD_some]
    exact search_below hnxt hp.2 hs.of_cons (fun v hv' => hv v (List.mem_cons_of_mem _ hv'))
      (by simpa using hf)

lemma search_above (hbp : base < bp) : ∀ {ys : List ℕ} {y fuel : ℕ}, Path mem y ys base →
    (y :: ys).Pairwise (· < ·) → (∀ v ∈ y :: ys, bp < v) → ys.length < fuel →
    freeSearch mem bp fuel y = freeSearch mem bp (fuel - (ys.length + 1)) base
  | _, _, 0, _, _, _, hf => absurd hf (Nat.not_lt_zero _)
  | [], y, fuel + 1, hp, _, hv, _ => by
    have hy := hv y List.mem_cons_self
    rw [path_nil] at hp
    rw [freeSearch, hp, if_neg (by omega), if_neg (by omega)]
    rfl
  | y' :: ys, y, fuel + 1, hp, hs, hv, hf => by
    have hyy' : y < y' := List.rel_of_pairwise_cons hs List.mem_cons_self
    have hy := hv y List.mem_cons_self
    rw [freeSearch, hp.1, if_neg (by omega), if_neg (by omega)]
    rw [search_above hbp hp.2 hs.of_cons (fun v hv' => hv v (List.mem_cons_of_mem _ hv'))
      (by simpa using hf)]
    simp only [List.length_cons]
    congr 1
    omega

end Search

section FreeList

variable {base start bp fuel : ℕ} {h : Heap} {F A B : List Blk}

lemma FreeList.nodes_sorted (hF : FreeList base start h F) (hstart : base + HDR ≤ start) :
    (base :: F.map addr).Pairwise (· < ·) := by
  refine List.pairwise_cons.mpr ⟨fun v hv => ?_, List.pairwise_map.mpr (hF.sorted.imp Before.addr_lt)⟩
  obtain ⟨b, hb, rfl⟩ := List.mem_map.mp hv
  have := (hF.blocks b hb).lo
  unfold HDR at hstart
  omega

lemma FreeList.search (hF : FreeList base start h (A ++ B)) (hstart : base + HDR ≤ start)
    (hA : ∀ a ∈ A, a.addr < bp) (hB : ∀ b ∈ B, bp < b.addr) (hbp : base < bp)
    (hfuel : A.length + B.length + 1 < fuel) :
    freeSearch h.mem bp fuel h.freep = some ((A.map addr).getLast?.getD base) := by
  have hs := hF.nodes_sorted hstart
  have hpath := hF.path
  have hfreep := hF.freep
  rw [List.map_append] at hs hpath hfreep
  -- the headers below `bp` lead from `base` to the first header above it, or back to `base`
  have hpA : Path h.mem base (A.map addr) ((B.map addr).head?.getD base) := by
    cases hBn : B.map addr with
    | nil => simpa [hBn] using hpath
    | cons c Bn => exact (path_append.mp (hBn ▸ hpath)).1
  have hnxt : (B.map addr).head?.getD base = base ∨ bp < (B.map addr).head?.getD base := by
    cases hBn : B.map addr with
    | nil => exact .inl rfl
    | cons c Bn =>
      obtain ⟨b, hb, rfl⟩ := List.mem_map.mp (hBn ▸ List.mem_cons_self : c ∈ B.map addr)
      exact .inr (hB b hb)
  have hbelow : ∀ v ∈ base :: A.map addr, base ≤ v ∧ v < bp := by
    intro v hv
    rcases List.mem_cons.mp hv with rfl | hv
    · exact ⟨le_rfl, hbp⟩
    · obtain ⟨a, ha, rfl⟩ := List.mem_map.mp hv
      exact ⟨Nat.le_of_lt (List.rel_of_pairwise_cons hs (List.mem_append_left _ hv)), hA a ha⟩
  have hsA : (base :: A.map addr).Pairwise (· < ·) :=
    hs.sublist ((List.sublist_append_left _ _).cons_cons _)
  have from_base : ∀ {fuel}, A.length < fuel →
      freeSearch h.mem bp fuel base = some ((A.map addr).getLast?.getD base) := fun hf =>
    search_below hnxt hpA hsA hbelow (by simpa using hf)
  rcases List.mem_cons.mp hfreep with hfp | hfp
  · rw [hfp]
    exact from_base (by omega)
  rcases List.mem_append.mp hfp with hfp | hfp
  · -- `freep` is below `bp`: the search walks up to the last block of `A`
    obtain ⟨P, Q, hPQ⟩ := List.append_of_mem hfp
    rw [hPQ] at hpA hbelow ⊢
    rw [List.getLast?_append_cons, List.getLast?_cons, Option.getD_some]
    refine search_below hnxt (path_append.mp hpA).2 ?_
      (fun v hv => hbelow v (List.mem_cons_of_mem _ (List.mem_append_right _ hv))) ?_
    · exact hs.sublist (List.IsInfix.sublist ⟨base :: P, B.map addr, by simp [hPQ]⟩)
    · have := congrArg List.length hPQ
      simp only [List.length_map, List.length_append, List.length_cons] at this
      omega
  · -- `freep` is above `bp`: the search walks on to `base`, then up through `A`
    obtain ⟨P, Q, hPQ⟩ := List.append_of_mem hfp
    have hlen := congrArg List.length hPQ
    simp only [List.length_map, List.length_append, List.length_cons] at hlen
    rw [hPQ, ← List.append_assoc] at hpath
    rw [search_above hbp (path_append.mp hpath).2 ?_ ?_ (by omega)]
    · exact from_base (by omega)
    · exact hs.sublist (List.IsInfix.sublist ⟨base :: A.map addr ++ P, [], by simp [hPQ]⟩)
    · intro v hv
      obtain ⟨b, hb, rfl⟩ := List.mem_map.mp (hPQ ▸ List.mem_append_right _ hv : v ∈ B.map addr)
      exact hB b hb

end FreeList

/-! ### The updates of `free` -/

/-- The first update of `free`: the new block's header, joined with the block after `p` when it
ends where that one starts. -/
def joinUpper (h : Heap) (bp p : ℕ) : Heap :=
  if bp + HDR * (h.mem bp).size = (h.mem p).ptr then
    let h := h.setSize bp ((h.mem bp).size + (h.mem (h.mem p).ptr).size)
    h.setPtr bp (h.mem (h.mem p).ptr).ptr
  else h.setPtr bp (h.mem p).ptr

/-- The second update of `free`: `p` joined with the new block when it ends where that one starts,
or pointed at it. -/
def joinLower (h : Heap) (bp p : ℕ) : Heap :=
  if p + HDR * (h.mem p).size = bp then
    let h := h.setSize p ((h.mem p).size + (h.mem bp).size)
    h.setPtr p (h.mem bp).ptr
  else h.setPtr p bp

lemma free_eq (h : Heap) (ap fuel : ℕ) : free h ap fuel =
    (freeSearch h.mem (ap - HDR) fuel h.freep).map fun p =>
      { joinLower (joinUpper h (ap - HDR) p) (ap - HDR) p with freep := p } := rfl

section Join

variable {h : Heap} {bp p z : ℕ}

lemma joinUpper_ne (hz : z ≠ bp) : (joinUpper h bp p).mem z = h.mem z := by
  unfold joinUpper
  split_ifs <;> simp [hz]

lemma joinLower_ne (hz : z ≠ p) : (joinLower h bp p).mem z = h.mem z := by
  unfold joinLower
  split_ifs <;> simp [hz]

lemma joinUpper_sz : (joinUpper h bp p).sz = h.sz := by
  unfold joinUpper
  split_ifs <;> rfl

lemma joinLower_sz : (joinLower h bp p).sz = h.sz := by
  unfold joinLower
  split_ifs <;> rfl

lemma joinUpper_top : (joinUpper h bp p).top = h.top := by
  unfold joinUpper
  split_ifs <;> rfl

lemma joinLower_top : (joinLower h bp p).top = h.top := by
  unfold joinLower
  split_ifs <;> rfl

end Join

section Free

variable {base start fuel : ℕ} {h h' : Heap} {x : Blk} {F A B : List Blk}

lemma joinUpper_spec {p : ℕ} (hpB : Path h.mem p (B.map addr) base)
    (hBs : ∀ c ∈ B, (h.mem c.addr).size = c.units) (hxs : (h.mem x.addr).size = x.units)
    (hxpos : 0 < x.units) (hB : ∀ c ∈ B, x.fin ≤ c.addr) (hbx : base < x.addr) :
    ∃ u R, (∀ z : Blk, z.fin = x.fin → insert z B = ⟨z.addr, z.units + u⟩ :: R) ∧ (∀ r ∈ R, r ∈ B) ∧
      ((joinUpper h x.addr p).mem x.addr).size = x.units + u ∧
      Path (joinUpper h x.addr p).mem x.addr (R.map addr) base := by
  have hxf := addr_lt_fin hxpos
  unfold fin at hxf hB
  cases B with
  | nil =>
    rw [List.map_nil, path_nil] at hpB
    refine ⟨0, [], fun z _ => rfl, by simp, ?_, ?_⟩
    all_goals
      unfold joinUpper
      rw [hpB, hxs, if_neg (by omega)]
      simp [hxs]
  | cons c B =>
    obtain ⟨hpc, hcB⟩ := hpB
    have hxc := hB c List.mem_cons_self
    -- the headers from `c` on lie above `x`
    have hnodes : ∀ y ∈ (c :: B).map addr, y ≠ x.addr := by
      intro y hy
      obtain ⟨b, hb, rfl⟩ := List.mem_map.mp hy
      have := hB b hb
      omega
    by_cases ht : x.addr + HDR * x.units = c.addr
    · -- `x` touches the block after it: the two become one
      refine ⟨c.units, B, fun z hz => insert_touch (hz.trans ht),
        fun r hr => List.mem_cons_of_mem _ hr, ?_, ?_⟩
      · unfold joinUpper
        rw [hpc, hxs, if_pos ht]
        simp [hBs c List.mem_cons_self]
      · unfold joinUpper
        rw [hpc, hxs, if_pos ht]
        refine hcB.move (by simp [hpc]) fun y hy => ?_
        simp [hnodes y (List.mem_cons_of_mem _ hy)]
    · refine ⟨0, c :: B, fun z hz => insert_gap (by unfold fin at hz ⊢; omega), fun r hr => hr, ?_, ?_⟩
      · unfold joinUpper
        rw [hpc, hxs, if_neg ht]
        simpa using hxs
      · unfold joinUpper
        rw [hpc, hxs, if_neg ht]
        refine ⟨by simp, hcB.congr fun y hy => ?_⟩
        simp [hnodes y hy]

lemma inHeap_insert (hF : ∀ c ∈ F, InHeap start h c) (hx : InHeap start h x) (hsz : h'.sz = h.sz)
    (hsize : ∀ d ∈ insert x F, (h'.mem d.addr).size = d.units) : ∀ d ∈ insert x F, InHeap start h' d := by
  intro d hd
  have key : start ≤ d.addr ∧ d.fin ≤ h.sz ∧ 0 < d.units := by
    refine forall_insert (P := fun d => start ≤ d.addr ∧ d.fin ≤ h.sz ∧ 0 < d.units) ?_
      ⟨hx.lo, hx.hi, hx.pos⟩ (fun c hc => ⟨(hF c hc).lo, (hF c hc).hi, (hF c hc).pos⟩) d hd
    rintro b c hbc ⟨hb₁, -, hb₃⟩ ⟨-, hc₂, -⟩
    exact ⟨hb₁, (fin_join hbc).symm ▸ hc₂, Nat.add_pos_left hb₃ _⟩
  exact ⟨hsize d hd, key.2.2, key.1, hsz ▸ key.2.1⟩

/-- A block apart from the free ones splits them into those below it and those above it. -/
lemma FreeList.split (hF : FreeList base start h F) (hstart : base + HDR ≤ start) (hx : InHeap start h x)
    (hxF : ∀ c ∈ F, x.Apart c) :
    ∃ A B, F = A ++ B ∧ (∀ a ∈ A, a.fin ≤ x.addr) ∧ (∀ b ∈ B, x.fin ≤ b.addr) ∧ base < x.addr ∧
      (∀ a ∈ A, a.addr < x.addr) ∧ ∀ b ∈ B, x.addr < b.addr := by
  obtain ⟨A, B, rfl, hA, hB⟩ := exists_split hF.sorted hxF
  have hbx : base < x.addr := by
    have := hx.lo
    unfold HDR at hstart
    omega
  refine ⟨A, B, rfl, hA, hB, hbx, fun a ha => ?_, fun b hb => lt_of_lt_of_le (addr_lt_fin hx.pos) (hB b hb)⟩
  exact lt_of_lt_of_le (addr_lt_fin (hF.blocks a (List.mem_append_left _ ha)).pos) (hA a ha)

lemma FreeList.free_isSome (hF : FreeList base start h F) (hstart : base + HDR ≤ start) (hx : InHeap start h x)
    (hxF : ∀ c ∈ F, x.Apart c) (hfuel : F.length + 1 < fuel) : (free h (x.addr + HDR) fuel).isSome := by
  obtain ⟨A, B, rfl, -, -, hbx, hA', hB'⟩ := hF.split hstart hx hxF
  rw [free_eq, Nat.add_sub_cancel, hF.search hstart hA' hB' hbx (by simpa using hfuel)]
  rfl

/-- `free` refines `insert`: it threads `x` into the cycle at its place in address order, joined
with the free blocks it touches, and changes no other header than `x`'s and its predecessor's. -/
theorem FreeList.free_insert (hF : FreeList base start h F) (hstart : base + HDR ≤ start)
    (hx : InHeap start h x) (hxF : ∀ c ∈ F, x.Apart c) (hfree : free h (x.addr + HDR) fuel = some h') :
    FreeList base start h' (insert x F) ∧ h'.sz = h.sz ∧ h'.top = h.top ∧
      ∀ z, z ≠ x.addr → z ∉ base :: F.map addr → h'.mem z = h.mem z := by
  have hsorted := sorted_insert hF.sorted hxF
  obtain ⟨A, B, rfl, hA, hB, hbx, hA', hB'⟩ := hF.split hstart hx hxF
  have hFs : ∀ c ∈ A ++ B, (h.mem c.addr).size = c.units := fun c hc => (hF.blocks c hc).size
  rw [free_eq, Nat.add_sub_cancel] at hfree
  obtain ⟨p, hp, rfl⟩ := Option.map_eq_some_iff.mp hfree
  -- the search stops at the block before `x`, however much fuel it had
  have hp : p = (A.map addr).getLast?.getD base := by
    have := hF.search hstart hA' hB' hbx
      (show A.length + B.length + 1 < fuel + A.length + B.length + 2 by omega)
    rw [freeSearch_mono hp (by omega)] at this
    exact Option.some.inj this
  have hpmem : p ∈ base :: (A ++ B).map addr := by
    rw [hp, List.map_append]
    exact List.mem_cons.mpr ((List.mem_cons.mp getLast?_getD_mem).imp id (List.mem_append_left _))
  refine ⟨?_, joinLower_sz.trans joinUpper_sz, joinLower_top.trans joinUpper_top, fun z hz hzF => ?_⟩
  swap
  · show (joinLower (joinUpper h x.addr p) x.addr p).mem z = h.mem z
    rw [joinLower_ne (fun (hzp : z = p) => hzF (hzp ▸ hpmem)), joinUpper_ne hz]
  suffices key : Path (joinLower (joinUpper h x.addr p) x.addr p).mem base
      ((insert x (A ++ B)).map addr) base ∧ ((joinLower (joinUpper h x.addr p) x.addr p).mem base).size = 0 ∧
      (∀ d ∈ insert x (A ++ B), ((joinLower (joinUpper h x.addr p) x.addr p).mem d.addr).size = d.units) ∧
      p ∈ base :: (insert x (A ++ B)).map addr from
    ⟨key.1, key.2.1, inHeap_insert hF.blocks hx (joinLower_sz.trans joinUpper_sz) key.2.2.1, hsorted,
      key.2.2.2⟩
  have hframe : ∀ z, z ≠ x.addr → z ≠ p → (joinLower (joinUpper h x.addr p) x.addr p).mem z = h.mem z :=
    fun z hz hzp => by rw [joinLower_ne hzp, joinUpper_ne hz]
  rcases List.eq_nil_or_concat A with rfl | ⟨A₀, a, rfl⟩
  · -- nothing free below `x`: `base` points at it
    have hp0 : p = base := by simpa using hp
    subst hp0
    obtain ⟨u, R, hins, hRB, hsz₁, hpath₁⟩ :=
      joinUpper_spec (by simpa using hF.path) (fun c hc => hFs c hc) hx.size hx.pos hB hbx
    have hR : ∀ r ∈ R, p < r.addr ∧ x.addr < r.addr := fun r hr =>
      ⟨Nat.lt_trans hbx (hB' r (hRB r hr)), hB' r (hRB r hr)⟩
    have hlow : joinLower (joinUpper h x.addr p) x.addr p = (joinUpper h x.addr p).setPtr p x.addr := by
      unfold joinLower
      rw [if_neg (by rw [joinUpper_ne (Nat.ne_of_lt hbx), hF.base_size]; omega)]
    rw [hins x rfl, hlow]
    refine ⟨⟨by simp, hpath₁.congr fun y hy => ?_⟩, by simp [joinUpper_ne (Nat.ne_of_lt hbx), hF.base_size],
      fun d hd => ?_, List.mem_cons_self⟩
    · rcases List.mem_cons.mp hy with rfl | hy
      · simp [Nat.ne_of_gt hbx]
      · obtain ⟨r, hr, rfl⟩ := List.mem_map.mp hy
        simp [Nat.ne_of_gt (hR r hr).1]
    · rcases List.mem_cons.mp hd with rfl | hd
      · simpa using hsz₁
      · have := hR d hd
        rw [Heap.setPtr_size, joinUpper_ne (Nat.ne_of_gt this.2)]
        exact hFs d (List.mem_append_right _ (hRB d hd))
  · -- `a` is the last free block below `x`, and `free`'s predecessor
    rw [List.concat_eq_append] at *
    have hpa : p = a.addr := by simpa using hp
    subst hpa
    have hpath := hF.path
    rw [List.append_assoc, List.map_append, List.map_append, List.map_singleton,
      List.singleton_append] at hpath
    obtain ⟨hpA₀, hpB⟩ := path_append.mp hpath
    obtain ⟨u, R, hins, hRB, hsz₁, hpath₁⟩ :=
      joinUpper_spec hpB (fun c hc => hFs c (List.mem_append_right _ hc)) hx.size hx.pos hB hbx
    have hamem : a ∈ A₀ ++ [a] := List.mem_append_right _ List.mem_cons_self
    have hax : a.addr < x.addr := hA' a hamem
    have has : (h.mem a.addr).size = a.units := hFs a (List.mem_append_left _ hamem)
    have hR : ∀ r ∈ R, x.addr < r.addr := fun r hr => hB' r (hRB r hr)
    -- the headers from `base` up to `a` lie below `a`
    have hA₀ : ∀ c ∈ A₀, c.fin < a.addr := fun c hc =>
      (List.pairwise_append.mp (List.pairwise_append.mp hF.sorted).1).2.2 c hc a List.mem_cons_self
    have hbelow : ∀ y ∈ base :: A₀.map addr, y < a.addr := by
      intro y hy
      rcases List.mem_cons.mp hy with rfl | hy
      · exact List.rel_of_pairwise_cons (hF.nodes_sorted hstart) (by simp)
      · obtain ⟨c, hc, rfl⟩ := List.mem_map.mp hy
        exact Nat.lt_of_le_of_lt c.addr_le_fin (hA₀ c hc)
    have hA₀x : ∀ c ∈ A₀, c.fin < x.addr := fun c hc =>
      Nat.lt_of_lt_of_le (hA₀ c hc) (Nat.le_trans a.addr_le_fin (hA a hamem))
    have hRa : ∀ r ∈ R, (joinLower (joinUpper h x.addr a.addr) x.addr a.addr).mem r.addr =
        (joinUpper h x.addr a.addr).mem r.addr := fun r hr =>
      joinLower_ne (Nat.ne_of_gt (Nat.lt_trans hax (hR r hr)))
    by_cases ht : a.addr + HDR * a.units = x.addr
    · -- `a` ends where `x` starts: `a` takes `x` in
      have hat : ((joinLower (joinUpper h x.addr a.addr) x.addr a.addr).mem a.addr).ptr =
            ((joinUpper h x.addr a.addr).mem x.addr).ptr ∧
          ((joinLower (joinUpper h x.addr a.addr) x.addr a.addr).mem a.addr).size = a.units + (x.units + u) := by
        unfold joinLower
        rw [joinUpper_ne (Nat.ne_of_lt hax), has, if_pos ht, hsz₁]
        simp [Nat.ne_of_gt hax]
      have hN : insert x (A₀ ++ [a] ++ B) = A₀ ++ ⟨a.addr, a.units + x.units + u⟩ :: R := by
        rw [List.append_assoc, insert_append hA₀x, List.singleton_append, insert_join hx.pos ht,
          hins _ (fin_join ht)]
        rfl
      rw [hN]
      refine ⟨?_, ?_, fun d hd => ?_, by simp⟩
      · rw [List.map_append, List.map_cons]
        refine path_append.mpr ⟨hpA₀.congr fun y hy => ?_, hpath₁.move hat.1 fun y hy => ?_⟩
        · have := hbelow y hy
          rw [hframe y (by omega) (by omega)]
        · obtain ⟨r, hr, rfl⟩ := List.mem_map.mp hy
          rw [hRa r hr]
      · have := hbelow base List.mem_cons_self
        rw [hframe base (by omega) (by omega), hF.base_size]
      · rcases List.mem_append.mp hd with hd | hd
        · have := hA₀ d hd
          have := d.addr_le_fin
          rw [hframe d.addr (by omega) (by omega)]
          exact hFs d (List.mem_append_left _ (List.mem_append_left _ hd))
        rcases List.mem_cons.mp hd with rfl | hd
        · rw [hat.2]
          show a.units + (x.units + u) = a.units + x.units + u
          omega
        · have := hR d hd
          rw [hframe d.addr (by omega) (by omega)]
          exact hFs d (List.mem_append_right _ (hRB d hd))
    · -- a gap between `a` and `x`: `a` points at `x`
      have hat : (joinLower (joinUpper h x.addr a.addr) x.addr a.addr).mem a.addr =
          { h.mem a.addr with ptr := x.addr } := by
        unfold joinLower
        rw [joinUpper_ne (Nat.ne_of_lt hax), has, if_neg ht]
        simp [joinUpper_ne (Nat.ne_of_lt hax)]
      have hxa : (joinLower (joinUpper h x.addr a.addr) x.addr a.addr).mem x.addr =
          (joinUpper h x.addr a.addr).mem x.addr := joinLower_ne (Nat.ne_of_gt hax)
      have hgap : ∀ c ∈ A₀ ++ [a], c.fin < x.addr := by
        intro c hc
        rcases List.mem_append.mp hc with hc | hc
        · exact hA₀x c hc
        · rw [List.mem_singleton.mp hc]
          exact Nat.lt_of_le_of_ne (hA a hamem) ht
      rw [insert_append hgap, hins x rfl]
      refine ⟨?_, ?_, fun d hd => ?_, by simp⟩
      · rw [List.map_append, List.map_append, List.map_singleton, List.map_cons, List.append_assoc,
          List.singleton_append]
        refine path_append.mpr ⟨hpA₀.congr fun y hy => ?_, by simp [hat], hpath₁.congr fun y hy => ?_⟩
        · have := hbelow y hy
          rw [hframe y (by omega) (by omega)]
        · rcases List.mem_cons.mp hy with rfl | hy
          · rw [hxa]
          · obtain ⟨r, hr, rfl⟩ := List.mem_map.mp hy
            rw [hRa r hr]
      · have := hbelow base List.mem_cons_self
        rw [hframe base (by omega) (by omega), hF.base_size]
      · rcases List.mem_append.mp hd with hd | hd
        · rcases List.mem_append.mp hd with hd | hd
          · have := hA₀ d hd
            have := d.addr_le_fin
            rw [hframe d.addr (by omega) (by omega)]
            exact hFs d (List.mem_append_left _ (List.mem_append_left _ hd))
          · rw [List.mem_singleton.mp hd, hat]
            exact has
        rcases List.mem_cons.mp hd with rfl | hd
        · rw [hxa]
          exact hsz₁
        · have := hR d hd
          rw [hframe d.addr (by omega) (by omega)]
          exact hFs d (List.mem_append_right _ (hRB d hd))

lemma free_live_of_some {live : List Blk} {b : Blk} (hF : FreeList base start h F)
    (hL : LiveOk start h F live) (hstart : base + HDR ≤ start) (hb : b ∈ live)
    (hfree : free h (b.addr + HDR) fuel = some h') :
    FreeList base start h' (insert b F) ∧ LiveOk start h' (insert b F) (live.erase b) ∧
      h'.sz = h.sz ∧ h'.top = h.top := by
  obtain ⟨hF', hsz, htop, hframe⟩ :=
    hF.free_insert hstart (hL.blocks b hb) (hL.apart_free b hb) hfree
  -- every block still live is another block than `b`, apart from it
  have hother : ∀ y ∈ live.erase b, y ∈ live ∧ y.Apart b := fun y hy => by
    obtain ⟨hyb, hy⟩ := (List.Nodup.mem_erase_iff hL.nodup).mp hy
    exact ⟨hy, hL.apart.forall hy hb hyb⟩
  refine ⟨hF', ⟨fun y hy => ?_, hL.apart.erase b, fun y hy d hd => ?_⟩, hsz, htop⟩
  · obtain ⟨hy, hyb⟩ := hother y hy
    refine (hL.blocks y hy).frame ?_ (Nat.le_of_eq hsz.symm)
    rw [hframe y.addr (hyb.addr_ne (hL.blocks y hy).pos (hL.blocks b hb).pos) (hL.not_mem_cycle hF hstart hy)]
  · obtain ⟨hy, hyb⟩ := hother y hy
    exact forall_insert (P := y.Apart) (fun c e hce hc he => Apart.join (hL.blocks y hy).pos hce hc he)
      hyb (hL.apart_free y hy) d hd

end Free

/-- With a round for each free block and one more, `free` of a live block returns: the block leaves
the live list and goes into the free list, which stays a cycle in address order apart from the
blocks still live. -/
theorem free_live {live : List Blk} {b : Blk} (hF : FreeList base start h F)
    (hL : LiveOk start h F live) (hstart : base + HDR ≤ start) (hb : b ∈ live) (hfuel : F.length + 1 < fuel) :
    ∃ h', free h (b.addr + HDR) fuel = some h' ∧ FreeList base start h' (insert b F) ∧
      LiveOk start h' (insert b F) (live.erase b) ∧ h'.sz = h.sz ∧ h'.top = h.top := by
  obtain ⟨h', hfree⟩ :=
    Option.isSome_iff_exists.mp (hF.free_isSome hstart (hL.blocks b hb) (hL.apart_free b hb) hfuel)
  exact ⟨h', hfree, free_live_of_some hF hL hstart hb hfree⟩

/-- One live block of two headers above `base`, nothing free: `base` points to itself. -/
def oneLive : Heap := ⟨fun a => if a = 8 then ⟨0, 2⟩ else ⟨0, 0⟩, 0, 24, 4096⟩

theorem free_only_live :
    FreeList 0 8 oneLive [] ∧ LiveOk 8 oneLive [] [⟨8, 2⟩] ∧ 0 + HDR ≤ 8 ∧ (⟨8, 2⟩ : Blk) ∈ [⟨8, 2⟩] ∧
      ([] : List Blk).length + 1 < 2 ∧
      ∃ h', free oneLive (8 + HDR) 2 = some h' ∧ FreeList 0 8 h' (Umalloc.insert ⟨8, 2⟩ []) ∧
        LiveOk 8 h' (Umalloc.insert ⟨8, 2⟩ []) ([⟨8, 2⟩].erase ⟨8, 2⟩) ∧ h'.sz = oneLive.sz ∧ h'.top = oneLive.top := by
  have hF : FreeList 0 8 oneLive [] := ⟨rfl, rfl, by simp, List.Pairwise.nil, by simp [oneLive]⟩
  have hin : InHeap 8 oneLive ⟨8, 2⟩ := ⟨rfl, by decide, le_rfl, by decide⟩
  have hL : LiveOk 8 oneLive [] [⟨8, 2⟩] := ⟨by simpa using hin, List.pairwise_singleton _ _, by simp⟩
  have hfree := free_live hF hL (by decide) (List.mem_singleton_self _)
    (show ([] : List Blk).length + 1 < 2 by decide)
  refine ⟨hF, hL, by decide, List.mem_singleton_self _, by decide, ?_⟩
  exact hfree

end Xv6Net.User.Umalloc
