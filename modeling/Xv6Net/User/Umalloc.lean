import Mathlib

/-! The Kernighan–Ritchie allocator of `umalloc.c` over the headers it reads and writes. Addresses
are byte addresses and `Header*` arithmetic steps by `sizeof(Header)`. `sbrk` is `sys_sbrk` over
`growproc`: it grows the process up to `top` and shrinks it through `deallocuvm`. Every loop runs
for at most `fuel` rounds; `none` means the rounds ran out. -/

namespace Xv6Net.User.Umalloc

/-- `sizeof(Header)` on i386: a pointer and a `uint`. -/
def HDR : ℕ := 8

structure Header where
  ptr : ℕ
  size : ℕ
  deriving DecidableEq, Repr

/-- The headers in memory by address, `freep`, the process size `sz` that `sbrk` moves, and the
size `top` past which `growproc` fails. -/
structure Heap where
  mem : ℕ → Header
  freep : ℕ
  sz : ℕ
  top : ℕ

namespace Heap

def setPtr (h : Heap) (p q : ℕ) : Heap := { h with mem := Function.update h.mem p { h.mem p with ptr := q } }

def setSize (h : Heap) (p n : ℕ) : Heap := { h with mem := Function.update h.mem p { h.mem p with size := n } }

variable (h : Heap) {p q a n : ℕ}

@[simp] lemma setPtr_self : (h.setPtr p q).mem p = { h.mem p with ptr := q } := by simp [setPtr]
@[simp] lemma setPtr_ne (ha : a ≠ p) : (h.setPtr p q).mem a = h.mem a := by simp [setPtr, ha]
@[simp] lemma setSize_self : (h.setSize p n).mem p = { h.mem p with size := n } := by simp [setSize]
@[simp] lemma setSize_ne (ha : a ≠ p) : (h.setSize p n).mem a = h.mem a := by simp [setSize, ha]
@[simp] lemma setPtr_size : ((h.setPtr p q).mem a).size = (h.mem a).size := by
  by_cases ha : a = p
  · subst ha
    simp
  · simp [ha]
@[simp] lemma setSize_ptr : ((h.setSize p n).mem a).ptr = (h.mem a).ptr := by
  by_cases ha : a = p
  · subst ha
    simp
  · simp [ha]
@[simp] lemma setPtr_freep : (h.setPtr p q).freep = h.freep := rfl
@[simp] lemma setSize_freep : (h.setSize p n).freep = h.freep := rfl
@[simp] lemma setPtr_sz : (h.setPtr p q).sz = h.sz := rfl
@[simp] lemma setSize_sz : (h.setSize p n).sz = h.sz := rfl

end Heap

def toInt32 (x : ℕ) : ℤ := if x < 2 ^ 31 then x else (x : ℤ) - 2 ^ 32

/-- `PGROUNDUP`: the first address past the pages of a process of size `sz`. -/
def pgroundup (sz : ℕ) : ℕ := (sz + 4095) / 4096 * 4096

/-- `sys_sbrk(n)`: the old size, once `growproc(n)` moved it; `none` for -1. `deallocuvm(pgdir, sz,
sz + n)` takes the new size as a `uint`: it keeps the old size when the sum wraps past it, and
`growproc` reads a new size of 0 as failure. -/
def sbrk (h : Heap) (n : ℤ) : Option (ℕ × Heap) :=
  if 0 < n then
    if h.sz + n.toNat ≤ h.top then some (h.sz, { h with sz := h.sz + n.toNat }) else none
  else if n < 0 then
    let newsz := (((h.sz : ℤ) + n) % 2 ^ 32).toNat
    if h.sz ≤ newsz then some (h.sz, h)
    else if newsz = 0 then none
    else some (h.sz, { h with sz := newsz })
  else some (h.sz, h)

/-- The search of `free`: `for(p = freep; !(bp > p && bp < p->s.ptr); p = p->s.ptr)
if(p >= p->s.ptr && (bp > p || bp < p->s.ptr)) break;`. -/
def freeSearch (mem : ℕ → Header) (bp : ℕ) : ℕ → ℕ → Option ℕ
  | 0, _ => none
  | fuel + 1, p =>
    if bp > p ∧ bp < (mem p).ptr then some p
    else if p ≥ (mem p).ptr ∧ (bp > p ∨ bp < (mem p).ptr) then some p
    else freeSearch mem bp fuel (mem p).ptr

/-- `free(ap)`: the block goes back into the list after `p`, merged with the block after it and
with `p` where they touch. -/
def free (h : Heap) (ap fuel : ℕ) : Option Heap :=
  let bp := ap - HDR
  (freeSearch h.mem bp fuel h.freep).map fun p =>
    let h := if bp + HDR * (h.mem bp).size = (h.mem p).ptr then
        let h := h.setSize bp ((h.mem bp).size + (h.mem (h.mem p).ptr).size)
        h.setPtr bp (h.mem (h.mem p).ptr).ptr
      else h.setPtr bp (h.mem p).ptr
    let h := if p + HDR * (h.mem p).size = bp then
        let h := h.setSize p ((h.mem p).size + (h.mem bp).size)
        h.setPtr p (h.mem bp).ptr
      else h.setPtr p bp
    { h with freep := p }

/-- `morecore(nu)`: `freep` after the new memory went through `free`, or 0 when `sbrk` failed. The
request `nu * sizeof(Header)` is a `uint` passed to `sbrk` as an `int`. Writing the new header
faults unless its page is mapped. -/
def morecore (h : Heap) (nu fuel : ℕ) : Option (Except String (ℕ × Heap)) :=
  let nu := if nu < 4096 then 4096 else nu
  match sbrk h (toInt32 (nu * HDR % 2 ^ 32)) with
  | none => some (.ok (0, h))
  | some (p, h) =>
    if pgroundup h.sz < p + HDR then some (.error "page fault")
    else (free (h.setSize p nu) (p + HDR) fuel).map fun h => .ok (h.freep, h)

/-- `for(p = prevp->s.ptr; ; prevp = p, p = p->s.ptr)` of `malloc`: the first block of at least
`nunits` units after `freep`, taken whole or from its tail; `morecore` when the walk is back at
`freep`. -/
def mallocLoop (nunits : ℕ) : ℕ → ℕ → ℕ → Heap → Option (Except String (ℕ × Heap))
  | 0, _, _, _ => none
  | fuel + 1, prevp, p, h =>
    if nunits ≤ (h.mem p).size then
      if (h.mem p).size = nunits then some (.ok (p + HDR, { h.setPtr prevp (h.mem p).ptr with freep := prevp }))
      else
        let h := h.setSize p ((h.mem p).size - nunits)
        let p := p + HDR * (h.mem p).size
        some (.ok (p + HDR, { h.setSize p nunits with freep := prevp }))
    else if p = h.freep then
      match morecore h nunits fuel with
      | none => none
      | some (.error e) => some (.error e)
      | some (.ok (p, h)) => if p = 0 then some (.ok (0, h)) else mallocLoop nunits fuel p (h.mem p).ptr h
    else mallocLoop nunits fuel p (h.mem p).ptr h

/-- `nunits = (nbytes + sizeof(Header) - 1)/sizeof(Header) + 1` in `uint` arithmetic. -/
def nunitsOf (nbytes : ℕ) : ℕ := (nbytes + HDR - 1) % 2 ^ 32 / HDR + 1

/-- `malloc(nbytes)`, with `base` the address of the static `base` header. -/
def malloc (base : ℕ) (h : Heap) (nbytes fuel : ℕ) : Option (Except String (ℕ × Heap)) :=
  let h := if h.freep = 0 then { (h.setPtr base base).setSize base 0 with freep := base } else h
  mallocLoop (nunitsOf nbytes) fuel h.freep (h.mem h.freep).ptr h

/-! ### The size arithmetic -/

lemma mallocLoop_size {nunits : ℕ} : ∀ {fuel prevp p : ℕ} {h h' : Heap} {q : ℕ},
    mallocLoop nunits fuel prevp p h = some (.ok (q, h')) → q ≠ 0 → (h'.mem (q - HDR)).size = nunits
  | 0, _, _, _, _, _, hm, _ => by cases hm
  | fuel + 1, prevp, p, h, h', q, hm, hq => by
    rw [mallocLoop] at hm
    split_ifs at hm with hfit hexact hfree
    · cases hm
      simpa using hexact
    · cases hm
      simp
    · split at hm
      · cases hm
      · cases hm
      · rename_i p' h₁ _
        split_ifs at hm with hp'
        · cases hm
          exact absurd rfl hq
        · exact mallocLoop_size hm hq
    · exact mallocLoop_size hm hq

/-- A process of four pages that has not called `malloc` and may grow up to `KERNBASE`; its
`base` is at 0x1000. -/
def sampleHeap : Heap := ⟨fun _ => ⟨0, 0⟩, 0, 0x4000, 0x80000000⟩

/-- `malloc(0xFFFFFFFF)`: `nbytes + sizeof(Header) - 1` wraps, `nunits` is 1, and every block
`malloc` hands out has no usable byte; from `sampleHeap` it returns the new process size, one past
the last byte. `malloc(0x7FFFFFF8)`: `nu * sizeof(Header)` is `2^31`, which `sbrk` reads as a
negative `int`; `growproc`'s shrink leaves the size as it is, `sbrk` succeeds, and the write of the
new header faults. -/
theorem malloc_request_wraps :
    nunitsOf (2 ^ 32 - 1) = 1 ∧
    (∀ base h fuel q h', malloc base h (2 ^ 32 - 1) fuel = some (.ok (q, h')) → q ≠ 0 →
      (h'.mem (q - HDR)).size = 1) ∧
    (malloc 0x1000 sampleHeap (2 ^ 32 - 1) 4).map (Except.map fun r => (r.1, r.2.sz)) = some (.ok (0xC000, 0xC000)) ∧
    toInt32 (nunitsOf (2 ^ 31 - 8) * HDR % 2 ^ 32) = -2 ^ 31 ∧
    (malloc 0x1000 sampleHeap (2 ^ 31 - 8) 4).map (Except.map Prod.fst) = some (.error "page fault") := by
  have hn : nunitsOf (2 ^ 32 - 1) = 1 := by decide
  refine ⟨hn, fun base h fuel q h' hm hq => ?_, by decide, by decide, by decide⟩
  rw [← hn]
  exact mallocLoop_size hm hq

end Xv6Net.User.Umalloc
