import Xv6Net.Lib.Bytes

/-! Two-level i386 page tables as `vm.c` builds them: `kalloc`/`kfree` over the free page list,
`walkpgdir`, `mappages`, `setupkvm`, `allocuvm`, `deallocuvm`, `freevm`, `copyuvm`, `uva2ka` and
`copyout`. Kernel pointers are kept as the physical addresses they map to: the C pointer `P2V(pa)`
is `pa` here, so `V2P` and `P2V` between a pointer and a table entry cancel. Loops run on explicit
fuel, always at least their number of rounds. -/

namespace Xv6Net.Kernel.Vm

open Xv6Net.Lib.Bytes

def PGSIZE : UInt32 := 4096
def NPDENTRIES : ℕ := 1024
def PTE_P : UInt32 := 0x001
def PTE_W : UInt32 := 0x002
def PTE_U : UInt32 := 0x004

def EXTMEM : UInt32 := 0x100000
def PHYSTOP : UInt32 := 0xE000000
def DEVSPACE : UInt32 := 0xFE000000
def KERNBASE : UInt32 := 0x80000000
def KERNLINK : UInt32 := KERNBASE + EXTMEM

def V2P (a : UInt32) : UInt32 := a - KERNBASE
def P2V (a : UInt32) : UInt32 := a + KERNBASE

def PDX (va : UInt32) : UInt32 := (va >>> 22) &&& 0x3FF
def PTX (va : UInt32) : UInt32 := (va >>> 12) &&& 0x3FF
def PGADDR (d t o : UInt32) : UInt32 := d <<< 22 ||| t <<< 12 ||| o
def PGROUNDUP (sz : UInt32) : UInt32 := (sz + PGSIZE - 1) &&& ~~~(PGSIZE - 1)
def PGROUNDDOWN (a : UInt32) : UInt32 := a &&& ~~~(PGSIZE - 1)
def PTE_ADDR (pte : UInt32) : UInt32 := pte &&& ~~~0xFFF
def PTE_FLAGS (pte : UInt32) : UInt32 := pte &&& 0xFFF

/-- Physical memory and `kmem.freelist`, head first. The link each free page holds in its first
word is the list itself. -/
structure Phys where
  mem : Mem
  free : List UInt32

namespace Phys

def load (st : Phys) (a : UInt32) : UInt32 := st.mem.load32 a.toNat

def store (st : Phys) (a v : UInt32) : Phys := { st with mem := st.mem.store32 a.toNat v }

def memset (st : Phys) (a : UInt32) (c : UInt8) : Phys :=
  { st with mem := st.mem.write a.toNat (List.replicate PGSIZE.toNat c) }

def memmove (st : Phys) (dst : UInt32) (bs : List UInt8) : Phys := { st with mem := st.mem.write dst.toNat bs }

end Phys

def kalloc (st : Phys) : Option (UInt32 × Phys) :=
  match st.free with
  | [] => none
  | p :: rest => some (p, { st with free := rest })

section Kernel

-- `kend` is `V2P(end)`, the first physical address after the kernel image.
variable (kend : UInt32)

def kfree (v : UInt32) (st : Phys) : Except String Phys :=
  if v % PGSIZE ≠ 0 ∨ v < kend ∨ v ≥ PHYSTOP then .error "kfree"
  else .ok { st.memset v 1 with free := v :: st.free }

def walkpgdir (pgdir va : UInt32) (alloc : Bool) (st : Phys) : Option (UInt32 × Phys) :=
  let pde := pgdir + 4 * PDX va
  if st.load pde &&& PTE_P ≠ 0 then some (PTE_ADDR (st.load pde) + 4 * PTX va, st)
  else if !alloc then none
  else match kalloc st with
    | none => none
    | some (pgtab, st) =>
      some (pgtab + 4 * PTX va, (st.memset pgtab 0).store pde (pgtab ||| PTE_P ||| PTE_W ||| PTE_U))

def mappagesLoop (pgdir last perm : UInt32) : ℕ → UInt32 → UInt32 → Phys → Except String (ℤ × Phys)
  | 0, _, _, st => .ok (0, st)
  | fuel + 1, a, pa, st =>
    match walkpgdir pgdir a true st with
    | none => .ok (-1, st)
    | some (pte, st) =>
      if st.load pte &&& PTE_P ≠ 0 then .error "remap"
      else
        let st := st.store pte (pa ||| perm ||| PTE_P)
        if a = last then .ok (0, st)
        else mappagesLoop pgdir last perm fuel (a + PGSIZE) (pa + PGSIZE) st

-- The loop runs `(last - a) / PGSIZE + 1` rounds, up to `a == last`.
def mappages (pgdir va size pa perm : UInt32) (st : Phys) : Except String (ℤ × Phys) :=
  let a := PGROUNDDOWN va
  let last := PGROUNDDOWN (va + size - 1)
  mappagesLoop pgdir last perm ((last - a).toNat / PGSIZE.toNat + 1) a pa st

/-- Each round frees the page of `a` if it is present; without a page table it skips to the next
page-directory entry, `a = PGADDR(PDX(a) + 1, 0, 0) - PGSIZE` before the `a += PGSIZE`. -/
def deallocLoop (pgdir oldsz : UInt32) : ℕ → UInt32 → Phys → Except String Phys
  | 0, _, st => .ok st
  | fuel + 1, a, st =>
    if a < oldsz then
      match walkpgdir pgdir a false st with
      | none => deallocLoop pgdir oldsz fuel (PGADDR (PDX a + 1) 0 0 - PGSIZE + PGSIZE) st
      | some (pte, st) =>
        if st.load pte &&& PTE_P ≠ 0 then
          let pa := PTE_ADDR (st.load pte)
          if pa = 0 then .error "kfree"
          else do
            let st ← kfree kend pa st
            deallocLoop pgdir oldsz fuel (a + PGSIZE) (st.store pte 0)
        else deallocLoop pgdir oldsz fuel (a + PGSIZE) st
    else .ok st

def deallocuvm (pgdir oldsz newsz : UInt32) (st : Phys) : Except String (UInt32 × Phys) :=
  if newsz ≥ oldsz then .ok (oldsz, st)
  else do
    let a := PGROUNDUP newsz
    let st ← deallocLoop kend pgdir oldsz ((oldsz - a).toNat / PGSIZE.toNat + 1) a st
    pure (newsz, st)

def allocLoop (pgdir oldsz newsz : UInt32) : ℕ → UInt32 → Phys → Except String (UInt32 × Phys)
  | 0, _, st => .ok (newsz, st)
  | fuel + 1, a, st =>
    if a < newsz then
      match kalloc st with
      | none => do
        let (_, st) ← deallocuvm kend pgdir newsz oldsz st
        pure (0, st)
      | some (mem, st) =>
        let st := st.memset mem 0
        match mappages pgdir a PGSIZE mem (PTE_W ||| PTE_U) st with
        | .error e => .error e
        | .ok (r, st) =>
          if r < 0 then do
            let (_, st) ← deallocuvm kend pgdir newsz oldsz st
            let st ← kfree kend mem st
            pure (0, st)
          else allocLoop pgdir oldsz newsz fuel (a + PGSIZE) st
    else .ok (newsz, st)

def allocuvm (pgdir oldsz newsz : UInt32) (st : Phys) : Except String (UInt32 × Phys) :=
  if newsz ≥ KERNBASE then .ok (0, st)
  else if newsz < oldsz then .ok (oldsz, st)
  else allocLoop kend pgdir oldsz newsz ((newsz - PGROUNDUP oldsz).toNat / PGSIZE.toNat + 1) (PGROUNDUP oldsz) st

def freevm (pgdir : UInt32) (st : Phys) : Except String Phys :=
  if pgdir = 0 then .error "freevm: no pgdir"
  else do
    let (_, st) ← deallocuvm kend pgdir KERNBASE 0 st
    let st ← (List.range NPDENTRIES).foldlM (fun st i =>
      let pde := st.load (pgdir + 4 * UInt32.ofNat i)
      if pde &&& PTE_P ≠ 0 then kfree kend (PTE_ADDR pde) st else pure st) st
    kfree kend pgdir st

structure KMap where
  virt : UInt32
  physStart : UInt32
  physEnd : UInt32
  perm : UInt32

/-- `kmap[]`, with `data` the kernel virtual address `kernel.ld` gives the data segment. -/
def kmap (data : UInt32) : List KMap :=
  [⟨KERNBASE, 0, EXTMEM, PTE_W⟩, ⟨KERNLINK, V2P KERNLINK, V2P data, 0⟩, ⟨data, V2P data, PHYSTOP, PTE_W⟩,
    ⟨DEVSPACE, DEVSPACE, 0, PTE_W⟩]

def mapKernel (pgdir : UInt32) : List KMap → Phys → Except String (ℤ × Phys)
  | [], st => .ok (0, st)
  | k :: ks, st => do
    let (r, st) ← mappages pgdir k.virt (k.physEnd - k.physStart) k.physStart k.perm st
    if r < 0 then pure (r, st) else mapKernel pgdir ks st

def setupkvm (data : UInt32) (st : Phys) : Except String (Option (UInt32 × Phys)) :=
  match kalloc st with
  | none => .ok none
  | some (pgdir, st) =>
    let st := st.memset pgdir 0
    if P2V PHYSTOP > DEVSPACE then .error "PHYSTOP too high"
    else do
      let (r, st) ← mapKernel pgdir (kmap data) st
      if r < 0 then do
        let _ ← freevm kend pgdir st
        pure none
      else pure (some (pgdir, st))

def copyuvmLoop (pgdir sz d : UInt32) : ℕ → UInt32 → Phys → Except String (Option Phys)
  | 0, _, st => .ok (some st)
  | fuel + 1, i, st =>
    if i < sz then
      match walkpgdir pgdir i false st with
      | none => .error "copyuvm: pte should exist"
      | some (pte, st) =>
        if st.load pte &&& PTE_P = 0 then .error "copyuvm: page not present"
        else
          let pa := PTE_ADDR (st.load pte)
          let flags := PTE_FLAGS (st.load pte)
          match kalloc st with
          | none => do
            let _ ← freevm kend d st
            pure none
          | some (mem, st) =>
            let st := st.memmove mem (st.mem.read pa.toNat PGSIZE.toNat)
            match mappages d i PGSIZE mem flags st with
            | .error e => .error e
            | .ok (r, st) =>
              if r < 0 then do
                let _ ← freevm kend d st
                pure none
              else copyuvmLoop pgdir sz d fuel (i + PGSIZE) st
    else .ok (some st)

def copyuvm (data pgdir sz : UInt32) (st : Phys) : Except String (Option (UInt32 × Phys)) := do
  match ← setupkvm kend data st with
  | none => pure none
  | some (d, st) =>
    match ← copyuvmLoop kend pgdir sz d (sz.toNat / PGSIZE.toNat + 1) 0 st with
    | none => pure none
    | some st => pure (some (d, st))

end Kernel

end Xv6Net.Kernel.Vm
