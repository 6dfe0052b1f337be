import Xv6Net.Kernel.UserMem
import Xv6Net.Kernel.Pci
import Xv6Net.Kernel.String
import Xv6Net.Lib.Regions

/-! The descriptor rings and packet buffers of `e1000.c`: `e1000_init` from its `kalloc` of
`struct e1000` to the ring registers, and `e1000_send`. Kernel pointers are virtual, as in C, and
memory is physical: every access goes through `V2P`. `struct e1000` is kept as a record for the
page `self` it lives in; the rings and the buffers are in memory. Writes to device registers are
returned as `(offset, value)` pairs; what the device does (the reset, the MAC registers, setting a
sent descriptor's status) is not modelled. -/

namespace Xv6Net.Net.E1000Driver

open Xv6Net.Lib.Bytes Xv6Net.Lib.Regions Xv6Net.Kernel.Vm Xv6Net.Kernel.UserMem Xv6Net.Kernel.Pci

def E1000_RBD_SLOTS : ℕ := 128
def E1000_TBD_SLOTS : ℕ := 128

def E1000_TDBAL : UInt32 := 0x03800
def E1000_TDBAH : UInt32 := 0x03804
def E1000_TDLEN : UInt32 := 0x03808
def E1000_TDH : UInt32 := 0x03810
def E1000_TDT : UInt32 := 0x03818
def E1000_RDBAL : UInt32 := 0x02800
def E1000_RDBAH : UInt32 := 0x02804
def E1000_RDLEN : UInt32 := 0x02808
def E1000_RDH : UInt32 := 0x02810
def E1000_RDT : UInt32 := 0x02818

def E1000_TCTL : UInt32 := 0x00400
def E1000_TCTL_EN : UInt32 := 0x00000002
def E1000_TCTL_PSP : UInt32 := 0x00000008
def E1000_TCTL_CT_BIT_MASK : UInt32 := 0x00000ff0
def E1000_TCTL_CT_BIT_SHIFT : UInt32 := 4
def E1000_TCTL_COLD_BIT_MASK : UInt32 := 0x003ff000
def E1000_TCTL_COLD_BIT_SHIFT : UInt32 := 12

def E1000_TIPG : UInt32 := 0x00410
def E1000_TIPG_IPGT_BIT_MASK : UInt32 := 0x000003ff
def E1000_TIPG_IPGT_BIT_SHIFT : UInt32 := 0
def E1000_TIPG_IPGR1_BIT_MASK : UInt32 := 0x000ffc00
def E1000_TIPG_IPGR1_BIT_SHIFT : UInt32 := 10
def E1000_TIPG_IPGR2_BIT_MASK : UInt32 := 0x3ff00000
def E1000_TIPG_IPGR2_BIT_SHIFT : UInt32 := 20

/-- The `..._SET(value)` macros: `(value << shift) & mask`. -/
def fieldSet (shift mask value : UInt32) : UInt32 := (value <<< shift) &&& mask

def E1000_TCTL_CT_SET (value : UInt32) : UInt32 := fieldSet E1000_TCTL_CT_BIT_SHIFT E1000_TCTL_CT_BIT_MASK value
def E1000_TCTL_COLD_SET (value : UInt32) : UInt32 :=
  fieldSet E1000_TCTL_COLD_BIT_SHIFT E1000_TCTL_COLD_BIT_MASK value
def E1000_TIPG_IPGT_SET (value : UInt32) : UInt32 :=
  fieldSet E1000_TIPG_IPGT_BIT_SHIFT E1000_TIPG_IPGT_BIT_MASK value
def E1000_TIPG_IPGR1_SET (value : UInt32) : UInt32 :=
  fieldSet E1000_TIPG_IPGR1_BIT_SHIFT E1000_TIPG_IPGR1_BIT_MASK value
def E1000_TIPG_IPGR2_SET (value : UInt32) : UInt32 :=
  fieldSet E1000_TIPG_IPGR2_BIT_SHIFT E1000_TIPG_IPGR2_BIT_MASK value

def E1000_IMS : UInt32 := 0x000d0
def E1000_IMS_TXQE : UInt32 := 0x00000002
def E1000_IMS_RXSEQ : UInt32 := 0x00000008
def E1000_IMS_RXO : UInt32 := 0x00000040
def E1000_IMS_RXT0 : UInt32 := 0x00000080

def E1000_RCTL : UInt32 := 0x00100
def E1000_RCTL_EN : UInt32 := 0x00000002
def E1000_RCTL_BAM : UInt32 := 0x00008000
def E1000_RCTL_BSIZE : UInt32 := 0x00000000

def E1000_TDESC_CMD_RS : UInt8 := 0x08
def E1000_TDESC_CMD_EOP : UInt8 := 0x01
def E1000_TDESC_CMD_IFCS : UInt8 := 0x02

/-- Sizes in the i386 SysV layout. `struct e1000_tbd` is `addr` at 0, `length` at 8, `cso` at 10,
`cmd` at 11, `status` at 12, `css` at 13 and `special` at 14; `struct e1000_rbd` is `addr_l` at 0,
`addr_h` at 4 and the rest up to 16. `struct e1000` is its four arrays of 128 pointers, the ring
indices from 2048, `iobase` at 2072, `membase` at 2076, and the interrupt line, pin and MAC address
up to 2088. -/
def sizeofTbd : UInt32 := 16
def sizeofRbd : UInt32 := 16
def sizeofPacketBuf : UInt32 := 2046
def sizeofE1000 : ℕ := 2088

/-- `struct e1000`: the pointers of its arrays, its ring indices and its register bases. -/
structure E1000 where
  tbd : ℕ → UInt32
  rbd : ℕ → UInt32
  txBuf : ℕ → UInt32
  rxBuf : ℕ → UInt32
  tbdHead : ℕ
  tbdTail : ℕ
  rbdHead : ℕ
  rbdTail : ℕ
  iobase : UInt32
  membase : UInt32

/-- `struct e1000` as the bytes of the page at `self` hold it. -/
def e1000At (st : Phys) (self : UInt32) : E1000 where
  tbd i := st.load (V2P self + 4 * UInt32.ofNat i)
  rbd i := st.load (V2P self + 512 + 4 * UInt32.ofNat i)
  txBuf i := st.load (V2P self + 1024 + 4 * UInt32.ofNat i)
  rxBuf i := st.load (V2P self + 1536 + 4 * UInt32.ofNat i)
  tbdHead := (st.load (V2P self + 2048)).toNat
  tbdTail := (st.load (V2P self + 2052)).toNat
  rbdHead := (st.load (V2P self + 2060)).toNat
  rbdTail := (st.load (V2P self + 2064)).toNat
  iobase := st.load (V2P self + 2072)
  membase := st.load (V2P self + 2076)

/-- `(char*)kalloc()`: the kernel pointer to a free page, or null. -/
def kallocPtr (st : Phys) : UInt32 × Phys :=
  match kalloc st with
  | some (pa, st) => (P2V pa, st)
  | none => (0, st)

/-- The scan of `pcif->reg_base` for the I/O and the memory BAR. -/
def barScan (pcif : PciFunc) : ℕ → ℕ → UInt32 × UInt32 → Except String (UInt32 × UInt32)
  | 0, _, b => .ok b
  | n + 1, i, (iobase, membase) =>
    if pcif.regBase i ≤ 0xffff then
      if pcif.regSize i ≠ 64 then .error "I/O space BAR size != 64" else .ok (pcif.regBase i, membase)
    else if pcif.regBase i > 0 then
      if pcif.regSize i ≠ (1 : UInt32) <<< 17 then .error "Mem space BAR size != 128KB"
      else barScan pcif n (i + 1) (iobase, pcif.regBase i)
    else barScan pcif n (i + 1) (iobase, membase)

/-- `for (i = 0; i < n; i++, p++) a[i] = p;` with `p` a pointer to `size`-byte descriptors: the
array and the final `p`. -/
def ringLoop (size : UInt32) : ℕ → ℕ → UInt32 → (ℕ → UInt32) → (ℕ → UInt32) × UInt32
  | 0, _, p, a => (a, p)
  | n + 1, i, p, a => ringLoop size n (i + 1) (p + size) (Function.update a i p)

/-- The receive buffers, two to a page, each with its descriptor's address. -/
def rxLoop : ℕ → ℕ → E1000 → Phys → E1000 × Phys
  | 0, _, e, st => (e, st)
  | n + 1, i, e, st =>
    let (tmp, st) := kallocPtr st
    let e := { e with rxBuf := Function.update e.rxBuf i tmp }
    let st := (st.store (V2P (e.rbd i)) (V2P (e.rxBuf i))).store (V2P (e.rbd i) + 4) 0
    let e := { e with rxBuf := Function.update e.rxBuf (i + 1) (tmp + sizeofPacketBuf) }
    let st := (st.store (V2P (e.rbd (i + 1))) (V2P (e.rxBuf (i + 1)))).store (V2P (e.rbd (i + 1)) + 4) 0
    rxLoop n (i + 2) e st

/-- The transmit buffers, two to a page. -/
def txLoop : ℕ → ℕ → E1000 → Phys → E1000 × Phys
  | 0, _, e, st => (e, st)
  | n + 1, i, e, st =>
    let (tmp, st) := kallocPtr st
    txLoop n (i + 2)
      { e with txBuf := Function.update (Function.update e.txBuf i tmp) (i + 1) (tmp + sizeofPacketBuf) } st

/-- The ring and control registers `e1000_init` writes once the rings are set up. -/
def ringRegs (e : E1000) : List (UInt32 × UInt32) :=
  [(E1000_TDBAL, V2P (e.tbd 0)), (E1000_TDBAH, 0), (E1000_TDLEN, UInt32.ofNat (E1000_TBD_SLOTS * 16) <<< 7),
    (E1000_TDH, 0),
    (E1000_TCTL, E1000_TCTL_EN ||| E1000_TCTL_PSP ||| E1000_TCTL_CT_SET 0x0f ||| E1000_TCTL_COLD_SET 0x200),
    (E1000_TDT, 0),
    (E1000_TIPG, E1000_TIPG_IPGT_SET 10 ||| E1000_TIPG_IPGR1_SET 10 ||| E1000_TIPG_IPGR2_SET 10),
    (E1000_RDBAL, V2P (e.rbd 0)), (E1000_RDBAH, 0), (E1000_RDLEN, UInt32.ofNat (E1000_RBD_SLOTS * 16) <<< 7),
    (E1000_RDH, 0), (E1000_RDT, 0),
    (E1000_IMS, E1000_IMS_RXSEQ ||| E1000_IMS_RXO ||| E1000_IMS_RXT0 ||| E1000_IMS_TXQE),
    (E1000_RCTL, E1000_RCTL_EN ||| E1000_RCTL_BAM ||| E1000_RCTL_BSIZE ||| 0x00000008)]

/-- `e1000_init` from the transmit ring on: the rings, their paragraph checks (whose failure path
`kfree`s the pointer past the ring), the buffers and the ring registers. -/
def e1000Rings (kend self : UInt32) (e : E1000) (st : Phys) :
    Except String (ℤ × UInt32 × E1000 × Phys × List (UInt32 × UInt32)) :=
  let (ttmp, st) := kallocPtr st
  let (tbd, ttmp) := ringLoop sizeofTbd E1000_TBD_SLOTS 0 ttmp e.tbd
  let e := { e with tbd }
  if V2P (e.tbd 0) &&& 0x0000000f ≠ 0 then (kfree kend (V2P ttmp) st).map fun st => (-1, self, e, st, [])
  else
    let (rtmp, st) := kallocPtr st
    let (rbd, rtmp) := ringLoop sizeofRbd E1000_RBD_SLOTS 0 rtmp e.rbd
    let e := { e with rbd }
    if V2P (e.rbd 0) &&& 0x0000000f ≠ 0 then (kfree kend (V2P rtmp) st).map fun st => (-1, self, e, st, [])
    else
      let (e, st) := rxLoop (E1000_RBD_SLOTS / 2) 0 e st
      let (e, st) := txLoop (E1000_TBD_SLOTS / 2) 0 e st
      .ok (0, self, e, st, ringRegs e)

/-- `e1000_init`: the driver's return value, the pointer it stores in `*driver`, and the rest.
`iobase` and `membase` start as whatever the fresh page holds. -/
def e1000Init (kend : UInt32) (pcif : PciFunc) (st : Phys) :
    Except String (ℤ × UInt32 × E1000 × Phys × List (UInt32 × UInt32)) :=
  let (self, st) := kallocPtr st
  let e := e1000At st self
  match barScan pcif 6 0 (e.iobase, e.membase) with
  | .error msg => .error msg
  | .ok (iobase, membase) =>
    if iobase = 0 then .error "Fail to find a valid I/O port base for E1000."
    else if membase = 0 then .error "Fail to find a valid Mem I/O base for E1000."
    else e1000Rings kend self { e with iobase, membase, tbdHead := 0, tbdTail := 0, rbdHead := 0, rbdTail := 0 } st

/-- The messages `e1000_init` panics with before it sets up the rings. -/
def initPanics : List String :=
  ["I/O space BAR size != 64", "Mem space BAR size != 128KB", "Fail to find a valid I/O port base for E1000.",
    "Fail to find a valid Mem I/O base for E1000."]

/-- `e1000_send(driver, pkt, length)` up to its write of `TDT`: the descriptor at the tail is
cleared, the packet copied to its buffer, and the descriptor filled in. -/
def e1000Send (e : E1000) (st : Phys) (pkt : UInt32) (length : UInt16) : E1000 × Phys × UInt32 × UInt32 :=
  let d := (V2P (e.tbd e.tbdTail)).toNat
  let mem := st.mem.write d (List.replicate 16 0)
  let mem := Xv6Net.Kernel.String.memmove mem (V2P (e.txBuf e.tbdTail)).toNat (V2P pkt).toNat length.toNat
  let mem := mem.write d (leBytes 8 (V2P (e.txBuf e.tbdTail)).toNat)
  let mem := mem.store16 (d + 8) length
  let mem := mem.write (d + 11) [E1000_TDESC_CMD_RS ||| E1000_TDESC_CMD_EOP ||| E1000_TDESC_CMD_IFCS]
  let mem := mem.write (d + 10) [0]
  let tail := (e.tbdTail + 1) % E1000_TBD_SLOTS
  ({ e with tbdTail := tail }, { st with mem }, E1000_TDT, UInt32.ofNat tail)

/-- Successive `e1000_send` calls: the driver and memory after each, and the register write it
ends with. -/
def sendAll : E1000 → Phys → List (UInt32 × UInt16) → List (E1000 × Phys × UInt32 × UInt32)
  | _, _, [] => []
  | e, st, (pkt, length) :: rest =>
    let r := e1000Send e st pkt length
    r :: sendAll r.1 r.2.1 rest

/-- A filled transmit descriptor: `addr`, `length`, `cso` 0, `cmd`, and `status`, `css` and
`special` 0. -/
def tbdBytes (addr : UInt32) (length : UInt16) : List UInt8 :=
  leBytes 8 addr.toNat ++ leBytes 2 length.toNat ++
    [0, E1000_TDESC_CMD_RS ||| E1000_TDESC_CMD_EOP ||| E1000_TDESC_CMD_IFCS, 0, 0, 0, 0]

section Send

lemma send_descriptor (m : Mem) {d b : ℕ} (src len A : ℕ) (L : UInt16) (cmd : UInt8) (hb : b + len ≤ 2 ^ 32)
    (hapart : b + len ≤ d ∨ d + 16 ≤ b) :
    ((((Xv6Net.Kernel.String.memmove (m.write d (List.replicate 16 0)) b src len).write d (leBytes 8 A)).store16
      (d + 8) L).write (d + 11) [cmd] |>.write (d + 10) [0]).read d 16 =
      leBytes 8 A ++ leBytes 2 L.toNat ++ [0, cmd, 0, 0, 0, 0] := by
  rw [Mem.store16]
  set m2 := Xv6Net.Kernel.String.memmove (m.write d (List.replicate 16 0)) b src len
  set m6 := (((m2.write d (leBytes 8 A)).write (d + 8) (leBytes 2 L.toNat)).write (d + 11) [cmd]).write (d + 10) [0]
    with hm6
  have h0 : m6.read d 8 = leBytes 8 A := by
    rw [hm6, Mem.read_write_of_disjoint _ _ (by simp), Mem.read_write_of_disjoint _ _ (by simp),
      Mem.read_write_of_disjoint _ _ (by simp)]
    simpa using Mem.read_write_self m2 d (leBytes 8 A)
  have h8 : m6.read (d + 8) 2 = leBytes 2 L.toNat := by
    rw [hm6, Mem.read_write_of_disjoint _ _ (by simp), Mem.read_write_of_disjoint _ _ (by simp)]
    simpa using Mem.read_write_self (m2.write d (leBytes 8 A)) (d + 8) (leBytes 2 L.toNat)
  have h10 : m6.read (d + 10) 1 = [0] := Mem.read_write_self _ _ [0]
  have h11 : m6.read (d + 11) 1 = [cmd] := by
    rw [hm6, Mem.read_write_of_disjoint _ _ (by simp)]
    exact Mem.read_write_self _ _ [cmd]
  -- `status`, `css` and `special` keep the zeros of the `memset`: the packet copy misses them
  have h12 : m6.read (d + 12) 4 = [0, 0, 0, 0] := by
    rw [hm6, Mem.read_write_of_disjoint _ _ (by simp), Mem.read_write_of_disjoint _ _ (by simp),
      Mem.read_write_of_disjoint _ _ (by simp), Mem.read_write_of_disjoint _ _ (by simp)]
    have hcopy : m2.read (d + 12) 4 = (m.write d (List.replicate 16 0)).read (d + 12) 4 :=
      Mem.read_congr fun i hi => Xv6Net.Kernel.String.memmove_frame _ src hb _ (by omega)
    rw [hcopy, Mem.read_write_inner _ _ _ (by simp)]
    rfl
  rw [show (16 : ℕ) = 8 + (2 + (1 + (1 + 4))) from rfl, Mem.read_add, Mem.read_add, Mem.read_add, Mem.read_add]
  simp only [Nat.add_assoc, Nat.reduceAdd]
  rw [h0, h8, h10, h11, h12]
  simp

/-- What `e1000_send` needs of the transmit ring: each buffer lies below `2^32`, apart from its
descriptor. -/
def SendLayout (e : E1000) : Prop :=
  ∀ t < E1000_TBD_SLOTS, (V2P (e.txBuf t)).toNat + 2046 ≤ 2 ^ 32 ∧
    ((V2P (e.txBuf t)).toNat + 2046 ≤ (V2P (e.tbd t)).toNat ∨ (V2P (e.tbd t)).toNat + 16 ≤ (V2P (e.txBuf t)).toNat)

lemma e1000Send_spec (e : E1000) (st : Phys) (pkt : UInt32) (length : UInt16) (ht : e.tbdTail < E1000_TBD_SLOTS)
    (hL : SendLayout e) (hlen : length.toNat ≤ 2046) :
    (e1000Send e st pkt length).1 = { e with tbdTail := (e.tbdTail + 1) % E1000_TBD_SLOTS } ∧
      (e1000Send e st pkt length).2.2 = (E1000_TDT, UInt32.ofNat ((e.tbdTail + 1) % E1000_TBD_SLOTS)) ∧
      (e1000Send e st pkt length).2.1.mem.read (V2P (e.tbd e.tbdTail)).toNat 16 =
        tbdBytes (V2P (e.txBuf e.tbdTail)) length := by
  obtain ⟨hb, hapart⟩ := hL _ ht
  refine ⟨rfl, rfl, ?_⟩
  exact send_descriptor st.mem _ _ _ length _ (by omega) (by omega)

lemma sendAll_spec (sends : List (UInt32 × UInt16)) (hlen : ∀ s ∈ sends, s.2.toNat ≤ 2046) :
    ∀ (e : E1000) (st : Phys), SendLayout e → e.tbdTail < E1000_TBD_SLOTS → ∀ j pkt length,
      sends[j]? = some (pkt, length) → ∃ e' st',
        (sendAll e st sends)[j]? = some (e', st', E1000_TDT, UInt32.ofNat ((e.tbdTail + j + 1) % E1000_TBD_SLOTS)) ∧
        e'.tbdTail = (e.tbdTail + j + 1) % E1000_TBD_SLOTS ∧ e'.tbd = e.tbd ∧ e'.txBuf = e.txBuf ∧
        st'.mem.read (V2P (e.tbd ((e.tbdTail + j) % E1000_TBD_SLOTS))).toNat 16 =
          tbdBytes (V2P (e.txBuf ((e.tbdTail + j) % E1000_TBD_SLOTS))) length := by
  induction sends with
  | nil =>
    intro e st _ _ j pkt length h
    simp at h
  | cons s rest ih =>
    intro e st hL ht j pkt length hj
    obtain ⟨pkt₀, length₀⟩ := s
    obtain ⟨h1, h2, h3⟩ := e1000Send_spec e st pkt₀ length₀ ht hL (hlen _ List.mem_cons_self)
    have hsend : sendAll e st ((pkt₀, length₀) :: rest) =
        e1000Send e st pkt₀ length₀ :: sendAll (e1000Send e st pkt₀ length₀).1 (e1000Send e st pkt₀ length₀).2.1 rest :=
      rfl
    cases j with
    | zero =>
      -- the first call fills the descriptor at the tail
      obtain ⟨rfl, rfl⟩ : pkt₀ = pkt ∧ length₀ = length := by simpa using hj
      refine ⟨(e1000Send e st pkt₀ length₀).1, (e1000Send e st pkt₀ length₀).2.1, ?_, by rw [h1], by rw [h1],
        by rw [h1], ?_⟩
      · rw [hsend, List.getElem?_cons_zero, ← h2]
      · rw [Nat.add_zero, Nat.mod_eq_of_lt ht, h3]
    | succ j =>
      -- the rest of the run starts from the next tail
      have hL' : SendLayout (e1000Send e st pkt₀ length₀).1 := by rw [h1]; exact hL
      have ht' : (e1000Send e st pkt₀ length₀).1.tbdTail < E1000_TBD_SLOTS := by
        rw [h1]
        exact Nat.mod_lt _ (by decide)
      obtain ⟨e', st', hget, htail, htbd, htx, hread⟩ :=
        ih (fun s hs => hlen s (List.mem_cons_of_mem _ hs)) _ _ hL' ht' j pkt length (by simpa using hj)
      have htl : (e1000Send e st pkt₀ length₀).1.tbdTail = (e.tbdTail + 1) % E1000_TBD_SLOTS := by rw [h1]
      have htb : (e1000Send e st pkt₀ length₀).1.tbd = e.tbd := by rw [h1]
      have htx0 : (e1000Send e st pkt₀ length₀).1.txBuf = e.txBuf := by rw [h1]
      have hmod0 : ((e.tbdTail + 1) % E1000_TBD_SLOTS + j) % E1000_TBD_SLOTS =
          (e.tbdTail + (j + 1)) % E1000_TBD_SLOTS := by
        unfold E1000_TBD_SLOTS
        omega
      have hmod1 : ((e.tbdTail + 1) % E1000_TBD_SLOTS + j + 1) % E1000_TBD_SLOTS =
          (e.tbdTail + (j + 1) + 1) % E1000_TBD_SLOTS := by
        unfold E1000_TBD_SLOTS
        omega
      rw [htl, hmod1] at hget htail
      rw [htl, hmod0, htb, htx0] at hread
      rw [htb] at htbd
      rw [htx0] at htx
      exact ⟨e', st', by rw [hsend, List.getElem?_cons_succ, hget], htail, htbd, htx, hread⟩

end Send

section Init

lemma kallocPtr_cons {st : Phys} {p : UInt32} {rest : List UInt32} (h : st.free = p :: rest) :
    kallocPtr st = (P2V p, { st with free := rest }) := by
  unfold kallocPtr kalloc
  rw [h]

lemma kallocPtr_mem (st : Phys) : (kallocPtr st).2.mem = st.mem := by
  cases h : st.free with
  | nil => simp [kallocPtr, kalloc, h]
  | cons p rest => rw [kallocPtr_cons h]

lemma ringLoop_eq (size : UInt32) : ∀ (n i : ℕ) (p : UInt32) (a : ℕ → UInt32),
    ringLoop size n i p a =
      (fun j => if i ≤ j ∧ j < i + n then p + size * UInt32.ofNat (j - i) else a j, p + size * UInt32.ofNat n)
  | 0, i, p, a => by
    refine Prod.ext (funext fun j => ?_) ?_
    · show a j = if i ≤ j ∧ j < i + 0 then p + size * UInt32.ofNat (j - i) else a j
      rw [if_neg (by omega)]
    · show p = p + size * UInt32.ofNat 0
      grind
  | n + 1, i, p, a => by
    rw [ringLoop, ringLoop_eq size n (i + 1) (p + size) (Function.update a i p)]
    refine Prod.ext (funext fun j => ?_) ?_
    · show (if i + 1 ≤ j ∧ j < i + 1 + n then p + size + size * UInt32.ofNat (j - (i + 1)) else Function.update a i p j) =
        if i ≤ j ∧ j < i + (n + 1) then p + size * UInt32.ofNat (j - i) else a j
      by_cases hj : j = i
      · subst hj
        rw [if_neg (by omega), if_pos (by omega), Function.update_self, Nat.sub_self]
        grind
      · by_cases hin : i + 1 ≤ j ∧ j < i + 1 + n
        · rw [if_pos hin, if_pos (by omega), show j - i = j - (i + 1) + 1 by omega, UInt32.ofNat_add]
          grind
        · rw [if_neg hin, if_neg (by omega), Function.update_of_ne hj]
    · show p + size + size * UInt32.ofNat n = p + size * UInt32.ofNat (n + 1)
      rw [UInt32.ofNat_add]
      grind

/-- Buffer `k` when the pages `F` are cut into two buffers each. -/
def bufAt (F : List UInt32) (k : ℕ) : UInt32 := P2V (F.getD (k / 2) 0) + sizeofPacketBuf * UInt32.ofNat (k % 2)

lemma bufAt_cons_add_two (p : UInt32) (F : List UInt32) (k : ℕ) : bufAt (p :: F) (k + 2) = bufAt F k := by
  unfold bufAt
  rw [show (k + 2) / 2 = k / 2 + 1 by omega, show (k + 2) % 2 = k % 2 by omega, List.getD_cons_succ]

lemma bufAt_cons_zero (p : UInt32) (F : List UInt32) : bufAt (p :: F) 0 = P2V p := by
  unfold bufAt
  rw [Nat.zero_div, Nat.zero_mod, List.getD_cons_zero]
  grind

lemma bufAt_cons_one (p : UInt32) (F : List UInt32) : bufAt (p :: F) 1 = P2V p + sizeofPacketBuf := by
  unfold bufAt
  rw [show 1 / 2 = 0 from rfl, show 1 % 2 = 1 from rfl, List.getD_cons_zero]
  grind

lemma bufs_step {p : UInt32} {F : List UInt32} {i j : ℕ} {n : ℕ} (b : ℕ → UInt32) :
    (if i + 2 ≤ j ∧ j < i + 2 + 2 * n then bufAt F (j - (i + 2))
      else Function.update (Function.update b i (P2V p)) (i + 1) (P2V p + sizeofPacketBuf) j) =
    if i ≤ j ∧ j < i + 2 * (n + 1) then bufAt (p :: F) (j - i) else b j := by
  by_cases hj : i + 2 ≤ j ∧ j < i + 2 + 2 * n
  · rw [if_pos hj, if_pos (by omega), show j - i = j - (i + 2) + 2 by omega, bufAt_cons_add_two]
  · rw [if_neg hj]
    by_cases h1 : j = i + 1
    · subst h1
      rw [Function.update_self, if_pos (by omega), show i + 1 - i = 1 by omega, bufAt_cons_one]
    · rw [Function.update_of_ne h1]
      by_cases h0 : j = i
      · subst h0
        rw [Function.update_self, if_pos (by omega), Nat.sub_self, bufAt_cons_zero]
      · rw [Function.update_of_ne h0, if_neg (by omega)]

lemma txLoop_fst : ∀ (n i : ℕ) (e : E1000) (st : Phys), n ≤ st.free.length →
    (txLoop n i e st).1 = { e with txBuf := fun j => if i ≤ j ∧ j < i + 2 * n then bufAt st.free (j - i) else e.txBuf j }
  | 0, i, e, st, _ => by
    have hb : (fun j => if i ≤ j ∧ j < i + 2 * 0 then bufAt st.free (j - i) else e.txBuf j) = e.txBuf :=
      funext fun j => if_neg (by omega)
    rw [hb]
    rfl
  | n + 1, i, e, st, hn => by
    obtain ⟨p, F, hF⟩ : ∃ p F, st.free = p :: F := by
      cases h : st.free with
      | nil => rw [h] at hn; simp at hn
      | cons p F => exact ⟨p, F, rfl⟩
    rw [txLoop, kallocPtr_cons hF]
    dsimp only
    rw [txLoop_fst n (i + 2) _ _ (by simp [hF] at hn; simpa using hn), hF]
    congr 1
    funext j
    exact bufs_step e.txBuf

lemma txLoop_mem : ∀ (n i : ℕ) (e : E1000) (st : Phys), (txLoop n i e st).2.mem = st.mem
  | 0, _, _, _ => rfl
  | n + 1, i, e, st => by
    rw [txLoop, txLoop_mem n (i + 2), kallocPtr_mem]

lemma rxLoop_fst : ∀ (n i : ℕ) (e : E1000) (st : Phys), n ≤ st.free.length →
    (rxLoop n i e st).1 = { e with rxBuf := fun j => if i ≤ j ∧ j < i + 2 * n then bufAt st.free (j - i) else e.rxBuf j }
  | 0, i, e, st, _ => by
    have hb : (fun j => if i ≤ j ∧ j < i + 2 * 0 then bufAt st.free (j - i) else e.rxBuf j) = e.rxBuf :=
      funext fun j => if_neg (by omega)
    rw [hb]
    rfl
  | n + 1, i, e, st, hn => by
    obtain ⟨p, F, hF⟩ : ∃ p F, st.free = p :: F := by
      cases h : st.free with
      | nil => rw [h] at hn; simp at hn
      | cons p F => exact ⟨p, F, rfl⟩
    rw [rxLoop, kallocPtr_cons hF]
    dsimp only
    rw [rxLoop_fst n (i + 2) _ _ (by rw [hF] at hn; exact Nat.le_of_succ_le_succ hn), hF]
    congr 1
    funext j
    exact bufs_step e.rxBuf

/-- The descriptors the loop from `i` fills lie at `R + 16 j`, below `2^32`. -/
def RbdAt (e : E1000) (R i n : ℕ) : Prop :=
  (∀ j, i ≤ j → j < i + 2 * n → (V2P (e.rbd j)).toNat = R + 16 * j) ∧ R + 16 * (i + 2 * n) ≤ 2 ^ 32

@[simp] lemma Phys.store_free (st : Phys) (a v : UInt32) : (st.store a v).free = st.free := rfl

lemma add_four_toNat {a : UInt32} (h : a.toNat + 4 < 2 ^ 32) : (a + 4).toNat = a.toNat + 4 := by
  rw [UInt32.toNat_add, show (4 : UInt32).toNat = 4 from rfl, Nat.mod_eq_of_lt h]

lemma rxLoop_frame : ∀ (n i : ℕ) (e : E1000) (st : Phys) {R : ℕ} (q : UInt32), RbdAt e R i n →
    (∀ j, i ≤ j → j < i + 2 * n → q.toNat + 4 ≤ R + 16 * j ∨ R + 16 * j + 8 ≤ q.toNat) →
    (rxLoop n i e st).2.load q = st.load q
  | 0, _, _, _, _, _, _, _ => rfl
  | n + 1, i, e, st, R, q, ⟨hR, hRb⟩, hq => by
    rw [rxLoop]
    dsimp only
    refine (rxLoop_frame n (i + 2) _ _ (R := R) q ⟨fun j h1 h2 => ?_, by omega⟩
      fun j h1 h2 => hq j (by omega) (by omega)).trans ?_
    · exact hR j (by omega) (by omega)
    have h0 := hR i le_rfl (by omega)
    have h1 := hR (i + 1) (by omega) (by omega)
    have hq0 := hq i le_rfl (by omega)
    have hq1 := hq (i + 1) (by omega) (by omega)
    rw [Phys.load_store_of_disjoint _ _ (by rw [add_four_toNat (by omega)]; omega),
      Phys.load_store_of_disjoint _ _ (by omega), Phys.load_store_of_disjoint _ _ (by rw [add_four_toNat (by omega)]; omega),
      Phys.load_store_of_disjoint _ _ (by omega)]
    exact congrArg (Mem.load32 · q.toNat) (kallocPtr_mem st)

lemma rxLoop_addr : ∀ (n i : ℕ) (e : E1000) (st : Phys) {R : ℕ}, n ≤ st.free.length → RbdAt e R i n →
    ∀ j, i ≤ j → j < i + 2 * n → (rxLoop n i e st).2.load (V2P (e.rbd j)) = V2P (bufAt st.free (j - i))
  | 0, _, _, _, _, _, _, _, h1, h2 => by omega
  | n + 1, i, e, st, R, hn, ⟨hR, hRb⟩, j, hj1, hj2 => by
    obtain ⟨p, F, hF⟩ : ∃ p F, st.free = p :: F := by
      cases h : st.free with
      | nil => rw [h] at hn; simp at hn
      | cons p F => exact ⟨p, F, rfl⟩
    rw [rxLoop, kallocPtr_cons hF]
    dsimp only
    have h0 := hR i le_rfl (by omega)
    have h1 := hR (i + 1) (by omega) (by omega)
    by_cases hlate : i + 2 ≤ j
    · -- a later round
      refine (rxLoop_addr n (i + 2) _ _ (R := R) (by rw [hF] at hn; exact Nat.le_of_succ_le_succ hn)
        ⟨fun j' h1' h2' => ?_, by omega⟩ j hlate (by omega)).trans ?_
      · exact hR j' (by omega) (by omega)
      simp only [Phys.store_free]
      rw [hF, show j - i = j - (i + 2) + 2 by omega, bufAt_cons_add_two]
    · -- this round: no later round touches its two descriptors
      have hj := hR j hj1 (by omega)
      refine (rxLoop_frame n (i + 2) _ _ (R := R) _ ⟨fun j' h1' h2' => ?_, by omega⟩ fun j' h1' h2' => ?_).trans ?_
      · exact hR j' (by omega) (by omega)
      · have := hR j' (by omega) (by omega)
        rw [hj]
        omega
      rw [hF]
      by_cases hji : j = i
      · subst hji
        rw [Phys.load_store_of_disjoint _ _ (by rw [add_four_toNat (by omega)]; omega),
          Phys.load_store_of_disjoint _ _ (by omega), Phys.load_store_of_disjoint _ _ (by rw [add_four_toNat (by omega)]; omega),
          Phys.load_store_self, Function.update_self, Nat.sub_self, bufAt_cons_zero]
      · obtain rfl : j = i + 1 := by omega
        rw [Phys.load_store_of_disjoint _ _ (by rw [add_four_toNat (by omega)]; omega), Phys.load_store_self,
          Function.update_self, show i + 1 - i = 1 by omega, bufAt_cons_one]

lemma rxLoop_free : ∀ (n i : ℕ) (e : E1000) (st : Phys), (rxLoop n i e st).2.free = st.free.drop n
  | 0, _, _, _ => rfl
  | n + 1, i, e, st => by
    rw [rxLoop]
    dsimp only
    rw [rxLoop_free n (i + 2)]
    cases h : st.free with
    | nil => simp [kallocPtr, kalloc, h, Phys.store]
    | cons p F => simp [kallocPtr_cons h, Phys.store]

lemma buffers_fst (e : E1000) (st : Phys) (hF : 128 ≤ st.free.length) :
    (txLoop 64 0 (rxLoop 64 0 e st).1 (rxLoop 64 0 e st).2).1 =
      { e with rxBuf := fun j => if j < 128 then bufAt st.free j else e.rxBuf j,
               txBuf := fun j => if j < 128 then bufAt (st.free.drop 64) j else e.txBuf j } := by
  rw [txLoop_fst 64 0 _ _ (by rw [rxLoop_free, List.length_drop]; omega), rxLoop_free,
    rxLoop_fst 64 0 _ _ (by omega)]
  simp only [Nat.zero_le, true_and, Nat.zero_add, Nat.sub_zero]

lemma buffers_load (e : E1000) (st : Phys) {R : ℕ} (hF : 128 ≤ st.free.length) (hR : RbdAt e R 0 64)
    {j : ℕ} (hj : j < 128) :
    (txLoop 64 0 (rxLoop 64 0 e st).1 (rxLoop 64 0 e st).2).2.load (V2P (e.rbd j)) = V2P (bufAt st.free j) := by
  unfold Phys.load
  rw [txLoop_mem]
  exact rxLoop_addr 64 0 e st (by omega) hR j (Nat.zero_le _) (by omega)

lemma kallocPtr_mk (m : Mem) (p : UInt32) (rest : List UInt32) :
    kallocPtr { mem := m, free := p :: rest } = (P2V p, { mem := m, free := rest }) := rfl

@[simp] lemma V2P_P2V (p : UInt32) : V2P (P2V p) = p := by
  unfold V2P P2V
  grind

lemma V2P_P2V_add (p x : UInt32) : V2P (P2V p + x) = p + x := by
  unfold V2P P2V
  grind

lemma page_add_toNat {p : UInt32} (hp : p.toNat % 4096 = 0) {k : ℕ} (hk : k < 4096) :
    (p + UInt32.ofNat k).toNat = p.toNat + k := by
  have := p.toNat_lt
  rw [UInt32.toNat_add, UInt32.toNat_ofNat', Nat.mod_eq_of_lt (by omega : k < 2 ^ 32), Nat.mod_eq_of_lt (by omega)]

lemma and_low_of_aligned {p : UInt32} (hp : p.toNat % 4096 = 0) : p &&& 0x0000000f = 0 := by
  apply UInt32.toNat_inj.mp
  rw [UInt32.toNat_and, show (0x0000000f : UInt32).toNat = 2 ^ 4 - 1 from rfl, Nat.and_two_pow_sub_one_eq_mod]
  show p.toNat % 16 = 0
  omega

lemma ringLoop_slot {size p q : UInt32} {n : ℕ} {a b : ℕ → UInt32} (h : ringLoop size n 0 p a = (b, q)) {j : ℕ}
    (hj : j < n) : b j = p + size * UInt32.ofNat j := by
  rw [ringLoop_eq] at h
  obtain ⟨rfl, -⟩ := Prod.mk.inj h
  show (if 0 ≤ j ∧ j < 0 + n then p + size * UInt32.ofNat (j - 0) else a j) = _
  rw [if_pos ⟨Nat.zero_le _, by omega⟩, Nat.sub_zero]

lemma head_check {p : UInt32} (hp : p.toNat % 4096 = 0) : V2P (P2V p + 16 * UInt32.ofNat 0) &&& 0x0000000f = 0 := by
  rw [show (16 : UInt32) * UInt32.ofNat 0 = 0 from rfl, add_zero, V2P_P2V, and_low_of_aligned hp]

lemma ring_toNat {p : UInt32} (hp : p.toNat % 4096 = 0) {j : ℕ} (hj : j < 256) :
    (V2P (P2V p + 16 * UInt32.ofNat j)).toNat = p.toNat + 16 * j := by
  rw [V2P_P2V_add, show (16 : UInt32) * UInt32.ofNat j = UInt32.ofNat (16 * j) by rw [UInt32.ofNat_mul]; rfl,
    page_add_toNat hp (by omega)]

lemma e1000Rings_ok (kend self : UInt32) (e : E1000) {st : Phys} {t r : UInt32} {F : List UInt32}
    (hfree : st.free = t :: r :: F) (ht : t.toNat % 4096 = 0) (hr : r.toNat % 4096 = 0) (hF : 128 ≤ F.length) :
    ∃ e' st', e1000Rings kend self e st = .ok (0, self, e', st', ringRegs e') ∧ e'.tbdTail = e.tbdTail ∧
      ∀ j < 128, e'.tbd j = P2V t + 16 * UInt32.ofNat j ∧ e'.rbd j = P2V r + 16 * UInt32.ofNat j ∧
        e'.rxBuf j = bufAt F j ∧ e'.txBuf j = bufAt (F.drop 64) j ∧ st'.load (V2P (e'.rbd j)) = V2P (e'.rxBuf j) := by
  unfold e1000Rings
  rw [kallocPtr_cons hfree]
  -- each `let` pattern is split, never reduced: reducing one makes the kernel run its loop
  split
  rename_i ttmp st1 hk
  obtain ⟨rfl, rfl⟩ := Prod.mk.inj hk
  split
  rename_i tbd ttmp' hring
  extract_lets e1
  have htbd : ∀ j < 128, tbd j = P2V t + 16 * UInt32.ofNat j := fun j hj => ringLoop_slot hring hj
  rw [if_neg (by rw [show e1.tbd 0 = tbd 0 from rfl, htbd 0 (by omega), head_check ht]; exact not_not.mpr rfl)]
  split
  rename_i rtmp st2 hk
  rw [kallocPtr_mk] at hk
  obtain ⟨rfl, rfl⟩ := Prod.mk.inj hk
  split
  rename_i rbd rtmp' hring
  extract_lets e2
  have hrbd : ∀ j < 128, rbd j = P2V r + 16 * UInt32.ofNat j := fun j hj => ringLoop_slot hring hj
  rw [if_neg (by rw [show e2.rbd 0 = rbd 0 from rfl, hrbd 0 (by omega), head_check hr]; exact not_not.mpr rfl)]
  split
  rename_i e3 st3 hrx
  split
  rename_i e4 st4 htx
  refine ⟨e4, st4, rfl, ?_⟩
  have hat : RbdAt e2 r.toNat 0 64 := by
    refine ⟨fun j _ hj => ?_, ?_⟩
    · rw [show e2.rbd j = rbd j from rfl, hrbd j (by omega), ring_toNat hr (by omega)]
    · have := r.toNat_lt
      omega
  -- both buffer loops, through the run on `e2` that `buffers_fst` describes
  have hrun : txLoop 64 0 (rxLoop 64 0 e2 { mem := st.mem, free := F }).1
      (rxLoop 64 0 e2 { mem := st.mem, free := F }).2 = (e4, st4) := by
    rw [show (64 : ℕ) = E1000_RBD_SLOTS / 2 from rfl, hrx]
    exact htx
  have he4 : e4 = { e2 with
      rxBuf := fun j => if j < 128 then bufAt F j else e2.rxBuf j,
      txBuf := fun j => if j < 128 then bufAt (F.drop 64) j else e2.txBuf j } := by
    have h := buffers_fst e2 { mem := st.mem, free := F } hF
    rw [hrun] at h
    exact h
  have hload : ∀ j < 128, st4.load (V2P (e2.rbd j)) = V2P (bufAt F j) := fun j hj => by
    have h := buffers_load e2 { mem := st.mem, free := F } hF hat hj
    rw [hrun] at h
    exact h
  refine ⟨by rw [he4], fun j hj => ⟨?_, ?_, ?_, ?_, ?_⟩⟩
  · rw [he4]
    exact htbd j hj
  · rw [he4]
    exact hrbd j hj
  · rw [he4]
    exact if_pos hj
  · rw [he4]
    exact if_pos hj
  · have hx : e4.rxBuf j = bufAt F j := by
      rw [he4]
      exact if_pos hj
    have hy : e4.rbd j = e2.rbd j := by rw [he4]
    rw [hx, hy]
    exact hload j hj

lemma barScan_error (pcif : PciFunc) : ∀ (n i : ℕ) (b : UInt32 × UInt32) (msg : String),
    barScan pcif n i b = .error msg → msg = "I/O space BAR size != 64" ∨ msg = "Mem space BAR size != 128KB"
  | 0, _, _, _, h => by cases h
  | n + 1, i, (iobase, membase), msg, h => by
    rw [barScan] at h
    by_cases hio : pcif.regBase i ≤ 0xffff
    · -- the I/O BAR ends the scan
      rw [if_pos hio] at h
      by_cases hsz : pcif.regSize i ≠ 64
      · rw [if_pos hsz] at h
        cases h
        exact Or.inl rfl
      · rw [if_neg hsz] at h
        cases h
    · rw [if_neg hio] at h
      by_cases hmem : pcif.regBase i > 0
      · rw [if_pos hmem] at h
        by_cases hsz : pcif.regSize i ≠ (1 : UInt32) <<< 17
        · rw [if_pos hsz] at h
          cases h
          exact Or.inr rfl
        · rw [if_neg hsz] at h
          exact barScan_error pcif n (i + 1) _ msg h
      · rw [if_neg hmem] at h
        exact barScan_error pcif n (i + 1) _ msg h

lemma e1000Init_ok (kend : UInt32) (pcif : PciFunc) {st : Phys} {p0 t r : UInt32} {F : List UInt32}
    (hfree : st.free = p0 :: t :: r :: F) (ht : t.toNat % 4096 = 0) (hr : r.toNat % 4096 = 0) (hF : 128 ≤ F.length) :
    (∃ msg, e1000Init kend pcif st = .error msg ∧ msg ∈ initPanics) ∨
    ∃ e st', e1000Init kend pcif st = .ok (0, P2V p0, e, st', ringRegs e) ∧ e.tbdTail = 0 ∧
      ∀ j < 128, e.tbd j = P2V t + 16 * UInt32.ofNat j ∧ e.rbd j = P2V r + 16 * UInt32.ofNat j ∧
        e.rxBuf j = bufAt F j ∧ e.txBuf j = bufAt (F.drop 64) j ∧ st'.load (V2P (e.rbd j)) = V2P (e.rxBuf j) := by
  unfold e1000Init
  rw [kallocPtr_cons hfree]
  dsimp only
  split
  · -- the BAR scan panics
    rename_i msg hscan
    refine Or.inl ⟨msg, rfl, ?_⟩
    rcases barScan_error pcif _ _ _ msg hscan with rfl | rfl <;> simp [initPanics]
  · rename_i iobase membase hscan
    split_ifs with hio hmem
    · exact Or.inl ⟨_, rfl, by simp [initPanics]⟩
    · exact Or.inl ⟨_, rfl, by simp [initPanics]⟩
    · obtain ⟨e', st', hok, htail, hj⟩ := e1000Rings_ok kend (P2V p0) _
        (show ({ st with free := t :: r :: F } : Phys).free = t :: r :: F from rfl) ht hr hF
      exact Or.inr ⟨e', st', hok, htail, hj⟩

lemma bufAt_toNat {F : List UInt32} {k : ℕ} (hp : (F.getD (k / 2) 0).toNat % 4096 = 0) :
    (V2P (bufAt F k)).toNat = (F.getD (k / 2) 0).toNat + 2046 * (k % 2) := by
  unfold bufAt
  rw [V2P_P2V_add, show sizeofPacketBuf * UInt32.ofNat (k % 2) = UInt32.ofNat (2046 * (k % 2)) by
    rw [UInt32.ofNat_mul]; rfl, page_add_toNat hp (by omega)]

end Init

section Layout

/-- The page the `k`-th of the next `kalloc` calls returns. -/
def freePage (st : Phys) (k : ℕ) : ℕ := (st.free.getD k 0).toNat

/-- The next `n` calls of `kalloc` succeed and return distinct page-aligned pages. -/
structure FreshPages (st : Phys) (n : ℕ) : Prop where
  enough : n ≤ st.free.length
  pages : DistinctPages (freePage st) n

/-- Buffer `i` of a buffer loop that starts at page number `b`: two 2046-byte buffers a page. -/
def bufSlot (b i : ℕ) : Slot := ⟨b + i / 2, 2046 * (i % 2), 2046⟩

/-- Where `e1000_init` puts what it sets up, as slots of the pages `kalloc` hands it in turn:
`struct e1000`, the transmit ring, the receive ring, the receive buffers, the transmit buffers. -/
def dmaSlots : List Slot :=
  ⟨0, 0, 2088⟩ :: ⟨1, 0, 2048⟩ :: ⟨2, 0, 2048⟩ :: ((List.range 128).map (bufSlot 3) ++ (List.range 128).map (bufSlot 67))

/-- The memory a driver `self` with record `e` uses, as (physical start, length), in the order of
`dmaSlots`. -/
def dmaRegions (self : UInt32) (e : E1000) : List (ℕ × ℕ) :=
  ((V2P self).toNat, sizeofE1000) :: ((V2P (e.tbd 0)).toNat, E1000_TBD_SLOTS * sizeofTbd.toNat) ::
    ((V2P (e.rbd 0)).toNat, E1000_RBD_SLOTS * sizeofRbd.toNat) ::
    (((List.range E1000_RBD_SLOTS).map fun i => ((V2P (e.rxBuf i)).toNat, sizeofPacketBuf.toNat)) ++
      (List.range E1000_TBD_SLOTS).map fun i => ((V2P (e.txBuf i)).toNat, sizeofPacketBuf.toNat))

/-- What `e1000_init` leaves when it returns 0, in terms of the pages `kalloc` handed it. -/
structure InitLayout (st : Phys) (drv : UInt32) (e : E1000) (st' : Phys) : Prop where
  drv_page : (V2P drv).toNat = freePage st 0
  tbd : ∀ i < 128, (V2P (e.tbd i)).toNat = freePage st 1 + 16 * i
  rbd : ∀ i < 128, (V2P (e.rbd i)).toNat = freePage st 2 + 16 * i
  rxBuf : ∀ i < 128, (V2P (e.rxBuf i)).toNat = freePage st (3 + i / 2) + 2046 * (i % 2)
  txBuf : ∀ i < 128, (V2P (e.txBuf i)).toNat = freePage st (67 + i / 2) + 2046 * (i % 2)
  rbd_addr : ∀ i < 128, st'.load (V2P (e.rbd i)) = V2P (e.rxBuf i)
  tail : e.tbdTail = 0

lemma FreshPages.split {st : Phys} (hf : FreshPages st 131) :
    ∃ p0 t r F, st.free = p0 :: t :: r :: F ∧ 128 ≤ F.length ∧ t.toNat % 4096 = 0 ∧ r.toNat % 4096 = 0 := by
  have h := hf.enough
  have hal := hf.pages.aligned
  match hl : st.free, h with
  | p0 :: t :: r :: F, h =>
    refine ⟨p0, t, r, F, rfl, by simp at h; omega, ?_, ?_⟩
    · simpa [freePage, hl] using hal 1 (by omega)
    · simpa [freePage, hl] using hal 2 (by omega)

lemma e1000Init_layout (kend : UInt32) (pcif : PciFunc) {st : Phys} (hf : FreshPages st 131) :
    (∃ msg, e1000Init kend pcif st = .error msg ∧ msg ∈ initPanics) ∨
    ∃ e st', e1000Init kend pcif st = .ok (0, P2V (st.free.getD 0 0), e, st', ringRegs e) ∧
      InitLayout st (P2V (st.free.getD 0 0)) e st' := by
  obtain ⟨p0, t, r, F, hfree, hF, ht, hr⟩ := hf.split
  have hal := hf.pages.aligned
  have hpage : ∀ k, freePage st (k + 3) = (F.getD k 0).toNat := fun k => by simp [freePage, hfree]
  have hbuf : ∀ k < 128, (F.getD k 0).toNat % 4096 = 0 := fun k hk => by
    rw [← hpage]
    exact hal _ (by omega)
  rcases e1000Init_ok kend pcif hfree ht hr hF with hpanic | ⟨e, st', hok, htail, he⟩
  · exact Or.inl hpanic
  · refine Or.inr ⟨e, st', by rw [hfree, List.getD_cons_zero]; exact hok, ?_⟩
    refine ⟨by simp [freePage, hfree], fun i hi => ?_, fun i hi => ?_, fun i hi => ?_, fun i hi => ?_,
      fun i hi => (he i hi).2.2.2.2, htail⟩
    · rw [(he i hi).1, ring_toNat ht (by omega)]
      simp [freePage, hfree]
    · rw [(he i hi).2.1, ring_toNat hr (by omega)]
      simp [freePage, hfree]
    · rw [(he i hi).2.2.1, bufAt_toNat (hbuf _ (by omega)), show 3 + i / 2 = i / 2 + 3 by omega, hpage]
    · have hdrop : (F.drop 64).getD (i / 2) 0 = F.getD (64 + i / 2) 0 := by
        simp [List.getD_eq_getElem?_getD, List.getElem?_drop]
      rw [(he i hi).2.2.2.1, bufAt_toNat (by rw [hdrop]; exact hbuf _ (by omega)), hdrop,
        show 67 + i / 2 = 64 + i / 2 + 3 by omega, hpage]

lemma dmaSlots_fits : ∀ s ∈ dmaSlots, s.Fits 131 := by
  intro s hs
  simp only [dmaSlots, List.mem_cons, List.mem_append, List.mem_map, List.mem_range] at hs
  rcases hs with rfl | rfl | rfl | ⟨i, hi, rfl⟩ | ⟨i, hi, rfl⟩
  · decide
  · decide
  · decide
  · simp only [Slot.Fits, bufSlot]
    omega
  · simp only [Slot.Fits, bufSlot]
    omega

lemma bufSlot_separated (b : ℕ) {i j : ℕ} (hij : i < j) : (bufSlot b i).Separated (bufSlot b j) := by
  simp only [Slot.Separated, bufSlot, Apart]
  omega

lemma dmaSlots_separated : dmaSlots.Pairwise Slot.Separated := by
  have hrx := pairwise_map_range (m := 128) fun i j hij _ => bufSlot_separated 3 hij
  have htx := pairwise_map_range (m := 128) fun i j hij _ => bufSlot_separated 67 hij
  -- every buffer lies past the first three pages, and the receive buffers before the transmit ones
  have hlate : ∀ s ∈ (List.range 128).map (bufSlot 3) ++ (List.range 128).map (bufSlot 67), 3 ≤ s.page := by
    simp only [List.mem_append, List.mem_map, List.mem_range]
    rintro s (⟨i, _, rfl⟩ | ⟨i, _, rfl⟩)
    · show 3 ≤ 3 + i / 2
      omega
    · show 3 ≤ 67 + i / 2
      omega
  have hcross : ∀ s ∈ (List.range 128).map (bufSlot 3), ∀ s' ∈ (List.range 128).map (bufSlot 67),
      s.Separated s' := by
    simp only [List.mem_map, List.mem_range]
    rintro s ⟨i, hi, rfl⟩ s' ⟨j, -, rfl⟩
    exact Or.inl (show 3 + i / 2 ≠ 67 + j / 2 by omega)
  unfold dmaSlots
  refine List.Pairwise.cons (fun s hs => ?_) (List.Pairwise.cons (fun s hs => ?_)
    (List.Pairwise.cons (fun s hs => ?_) (List.pairwise_append.mpr ⟨hrx, htx, hcross⟩)))
  · -- `struct e1000`, in page 0
    rcases List.mem_cons.mp hs with rfl | hs
    · decide
    rcases List.mem_cons.mp hs with rfl | hs
    · decide
    exact Or.inl (show 0 ≠ s.page by have := hlate s hs; omega)
  · -- the transmit ring, in page 1
    rcases List.mem_cons.mp hs with rfl | hs
    · decide
    exact Or.inl (show 1 ≠ s.page by have := hlate s hs; omega)
  · -- the receive ring, in page 2
    exact Or.inl (show 2 ≠ s.page by have := hlate s hs; omega)

lemma InitLayout.regions_eq {st : Phys} {drv : UInt32} {e : E1000} {st' : Phys} (hL : InitLayout st drv e st') :
    dmaRegions drv e = dmaSlots.map (Slot.range (freePage st)) := by
  unfold dmaRegions dmaSlots
  simp only [List.map_cons, List.map_append, List.map_map]
  refine congrArg₂ List.cons ?_ (congrArg₂ List.cons ?_ (congrArg₂ List.cons ?_ (congrArg₂ (· ++ ·) ?_ ?_)))
  · rw [hL.drv_page]
    rfl
  · rw [hL.tbd 0 (by omega)]
    rfl
  · rw [hL.rbd 0 (by omega)]
    rfl
  · refine List.map_congr_left fun i hi => ?_
    rw [hL.rxBuf i (List.mem_range.mp hi)]
    rfl
  · refine List.map_congr_left fun i hi => ?_
    rw [hL.txBuf i (List.mem_range.mp hi)]
    rfl

lemma InitLayout.regions_apart {st : Phys} {drv : UInt32} {e : E1000} {st' : Phys} (hL : InitLayout st drv e st')
    (hf : FreshPages st 131) : (dmaRegions drv e).Pairwise fun x y => Apart x.1 x.2 y.1 y.2 := by
  rw [hL.regions_eq]
  exact hf.pages.pairwise_apart dmaSlots_fits dmaSlots_separated

lemma InitLayout.sendLayout {st : Phys} {drv : UInt32} {e : E1000} {st' : Phys} (hL : InitLayout st drv e st')
    (hf : FreshPages st 131) : SendLayout e := by
  intro i hi
  have hi' : i < 128 := hi
  have hpg : freePage st (67 + i / 2) ≠ freePage st 1 := fun h => by
    have := hf.pages.inj _ (by omega) _ (by omega) h
    omega
  have hal := hf.pages.aligned (67 + i / 2) (by omega)
  have hlt : freePage st (67 + i / 2) < 2 ^ 32 := UInt32.toNat_lt _
  have hapart := apart_of_pages hal (hf.pages.aligned 1 (by omega)) hpg (a := 2046 * (i % 2)) (n := 2046)
    (b := 16 * i) (m := 16) (by omega) (by omega)
  rw [hL.txBuf i hi', hL.tbd i hi']
  exact ⟨by omega, hapart⟩

lemma e1000Init_of_scan (kend : UInt32) {pcif : PciFunc} {st : Phys} (hf : FreshPages st 131) {iobase membase : UInt32}
    (hscan : ∀ b, barScan pcif 6 0 b = .ok (iobase, membase)) (hio : iobase ≠ 0) (hmem : membase ≠ 0) :
    ∃ e st', e1000Init kend pcif st = .ok (0, P2V (st.free.getD 0 0), e, st', ringRegs e) := by
  obtain ⟨p0, t, r, F, hfree, hF, ht, hr⟩ := hf.split
  unfold e1000Init
  rw [kallocPtr_cons hfree]
  dsimp only
  rw [hscan]
  dsimp only
  rw [if_neg hio, if_neg hmem, hfree, List.getD_cons_zero]
  obtain ⟨e', st', hok, -⟩ := e1000Rings_ok kend (P2V p0) _
    (show ({ st with free := t :: r :: F } : Phys).free = t :: r :: F from rfl) ht hr hF
  exact ⟨e', st', hok⟩

/-- A PCI function with a 128KB memory BAR and then a 64-byte I/O BAR. -/
def testPci : PciFunc where
  regBase i := if i = 0 then 0xfebc0000 else if i = 1 then 0xc000 else 0
  regSize i := if i = 0 then 0x20000 else if i = 1 then 64 else 0

/-- Zeroed memory with the pages `0x1000, 0x2000, …` first on the free list. -/
def testPhys (n : ℕ) : Phys := ⟨fun _ => 0, (List.range n).map fun k => UInt32.ofNat (4096 * (k + 1))⟩

lemma testPhys_fresh {n : ℕ} (hn : n < 2 ^ 20) : FreshPages (testPhys n) n := by
  have hpage : ∀ k < n, freePage (testPhys n) k = 4096 * (k + 1) := fun k hk => by
    simp only [freePage, testPhys, List.getD_eq_getElem?_getD, List.getElem?_map, List.getElem?_range hk,
      Option.map_some, Option.getD_some, UInt32.toNat_ofNat']
    exact Nat.mod_eq_of_lt (by omega)
  refine ⟨by simp [testPhys], fun k hk => ?_, fun k hk k' hk' h => ?_⟩
  · rw [hpage k hk]
    omega
  · rw [hpage k hk, hpage k' hk'] at h
    omega

theorem e1000_dma_layout (kend : UInt32) (pcif : PciFunc) (st : Phys) (hf : FreshPages st 131) :
    (∃ msg, e1000Init kend pcif st = .error msg ∧ msg ∈ initPanics) ∨
    ∃ drv e st' regs, e1000Init kend pcif st = .ok (0, drv, e, st', regs) ∧ InitLayout st drv e st' ∧
      (dmaRegions drv e).Pairwise (fun x y => Apart x.1 x.2 y.1 y.2) ∧
      ∀ sends : List (UInt32 × UInt16), (∀ s ∈ sends, s.2.toNat ≤ 2046) → ∀ j pkt length,
        sends[j]? = some (pkt, length) → ∃ e' st'',
          (sendAll e st' sends)[j]? = some (e', st'', E1000_TDT, UInt32.ofNat ((j + 1) % E1000_TBD_SLOTS)) ∧
          e'.tbdTail = (j + 1) % E1000_TBD_SLOTS ∧
          st''.mem.read (V2P (e.tbd (j % E1000_TBD_SLOTS))).toNat 16 =
            tbdBytes (V2P (e.txBuf (j % E1000_TBD_SLOTS))) length := by
  rcases e1000Init_layout kend pcif hf with hpanic | ⟨e, st', hok, hL⟩
  · exact Or.inl hpanic
  refine Or.inr ⟨_, e, st', _, hok, hL, hL.regions_apart hf, fun sends hlen j pkt length hj => ?_⟩
  -- the transmit ring starts empty, at tail 0
  obtain ⟨e', st'', hget, htail, -, -, hread⟩ :=
    sendAll_spec sends hlen e st' (hL.sendLayout hf) (by rw [hL.tail]; decide) j pkt length hj
  rw [hL.tail, Nat.zero_add] at hget htail hread
  exact ⟨e', st'', hget, htail, hread⟩

theorem e1000_dma_layout_test : FreshPages (testPhys 131) 131 ∧
    ∃ drv e st' regs, e1000Init 0 testPci (testPhys 131) = .ok (0, drv, e, st', regs) ∧
      InitLayout (testPhys 131) drv e st' ∧ (dmaRegions drv e).Pairwise (fun x y => Apart x.1 x.2 y.1 y.2) := by
  have hf := testPhys_fresh (n := 131) (by norm_num)
  refine ⟨hf, ?_⟩
  obtain ⟨e₀, st₀, hok⟩ := e1000Init_of_scan 0 hf
    (show ∀ b, barScan testPci 6 0 b = .ok (0xc000, 0xfebc0000) from fun _ => rfl) (by decide) (by decide)
  rcases e1000_dma_layout 0 testPci (testPhys 131) hf with ⟨msg, h, -⟩ | ⟨drv, e, st', regs, h, hL, hapart, -⟩
  · -- both BARs pass the scan, so `e1000_init` does not panic
    rw [hok] at h
    cases h
  · exact ⟨drv, e, st', regs, h, hL, hapart⟩

end Layout

end Xv6Net.Net.E1000Driver
