import Xv6Net.Net.ArpFrame
import Xv6Net.Kernel.Syscall

/-! The ARP system call: `sys_arp` of `sysarp.c`, `send_arpRequest` and `block_until_arp_reply` of
`arp.c`, and `get_device` of `nic.c`. -/

namespace Xv6Net.Net.SysArp

open Xv6Net.Lib.Bytes Xv6Net.Net.ArpFrame Xv6Net.Kernel.Syscall

structure NicDevice where
  macAddr : MacAddr
  sendPacket : Bool
  recvPacket : Bool

def getDevice (nd : NicDevice) : Option NicDevice :=
  if nd.sendPacket = false ∨ nd.recvPacket = false then none else some nd

/-- The kernel-stack contents the locals of `send_arpRequest` and of the two `get_ip` calls start
from. -/
structure KStack where
  eth : Mem
  arpResponse : Mem
  sipVals : ℕ → UInt32
  dipVals : ℕ → UInt32

-- The body is the TODO stub: it reports success and leaves the struct as it was.
def blockUntilArpReply (arpReply : Mem) : ℤ × Mem := (0, arpReply)

structure ArpOutcome where
  ret : ℤ
  mem : Mem
  -- the packets handed to `nd->send_packet`
  sent : List (List UInt8)

def sendArpRequest (nic : NicDevice) (ks : KStack) (ipAddr : List UInt8) (arpResp : ℕ) (mem : Mem) :
    ArpOutcome :=
  match getDevice nic with
  | none => ⟨-1, mem, []⟩
  | some nd =>
    let eth := createEthArpFrame nd.macAddr ipAddr ks.sipVals ks.dipVals ks.eth
    let sent := [eth.read 0 (EthrHdr.sizeof - 2)]
    let (r, arpResponse) := blockUntilArpReply ks.arpResponse
    if r < 0 then ⟨-3, mem, sent⟩
    else
      let mem := mem.write arpResp (unpackMac (arpResponse.read EthrHdr.arpDmac 6))
      ⟨0, mem.write (arpResp + 17) [0], sent⟩

def sysArpArgs (p : Proc) : Option (List UInt8 × List UInt8 × ℕ) := do
  let interface ← argstr p 0
  let ipAddr ← argstr p 1
  let size ← argint p 3
  let arpResp ← argptr p 2 (signed size)
  pure (interface, ipAddr, arpResp)

def sysArp (nic : NicDevice) (ks : KStack) (p : Proc) : ArpOutcome :=
  match sysArpArgs p with
  | none => ⟨-1, p.mem, []⟩
  | some (_, ipAddr, arpResp) =>
    let o := sendArpRequest nic ks ipAddr arpResp p.mem
    if o.ret < 0 then { o with ret := -1 } else { o with ret := 0 }

def NicDevice.loaded (nd : NicDevice) : Prop := nd.sendPacket = true ∧ nd.recvPacket = true

instance (nd : NicDevice) : Decidable nd.loaded := inferInstanceAs (Decidable (_ ∧ _))

lemma getDevice_eq (nd : NicDevice) : getDevice nd = if nd.loaded then some nd else none := by
  cases hs : nd.sendPacket <;> cases hr : nd.recvPacket <;> simp [getDevice, NicDevice.loaded, hs, hr]

lemma sendArpRequest_loaded (nic : NicDevice) (ks : KStack) (ipAddr : List UInt8) (arpResp : ℕ) (mem : Mem)
    (h : nic.loaded) :
    sendArpRequest nic ks ipAddr arpResp mem =
      ⟨0, (mem.write arpResp (unpackMac (ks.arpResponse.read EthrHdr.arpDmac 6))).write (arpResp + 17) [0],
        [(createEthArpFrame nic.macAddr ipAddr ks.sipVals ks.dipVals ks.eth).read 0 42]⟩ := by
  simp [sendArpRequest, getDevice_eq, h, blockUntilArpReply, EthrHdr.sizeof]

theorem sendArpRequest_sent (nic : NicDevice) (ks : KStack) (q : DottedQuad) (arpResp : ℕ) (mem : Mem) :
    (sendArpRequest nic ks q.text arpResp mem).sent =
      if nic.loaded then [arpRequestFrame nic.macAddr q] else [] := by
  by_cases h : nic.loaded
  · rw [sendArpRequest_loaded nic ks q.text arpResp mem h, if_pos h, createEthArpFrame_read]
  · simp [sendArpRequest, getDevice_eq, h]

/-! ### `arptest` -/

def arptestProc (size : UInt32) : Proc where
  mem := ((Mem.write (fun _ => 0) 0x104
      (leBytes 4 0x200 ++ leBytes 4 0x300 ++ leBytes 4 0x400 ++ leBytes 4 size.toNat)).write 0x200
      (cstr "mynet0" ++ [0])).write 0x300 (cstr "192.168.2.1" ++ [0])
  sz := 0x1000
  esp := 0x100

def e1000Nic : NicDevice := ⟨⟨[0x52, 0x54, 0x00, 0x12, 0x34, 0x56], rfl⟩, true, true⟩

def zeroStack : KStack := ⟨fun _ => 0, fun _ => 0, fun _ => 0, fun _ => 0⟩

def onesStack : KStack := ⟨fun _ => 0, fun _ => 0xFF, fun _ => 0, fun _ => 0⟩

theorem sysArp_depends_on_stale_stack :
    (sysArp e1000Nic zeroStack (arptestProc 18)).ret = 0 ∧ (sysArp e1000Nic onesStack (arptestProc 18)).ret = 0 ∧
      (sysArp e1000Nic zeroStack (arptestProc 18)).mem.read 0x400 18 = cstr "00:00:00:00:00:00" ++ [0] ∧
      (sysArp e1000Nic onesStack (arptestProc 18)).mem.read 0x400 18 = cstr "FF:FF:FF:FF:FF:FF" ++ [0] := by
  decide

theorem sysArp_size_zero_overwrites :
    sysArpArgs (arptestProc 0) = some (cstr "mynet0", cstr "192.168.2.1", 0x400) ∧
      (sysArp e1000Nic zeroStack (arptestProc 0)).ret = 0 ∧
      (sysArp e1000Nic zeroStack (arptestProc 0)).mem.read 0x400 18 ≠ (arptestProc 0).mem.read 0x400 18 := by
  decide

end Xv6Net.Net.SysArp
