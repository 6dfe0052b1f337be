import Xv6Net.Lib.Bytes

/-! The Ethernet/ARP frame helpers of `arp_frame.c` and the string helpers of `util.c` they use.
A C `char` is a byte and a C string is the list of its bytes before the terminating NUL; a struct
is the byte image of its storage, with the field offsets of the i386 SysV layout. -/

namespace Xv6Net.Net.ArpFrame

open Xv6Net.Lib.Bytes

def cstr (s : String) : List UInt8 := s.toList.map Char.toUInt8

def isDigit (c : UInt8) : Prop := '0'.toUInt8 ≤ c ∧ c ≤ '9'.toUInt8

instance (c : UInt8) : Decidable (isDigit c) := inferInstanceAs (Decidable (_ ∧ _))

/-! ### `util.c` -/

def atoiLoop (n : UInt32) : List UInt8 → UInt32
  | [] => n
  | c :: s => if isDigit c then atoiLoop (n * 10 + c.toUInt32 - '0'.toUInt8.toUInt32) s else n

-- `int` arithmetic is taken to wrap as in two's complement, which is `UInt32` arithmetic on the
-- same bit patterns (`atoi` only adds and multiplies).
def atoi (s : List UInt8) : UInt32 := atoiLoop 0 s

def strcmp : List UInt8 → List UInt8 → ℤ
  | p :: ps, q :: qs => if p = q then strcmp ps qs else (p.toNat : ℤ) - q.toNat
  | p, q => ((p.headD 0).toNat : ℤ) - (q.headD 0).toNat

def cstrOf (buf : List UInt8) : List UInt8 := buf.takeWhile (· ≠ 0)

/-! ### `struct ethr_hdr` -/

namespace EthrHdr

def dmac : ℕ := 0
def smac : ℕ := 6
def ethrType : ℕ := 12
def hwtype : ℕ := 14
def protype : ℕ := 16
def hwsize : ℕ := 18
def prosize : ℕ := 19
def opcode : ℕ := 20
def arpSmac : ℕ := 22
def sip : ℕ := 28
def arpDmac : ℕ := 32
def dip : ℕ := 38
def dip2 : ℕ := 40
def padd : ℕ := 42
def sizeof : ℕ := 44

end EthrHdr

structure MacAddr where
  bytes : List UInt8
  length_eq : bytes.length = 6
  deriving DecidableEq

/-! ### `arp_frame.c` -/

def BROADCAST_MAC : String := "FF:FF:FF:FF:FF:FF"

def hexToInt (ch : UInt8) : UInt32 :=
  if '0'.toUInt8 ≤ ch ∧ ch ≤ '9'.toUInt8 then (ch - '0'.toUInt8).toUInt32
  else if 'A'.toUInt8 ≤ ch ∧ ch ≤ 'F'.toUInt8 then 10 + (ch - 'A'.toUInt8).toUInt32
  else if 'a'.toUInt8 ≤ ch ∧ ch ≤ 'f'.toUInt8 then 10 + (ch - 'a'.toUInt8).toUInt32
  else 0

-- The loop `for (i = 0, j = 0; i < 17; i += 3) dest[j++] = ...`; the list is dest[0..j).
def packMacFrom (src : List UInt8) (i : ℕ) : List UInt8 :=
  if i < 17 then
    let i1 := hexToInt (src.getD i 0)
    let i2 := hexToInt (src.getD (i + 1) 0)
    ((i1 <<< 4) + i2).toUInt8 :: packMacFrom src (i + 3)
  else []
termination_by 17 - i

def packMac (src : List UInt8) : List UInt8 := packMacFrom src 0

structure GetIpState where
  arr : List UInt8
  n1 : ℕ
  ipVals : List UInt32
  n2 : ℕ

/-- A store `a[i] = x` into a local array; the indices `get_ip` stores at never skip a slot, and a
store past the end grows the buffer, as a store past a C array overwrites the stack beyond it. -/
def arrStore {α : Type} (l : List α) (i : ℕ) (x : α) : List α :=
  if i < l.length then l.set i x else l ++ [x]

-- `arr[n1++] = '\0'; n1 = 0; ip_vals[n2++] = atoi(arr);`, at a '.' and again after the loop.
def getIpEndField (s : GetIpState) : GetIpState :=
  let arr := arrStore s.arr s.n1 0
  { arr := arr, n1 := 0, ipVals := arrStore s.ipVals s.n2 (atoi arr), n2 := s.n2 + 1 }

def getIpStep (s : GetIpState) (ch : UInt8) : GetIpState :=
  if ch = '.'.toUInt8 then getIpEndField s
  else { s with arr := arrStore s.arr s.n1 ch, n1 := s.n1 + 1 }

def getIpInit : GetIpState := ⟨[], 0, [], 0⟩

/-- `get_ip(ip, len)`. The entries of `ip_vals` the loop never stored are read from `stale`, the
contents the stack slot held before the call. -/
def getIp (stale : ℕ → UInt32) (ip : List UInt8) (len : ℕ) : UInt32 :=
  let s := getIpEndField ((List.range len).foldl (fun s i => getIpStep s (ip.getD i 0)) getIpInit)
  let ipVal := fun i => s.ipVals.getD i (stale i)
  (ipVal 3 <<< 24) + (ipVal 2 <<< 16) + (ipVal 1 <<< 8) + ipVal 0

def htons (v : UInt16) : UInt16 := (v >>> 8) ||| (v <<< 8)

def htonl (v : UInt32) : UInt32 :=
  (htons (v >>> 16).toUInt16).toUInt32 ||| ((htons v.toUInt16).toUInt32 <<< 16)

/-- `create_eth_arp_frame(smac, ipAddr, eth)` on the byte image `eth` of the struct; `sipVals`
and `dipVals` are the stale stack contents of the two `get_ip` calls. -/
def createEthArpFrame (smac : MacAddr) (ipAddr : List UInt8) (sipVals dipVals : ℕ → UInt32)
    (eth : Mem) : Mem :=
  let dmac := cstr BROADCAST_MAC
  let eth := eth.write EthrHdr.dmac (packMac dmac)
  let eth := eth.write EthrHdr.smac smac.bytes
  let eth := eth.store16 EthrHdr.ethrType (htons 0x0806)
  let eth := eth.store16 EthrHdr.hwtype (htons 1)
  let eth := eth.store16 EthrHdr.protype (htons 0x0800)
  let eth := eth.write EthrHdr.hwsize [0x06]
  let eth := eth.write EthrHdr.prosize [0x04]
  let eth := eth.store16 EthrHdr.opcode (htons 1)
  let eth := eth.write EthrHdr.arpSmac smac.bytes
  let eth := eth.write EthrHdr.arpDmac (packMac dmac)
  let eth := eth.store32 EthrHdr.sip (getIp sipVals (cstr "192.168.1.1") (cstr "192.168.1.1").length)
  -- `*(uint32_t*)(&eth->dip) = ...` stores over `dip` and `dip2`.
  eth.store32 EthrHdr.dip (getIp dipVals ipAddr ipAddr.length)

/-! ### Dotted quads -/

def decStep (n : ℕ) (c : UInt8) : ℕ := n * 10 + (c.toNat - '0'.toNat)

def decValue (s : List UInt8) : ℕ := s.foldl decStep 0

structure Octet where
  digits : List UInt8
  digits_ne_nil : digits ≠ []
  length_le : digits.length ≤ 3
  all_digit : ∀ c ∈ digits, isDigit c
  value_lt : decValue digits < 256

def Octet.value (o : Octet) : UInt8 := UInt8.ofNat (decValue o.digits)

structure DottedQuad where
  a : Octet
  b : Octet
  c : Octet
  d : Octet

def DottedQuad.text (q : DottedQuad) : List UInt8 :=
  q.a.digits ++ '.'.toUInt8 :: (q.b.digits ++ '.'.toUInt8 :: (q.c.digits ++ '.'.toUInt8 :: q.d.digits))

lemma foldl_range_getD {α β : Type} (f : α → β → α) (l : List β) (d : β) (s : α) :
    (List.range l.length).foldl (fun s i => f s (l.getD i d)) s = l.foldl f s := by
  have hmap : (List.range l.length).map (fun i => l.getD i d) = l := by
    apply List.ext_getElem (by simp)
    intro i h _
    simp only [List.getElem_map, List.getElem_range]
    exact List.getD_eq_getElem l d (by simpa using h)
  conv_rhs => rw [← hmap]
  rw [List.foldl_map]

lemma arrStore_append {α : Type} (p r : List α) (x : α) :
    arrStore (p ++ r) p.length x = p ++ x :: r.tail := by
  cases r with
  | nil => simp [arrStore]
  | cons y r => simp [arrStore]

lemma atoiLoop_append_nul (n : UInt32) (f r : List UInt8) : atoiLoop n (f ++ 0 :: r) = atoiLoop n f := by
  induction f generalizing n with
  | nil =>
    have h0 : ¬ isDigit 0 := by decide
    simp [atoiLoop, h0]
  | cons c f ih =>
    simp only [List.cons_append, atoiLoop]
    split <;> simp [ih]

lemma foldl_getIpStep_field (f : List UInt8) (hf : '.'.toUInt8 ∉ f) (p r : List UInt8)
    (s : GetIpState) (harr : s.arr = p ++ r) (hn1 : s.n1 = p.length) :
    f.foldl getIpStep s = { s with arr := p ++ f ++ r.drop f.length, n1 := p.length + f.length } := by
  induction f generalizing s p r with
  | nil => cases s; simp_all
  | cons c f ih =>
    have hc : c ≠ '.'.toUInt8 := fun h => hf (h ▸ List.mem_cons_self)
    have hrest : '.'.toUInt8 ∉ f := fun h => hf (List.mem_cons_of_mem c h)
    have hstep : getIpStep s c = { s with arr := (p ++ [c]) ++ r.tail, n1 := (p ++ [c]).length } := by
      simp [getIpStep, hc, harr, hn1, arrStore_append]
    rw [List.foldl_cons, hstep, ih hrest (p ++ [c]) r.tail _ rfl rfl, List.drop_tail]
    simp only [List.length_append, List.length_cons, List.length_nil, List.append_assoc,
      List.singleton_append]
    congr 1
    omega

lemma getIpEndField_field (f : List UInt8) (hf : '.'.toUInt8 ∉ f) (s : GetIpState)
    (hn1 : s.n1 = 0) (hn2 : s.n2 = s.ipVals.length) :
    (getIpEndField (f.foldl getIpStep s)).ipVals = s.ipVals ++ [atoi f] ∧
      (getIpEndField (f.foldl getIpStep s)).n1 = 0 ∧
      (getIpEndField (f.foldl getIpStep s)).n2 = s.ipVals.length + 1 := by
  rw [foldl_getIpStep_field f hf [] s.arr s rfl hn1]
  simp only [List.nil_append, List.length_nil, Nat.zero_add]
  refine ⟨?_, rfl, by simp [getIpEndField, hn2]⟩
  simp only [getIpEndField, arrStore_append, hn2]
  simp [arrStore, atoi, atoiLoop_append_nul]

lemma arrStore_length {α : Type} (l : List α) {i : ℕ} (h : i ≤ l.length) (x : α) :
    (arrStore l i x).length = max l.length (i + 1) := by
  unfold arrStore
  split_ifs with hi
  · rw [List.length_set]
    omega
  · rw [List.length_append, List.length_singleton]
    omega

-- `n2` is the number of `ip_vals` slots stored so far, and `n1` never passes the end of `arr`.
def GetIpState.Counts (s : GetIpState) : Prop := s.n2 = s.ipVals.length ∧ s.n1 ≤ s.arr.length

lemma getIpEndField_counts {s : GetIpState} (h : s.Counts) :
    (getIpEndField s).Counts ∧ (getIpEndField s).ipVals.length = s.ipVals.length + 1 := by
  have hv := arrStore_length s.ipVals (le_of_eq h.1) (atoi (arrStore s.arr s.n1 0))
  have h1 := h.1
  refine ⟨⟨?_, Nat.zero_le _⟩, ?_⟩ <;> simp only [getIpEndField] <;> rw [hv] <;> omega

lemma getIpStep_counts {s : GetIpState} (h : s.Counts) (c : UInt8) :
    (getIpStep s c).Counts ∧
      (getIpStep s c).ipVals.length = s.ipVals.length + if c = '.'.toUInt8 then 1 else 0 := by
  unfold getIpStep
  split_ifs with hc
  · exact getIpEndField_counts h
  · have ha := arrStore_length s.arr h.2 c
    refine ⟨⟨h.1, ?_⟩, rfl⟩
    simp only [ha]
    omega

lemma foldl_getIpStep_counts : ∀ (l : List UInt8) (s : GetIpState), s.Counts →
    (l.foldl getIpStep s).Counts ∧ (l.foldl getIpStep s).ipVals.length = s.ipVals.length + l.count '.'.toUInt8
  | [], _, h => ⟨h, rfl⟩
  | c :: l, s, h => by
    obtain ⟨hc, hlen⟩ := getIpStep_counts h c
    obtain ⟨hc', hlen'⟩ := foldl_getIpStep_counts l _ hc
    refine ⟨hc', ?_⟩
    rw [List.foldl_cons, hlen', hlen, List.count_cons]
    by_cases hd : c = '.'.toUInt8 <;> simp [hd]; omega

theorem getIp_stores_per_field (ip : List UInt8) :
    (getIpEndField ((List.range ip.length).foldl (fun s i => getIpStep s (ip.getD i 0)) getIpInit)).ipVals.length =
      ip.count '.'.toUInt8 + 1 := by
  rw [foldl_range_getD getIpStep ip 0 getIpInit]
  obtain ⟨hc, hlen⟩ := foldl_getIpStep_counts ip getIpInit ⟨rfl, le_refl 0⟩
  rw [(getIpEndField_counts hc).2, hlen]
  exact congrArg (· + 1) (Nat.zero_add _)

lemma le_foldl_decStep (f : List UInt8) (n : ℕ) : n ≤ f.foldl decStep n := by
  induction f generalizing n with
  | nil => exact le_refl n
  | cons c f ih => exact le_trans (by unfold decStep; omega) (ih (decStep n c))

lemma atoiLoop_toNat (f : List UInt8) (hf : ∀ c ∈ f, isDigit c) (n : UInt32)
    (hb : f.foldl decStep n.toNat < 2 ^ 32) : (atoiLoop n f).toNat = f.foldl decStep n.toNat := by
  induction f generalizing n with
  | nil => rfl
  | cons c f ih =>
    have hc := hf c List.mem_cons_self
    have hc' : 48 ≤ c.toNat ∧ c.toNat ≤ 57 := by
      simp only [isDigit, UInt8.le_iff_toNat_le] at hc
      exact ⟨hc.1, hc.2⟩
    have hstep : decStep n.toNat c < 2 ^ 32 := lt_of_le_of_lt (le_foldl_decStep f _) hb
    have hval : (n * 10 + c.toUInt32 - '0'.toUInt8.toUInt32).toNat = decStep n.toNat c := by
      simp only [decStep] at hstep ⊢
      have h48 : '0'.toUInt8.toNat = 48 := by decide
      have h48' : '0'.toNat = 48 := by decide
      have h10 : (10 : UInt32).toNat = 10 := rfl
      rw [UInt32.toNat_sub, UInt32.toNat_add, UInt32.toNat_mul, UInt8.toNat_toUInt32, UInt8.toNat_toUInt32,
        h48, h48', h10]
      omega
    rw [atoiLoop, if_pos hc, ih (fun c hc => hf c (List.mem_cons_of_mem _ hc)) _ (by rwa [hval]), hval,
      List.foldl_cons]

lemma Octet.atoi_eq (o : Octet) : atoi o.digits = UInt32.ofNat (decValue o.digits) := by
  have hv := o.value_lt
  apply UInt32.toNat_inj.mp
  rw [atoi, atoiLoop_toNat _ o.all_digit _ (by rw [UInt32.toNat_zero]; exact lt_trans hv (by norm_num)),
    UInt32.toNat_ofNat', UInt32.toNat_zero, Nat.mod_eq_of_lt (lt_trans hv (by norm_num))]
  rfl

lemma Octet.dot_not_mem (o : Octet) : '.'.toUInt8 ∉ o.digits := by
  intro h
  have hd := o.all_digit _ h
  revert hd
  decide

lemma pack_octets (a b c d : ℕ) :
    (UInt32.ofNat d <<< 24) + (UInt32.ofNat c <<< 16) + (UInt32.ofNat b <<< 8) + UInt32.ofNat a =
      UInt32.ofNat (a + 256 * b + 65536 * c + 16777216 * d) := by
  apply UInt32.toNat_inj.mp
  have h24 : (24 : UInt32).toNat % 32 = 24 := rfl
  have h16 : (16 : UInt32).toNat % 32 = 16 := rfl
  have h8 : (8 : UInt32).toNat % 32 = 8 := rfl
  simp only [UInt32.toNat_add, UInt32.toNat_shiftLeft, UInt32.toNat_ofNat', Nat.shiftLeft_eq, h24, h16, h8]
  omega

lemma getIp_dottedQuad (stale : ℕ → UInt32) (q : DottedQuad) :
    getIp stale q.text q.text.length = UInt32.ofNat (decValue q.a.digits + 256 * decValue q.b.digits +
      65536 * decValue q.c.digits + 16777216 * decValue q.d.digits) := by
  have hdot : ∀ s, getIpStep s '.'.toUInt8 = getIpEndField s := fun s => by simp [getIpStep]
  obtain ⟨h1, h1n, h1m⟩ := getIpEndField_field q.a.digits q.a.dot_not_mem getIpInit rfl rfl
  obtain ⟨h2, h2n, h2m⟩ := getIpEndField_field q.b.digits q.b.dot_not_mem _ h1n (by rw [h1m, h1]; simp [getIpInit])
  obtain ⟨h3, h3n, h3m⟩ := getIpEndField_field q.c.digits q.c.dot_not_mem _ h2n (by rw [h2m, h2, h1]; simp [getIpInit])
  obtain ⟨h4, -, -⟩ := getIpEndField_field q.d.digits q.d.dot_not_mem _ h3n (by rw [h3m, h3, h2, h1]; simp [getIpInit])
  simp only [getIp, foldl_range_getD, DottedQuad.text, List.foldl_append, List.foldl_cons, hdot]
  rw [h4, h3, h2, h1]
  simp only [getIpInit, List.nil_append, List.cons_append, List.getD_cons_succ, List.getD_cons_zero,
    Octet.atoi_eq]
  exact pack_octets _ _ _ _

lemma leBytes_octets {a b c d : ℕ} (ha : a < 256) (hb : b < 256) (hc : c < 256) (hd : d < 256) :
    leBytes 4 (UInt32.ofNat (a + 256 * b + 65536 * c + 16777216 * d)).toNat =
      [UInt8.ofNat a, UInt8.ofNat b, UInt8.ofNat c, UInt8.ofNat d] := by
  have hsum : a + 256 * b + 65536 * c + 16777216 * d = a + 256 * (b + 256 * (c + 256 * (d + 256 * 0))) := by
    ring
  rw [UInt32.toNat_ofNat', Nat.mod_eq_of_lt (by omega), hsum, leBytes_succ_add _ ha, leBytes_succ_add _ hb,
    leBytes_succ_add _ hc, leBytes_succ_add _ hd]
  rfl

/-! ### The request frame -/

attribute [simp] MacAddr.length_eq

def sourceIp : DottedQuad where
  a := ⟨cstr "192", by decide, by decide, by simp [cstr]; decide, by decide⟩
  b := ⟨cstr "168", by decide, by decide, by simp [cstr]; decide, by decide⟩
  c := ⟨cstr "1", by decide, by decide, by simp [cstr]; decide, by decide⟩
  d := ⟨cstr "1", by decide, by decide, by simp [cstr]; decide, by decide⟩

lemma sourceIp_text : sourceIp.text = cstr "192.168.1.1" := by decide

lemma packMac_broadcast : packMac (cstr BROADCAST_MAC) = List.replicate 6 0xFF := by
  simp [packMac, packMacFrom]
  decide

lemma dottedQuad_bytes (stale : ℕ → UInt32) (q : DottedQuad) :
    leBytes 4 (getIp stale q.text q.text.length).toNat = [q.a.value, q.b.value, q.c.value, q.d.value] := by
  rw [getIp_dottedQuad]
  exact leBytes_octets q.a.value_lt q.b.value_lt q.c.value_lt q.d.value_lt

/-- `get_ip` of a dotted quad whose fields have one to three decimal digits packs the first field
into the low byte, so the value's little-endian bytes are the four fields in order. -/
theorem getIp_network_order (stale : ℕ → UInt32) (q : DottedQuad) :
    (getIp stale q.text q.text.length).toNat = decValue q.a.digits + 2 ^ 8 * decValue q.b.digits +
        2 ^ 16 * decValue q.c.digits + 2 ^ 24 * decValue q.d.digits ∧
      leBytes 4 (getIp stale q.text q.text.length).toNat = [q.a.value, q.b.value, q.c.value, q.d.value] := by
  have ha := q.a.value_lt
  have hb := q.b.value_lt
  have hc := q.c.value_lt
  have hd := q.d.value_lt
  refine ⟨?_, dottedQuad_bytes stale q⟩
  rw [getIp_dottedQuad, UInt32.toNat_ofNat', Nat.mod_eq_of_lt (by omega)]
  norm_num

/-- The 42 bytes of an RFC 826 Ethernet/ARP request from `smac` for `q`, with the source protocol
address 192.168.1.1 and the broadcast target hardware address. -/
def arpRequestFrame (smac : MacAddr) (q : DottedQuad) : List UInt8 :=
  List.replicate 6 0xFF ++ smac.bytes ++ [0x08, 0x06, 0x00, 0x01, 0x08, 0x00, 0x06, 0x04, 0x00, 0x01] ++
    smac.bytes ++ [0xC0, 0xA8, 0x01, 0x01] ++ List.replicate 6 0xFF ++
      [q.a.value, q.b.value, q.c.value, q.d.value]

lemma read_write_of_length_eq (m : Mem) (a : ℕ) {bs : List UInt8} {n : ℕ} (h : bs.length = n) :
    (m.write a bs).read a n = bs := by
  subst h
  exact Mem.read_write_self m a bs

theorem createEthArpFrame_read (smac : MacAddr) (q : DottedQuad) (sipVals dipVals : ℕ → UInt32) (eth : Mem) :
    (createEthArpFrame smac q.text sipVals dipVals eth).read 0 42 = arpRequestFrame smac q := by
  have hsip := dottedQuad_bytes sipVals sourceIp
  rw [sourceIp_text] at hsip
  simp only [createEthArpFrame, Mem.store16, Mem.store32, hsip, dottedQuad_bytes, packMac_broadcast]
  rw [show (42 : ℕ) = 6 + 6 + 2 + 2 + 2 + 1 + 1 + 2 + 6 + 4 + 6 + 4 from rfl]
  repeat rw [Mem.read_add]
  simp only [EthrHdr.dmac, EthrHdr.smac, EthrHdr.ethrType, EthrHdr.hwtype, EthrHdr.protype,
      EthrHdr.hwsize, EthrHdr.prosize, EthrHdr.opcode, EthrHdr.arpSmac, EthrHdr.sip, EthrHdr.arpDmac,
      EthrHdr.dip, Nat.reduceAdd]
  simp (disch := simp) only [Mem.read_write_of_disjoint, read_write_of_length_eq]
  have hether : leBytes 2 (htons 0x0806).toNat = [0x08, 0x06] := by decide
  have hone : leBytes 2 (htons 1).toNat = [0x00, 0x01] := by decide
  have hipv4 : leBytes 2 (htons 0x0800).toNat = [0x08, 0x00] := by decide
  have hsrc : [sourceIp.a.value, sourceIp.b.value, sourceIp.c.value, sourceIp.d.value] = [0xC0, 0xA8, 0x01, 0x01] := by
    decide
  simp only [hether, hone, hipv4, hsrc, arpRequestFrame, List.append_assoc, List.cons_append, List.nil_append]

/-! ### Decoding -/

def intToHex (n : UInt32) : UInt8 :=
  if 0 ≤ n ∧ n ≤ 9 then '0'.toUInt8 + n.toUInt8
  else if 10 ≤ n ∧ n ≤ 15 then 'A'.toUInt8 + (n - 10).toUInt8
  else '0'.toUInt8

-- mac_str[c++] for the two hex digits and the ':' of each of the six bytes mac[0..6).
def unpackMacBody (mac : List UInt8) : List UInt8 :=
  (List.range 6).flatMap fun i =>
    let m := (mac.getD i 0).toUInt32
    [intToHex ((m &&& 0xf0) >>> 4), intToHex (m &&& 0x0f), ':'.toUInt8]

/-- The bytes `unpack_mac(mac, mac_str)` leaves in `mac_str[0..c)`: `mac_str[c-1] = '\0'` overwrites
the last ':'. -/
def unpackMac (mac : List UInt8) : List UInt8 :=
  let body := unpackMacBody mac
  body.set (body.length - 1) 0

/-! ### MAC text -/

section MacText

lemma unpackMac_length (mac : List UInt8) : (unpackMac mac).length = 18 := by
  simp [unpackMac, unpackMacBody]

lemma unpackMac_getD (mac : List UInt8) {k : ℕ} (hk : k < 6) :
    (unpackMac mac).getD (3 * k) 0 = intToHex (((mac.getD k 0).toUInt32 &&& 0xf0) >>> 4) ∧
    (unpackMac mac).getD (3 * k + 1) 0 = intToHex ((mac.getD k 0).toUInt32 &&& 0x0f) ∧
    (unpackMac mac).getD (3 * k + 2) 0 = if k = 5 then 0 else ':'.toUInt8 := by
  interval_cases k <;> simp [unpackMac, unpackMacBody, List.range_succ]

lemma packMac_eq (src : List UInt8) : packMac src = (List.range 6).map fun k =>
    ((hexToInt (src.getD (3 * k) 0) <<< 4) + hexToInt (src.getD (3 * k + 1) 0)).toUInt8 := by
  simp [packMac, packMacFrom, List.range_succ]

-- The nibble and digit tables, one entry per value.
lemma nibbles_table : ∀ k : Fin 256, ((UInt8.ofNat k).toUInt32 &&& 0xf0) >>> 4 = UInt32.ofNat (k / 16) ∧
    (UInt8.ofNat k).toUInt32 &&& 0x0f = UInt32.ofNat (k % 16) := by
  decide +kernel

lemma intToHex_table : ∀ k : Fin 16, hexToInt (intToHex (UInt32.ofNat k)) = UInt32.ofNat k ∧
    intToHex (UInt32.ofNat k) ≠ 0 := by
  decide

lemma intToHex_ne_zero (n : UInt32) : intToHex n ≠ 0 := by
  by_cases hn : n.toNat < 16
  · simpa using (intToHex_table ⟨n.toNat, hn⟩).2
  · -- above 15 `int_to_hex` falls back to '0'
    have h9 : ¬ n ≤ 9 := fun h => hn (by have := UInt32.le_iff_toNat_le.mp h; simp at this; omega)
    have h15 : ¬ n ≤ 15 := fun h => hn (by have := UInt32.le_iff_toNat_le.mp h; simp at this; omega)
    rw [intToHex, if_neg (fun h => h9 h.2), if_neg (fun h => h15 h.2)]
    decide

lemma nibbles (b : UInt8) :
    (b.toUInt32 &&& 0xf0) >>> 4 = UInt32.ofNat (b.toNat / 16) ∧ b.toUInt32 &&& 0x0f = UInt32.ofNat (b.toNat % 16) := by
  simpa using nibbles_table ⟨b.toNat, b.toNat_lt⟩

lemma packByte_unpackByte (b : UInt8) :
    ((hexToInt (intToHex ((b.toUInt32 &&& 0xf0) >>> 4)) <<< 4) + hexToInt (intToHex (b.toUInt32 &&& 0x0f))).toUInt8 = b := by
  have hb : b.toNat < 256 := b.toNat_lt
  obtain ⟨h₁, h₂⟩ := nibbles b
  rw [h₁, h₂, (intToHex_table ⟨b.toNat / 16, by omega⟩).1, (intToHex_table ⟨b.toNat % 16, by omega⟩).1]
  apply UInt8.toNat_inj.mp
  simp only [UInt32.toNat_toUInt8, UInt32.toNat_add, UInt32.toNat_shiftLeft, UInt32.toNat_ofNat', Nat.shiftLeft_eq]
  simp
  omega

lemma nibbles_pack {x y : UInt32} (hx : x < 16) (hy : y < 16) :
    ((((x <<< 4) + y).toUInt8.toUInt32 &&& 0xf0) >>> 4) = x ∧ (((x <<< 4) + y).toUInt8.toUInt32 &&& 0x0f) = y := by
  have hx' : x.toNat < 16 := hx
  have hy' : y.toNat < 16 := hy
  have hb : ((x <<< 4) + y).toUInt8.toNat = 16 * x.toNat + y.toNat := by
    simp only [UInt32.toNat_toUInt8, UInt32.toNat_add, UInt32.toNat_shiftLeft, Nat.shiftLeft_eq]
    simp
    omega
  obtain ⟨h₁, h₂⟩ := nibbles ((x <<< 4) + y).toUInt8
  rw [h₁, h₂, hb]
  constructor <;> apply UInt32.toNat_inj.mp <;> simp <;> omega

/-- A hex digit of either case, as `hex_to_int` reads it. -/
def isHexDigit (c : UInt8) : Prop :=
  isDigit c ∨ ('A'.toUInt8 ≤ c ∧ c ≤ 'F'.toUInt8) ∨ ('a'.toUInt8 ≤ c ∧ c ≤ 'f'.toUInt8)

instance (c : UInt8) : Decidable (isHexDigit c) := inferInstanceAs (Decidable (_ ∨ _))

def toUpper (c : UInt8) : UInt8 := if 'a'.toUInt8 ≤ c ∧ c ≤ 'z'.toUInt8 then c - 32 else c

lemma hexDigit_table : ∀ k : Fin 256, isHexDigit (UInt8.ofNat k) →
    intToHex (hexToInt (UInt8.ofNat k)) = toUpper (UInt8.ofNat k) ∧ hexToInt (UInt8.ofNat k) < 16 := by
  decide +kernel

lemma intToHex_hexToInt {c : UInt8} (hc : isHexDigit c) : intToHex (hexToInt c) = toUpper c ∧ hexToInt c < 16 := by
  simpa using hexDigit_table ⟨c.toNat, c.toNat_lt⟩ (by simpa using hc)

/-- The text `XX:XX:XX:XX:XX:XX`: six pairs of hex digits of either case, separated by ':'. -/
structure MacText where
  text : List UInt8
  length_eq : text.length = 17
  hex : ∀ i < 17, i % 3 ≠ 2 → isHexDigit (text.getD i 0)
  colon : ∀ i < 17, i % 3 = 2 → text.getD i 0 = ':'.toUInt8

lemma MacText.pack_getD (s : MacText) {k : ℕ} (hk : k < 6) :
    (((packMac s.text).getD k 0).toUInt32 &&& 0xf0) >>> 4 = hexToInt (s.text.getD (3 * k) 0) ∧
    ((packMac s.text).getD k 0).toUInt32 &&& 0x0f = hexToInt (s.text.getD (3 * k + 1) 0) := by
  have hp : (packMac s.text).getD k 0 =
      ((hexToInt (s.text.getD (3 * k) 0) <<< 4) + hexToInt (s.text.getD (3 * k + 1) 0)).toUInt8 := by
    rw [packMac_eq]
    simp [hk]
  rw [hp]
  exact nibbles_pack (intToHex_hexToInt (s.hex _ (by omega) (by omega))).2
    (intToHex_hexToInt (s.hex _ (by omega) (by omega))).2

/-- `unpack_mac` writes 17 characters and a NUL, from which `pack_mac` gets the bytes back; and
`unpack_mac` of what `pack_mac` read from a MAC text is that text with its letters in upper case. -/
theorem mac_text_round_trip :
    (∀ m : MacAddr, (unpackMac m.bytes).length = 18 ∧ (unpackMac m.bytes).getD 17 0 = 0 ∧
      (∀ i < 17, (unpackMac m.bytes).getD i 0 ≠ 0) ∧ packMac (unpackMac m.bytes) = m.bytes) ∧
    ∀ s : MacText, unpackMac (packMac s.text) = s.text.map toUpper ++ [0] := by
  refine ⟨fun m => ⟨unpackMac_length _, (unpackMac_getD m.bytes (k := 5) (by decide)).2.2, ?_, ?_⟩, fun s => ?_⟩
  · -- every character is a hex digit or a ':'
    intro i hi
    obtain ⟨k, j, hj, rfl⟩ : ∃ k j, j < 3 ∧ i = 3 * k + j :=
      ⟨i / 3, i % 3, Nat.mod_lt _ (by omega), (Nat.div_add_mod i 3).symm⟩
    obtain ⟨h₀, h₁, h₂⟩ := unpackMac_getD m.bytes (k := k) (by omega)
    interval_cases j
    · rw [Nat.add_zero, h₀]
      exact intToHex_ne_zero _
    · rw [h₁]
      exact intToHex_ne_zero _
    · rw [h₂, if_neg (by omega)]
      decide
  · rw [packMac_eq]
    apply List.ext_getElem (by simp)
    intro k hk _
    simp only [List.length_map, List.length_range] at hk
    obtain ⟨h₀, h₁, -⟩ := unpackMac_getD m.bytes hk
    rw [List.getElem_map, List.getElem_range, h₀, h₁, packByte_unpackByte, List.getD_eq_getElem]
  · apply List.ext_getElem (by simp [unpackMac_length, s.length_eq])
    intro i hi _
    rw [← List.getD_eq_getElem _ 0 hi]
    rw [unpackMac_length] at hi
    obtain ⟨k, j, hj, rfl⟩ : ∃ k j, j < 3 ∧ i = 3 * k + j :=
      ⟨i / 3, i % 3, Nat.mod_lt _ (by omega), (Nat.div_add_mod i 3).symm⟩
    have hk : k < 6 := by omega
    obtain ⟨h₀, h₁, h₂⟩ := unpackMac_getD (packMac s.text) hk
    obtain ⟨p₀, p₁⟩ := s.pack_getD hk
    -- the two digits of a pair, then the ':' or the final NUL
    interval_cases j
    · rw [List.getElem_append_left (by simp [s.length_eq]; omega), List.getElem_map, ← List.getD_eq_getElem _ 0,
        Nat.add_zero, h₀, p₀, (intToHex_hexToInt (s.hex _ (by omega) (by omega))).1]
    · rw [List.getElem_append_left (by simp [s.length_eq]; omega), List.getElem_map, ← List.getD_eq_getElem _ 0,
        h₁, p₁, (intToHex_hexToInt (s.hex _ (by omega) (by omega))).1]
    · rw [h₂]
      split_ifs with h5
      · subst h5
        simp [s.length_eq]
      · rw [List.getElem_append_left (by simp [s.length_eq]; omega), List.getElem_map, ← List.getD_eq_getElem _ 0,
          s.colon _ (by omega) (by omega)]
        decide

end MacText

-- `while (ip1 > 0) { arr[j++] = (ip1 % 10) + '0'; ip1 /= 10; }`: the digits, least significant first.
def decDigitsRev (ip1 : UInt32) : List UInt8 :=
  if 0 < ip1 then ((ip1 % 10) + '0'.toUInt8.toUInt32).toUInt8 :: decDigitsRev (ip1 / 10) else []
termination_by ip1.toNat
decreasing_by
  have : 0 < ip1.toNat := by simpa [UInt32.lt_iff_toNat_lt] using ‹0 < ip1›
  have h10 : (10 : UInt32).toNat = 10 := rfl
  rw [UInt32.toNat_div, h10]
  omega

def parseIpOctet (ip1 : UInt32) : List UInt8 :=
  if ip1 = 0 then ['0'.toUInt8, ':'.toUInt8] else (decDigitsRev ip1).reverse ++ [':'.toUInt8]

/-- `ip_vals` after the first loop of `parse_ip`: `for (i = 0; i >= 0; i--)` runs once, for `i = 0`,
and stores the logical and `ip && v`; the other three entries keep their stale contents. -/
def parseIpVals (stale : ℕ → UInt32) (ip : UInt32) : List UInt32 :=
  [if ip ≠ 0 ∧ (255 : UInt32) ≠ 0 then 1 else 0, stale 1, stale 2, stale 3]

def parseIp (stale : ℕ → UInt32) (ip : UInt32) : List UInt8 :=
  let body := (parseIpVals stale ip).flatMap parseIpOctet
  body.set (body.length - 1) 0

/-! ### The text `parse_ip` writes -/

section ParseIp

lemma digit_char {d : UInt32} (hd : d < 10) : isDigit (d + '0'.toUInt8.toUInt32).toUInt8 := by
  have hd' : d.toNat < 10 := hd
  have h0 : '0'.toUInt8.toNat = 48 := rfl
  have h9 : '9'.toUInt8.toNat = 57 := rfl
  have hv : ((d + '0'.toUInt8.toUInt32).toUInt8).toNat = d.toNat + 48 := by
    simp only [UInt32.toNat_toUInt8, UInt32.toNat_add, UInt8.toNat_toUInt32, h0]
    omega
  simp only [isDigit, UInt8.le_iff_toNat_le, hv, h0, h9]
  omega

lemma decDigitsRev_digit (n : UInt32) : ∀ c ∈ decDigitsRev n, isDigit c := by
  induction n using decDigitsRev.induct with
  | case1 n hn ih =>
    rw [decDigitsRev, if_pos hn]
    intro c hc
    rcases List.mem_cons.mp hc with rfl | hc
    · exact digit_char (UInt32.lt_iff_toNat_lt.mpr (by rw [UInt32.toNat_mod]; exact Nat.mod_lt _ (by decide)))
    · exact ih c hc
  | case2 n hn =>
    rw [decDigitsRev, if_neg hn]
    simp

lemma parseIpOctet_text (v : UInt32) : ∃ t, parseIpOctet v = t ++ [':'.toUInt8] ∧ ∀ c ∈ t, isDigit c := by
  unfold parseIpOctet
  split_ifs with h
  · exact ⟨['0'.toUInt8], rfl, by simp; decide⟩
  · exact ⟨(decDigitsRev v).reverse, rfl, fun c hc => decDigitsRev_digit v c (List.mem_reverse.mp hc)⟩

lemma set_length_concat {α : Type} (l : List α) (a b : α) : (l ++ [a]).set l.length b = l ++ [b] := by
  simp [List.set_append_right]

lemma cstrOf_append_nul (l r : List UInt8) (h : ∀ c ∈ l, c ≠ 0) : cstrOf (l ++ 0 :: r) = l := by
  rw [cstrOf, List.takeWhile_append_of_pos (by simpa using h)]
  simp

lemma parseIp_text (stale : ℕ → UInt32) (ip : UInt32) :
    ∃ rest, cstrOf (parseIp stale ip) = (if ip = 0 then '0' else '1').toUInt8 :: ':'.toUInt8 :: rest ∧
      ∀ c ∈ rest, isDigit c ∨ c = ':'.toUInt8 := by
  obtain ⟨t₁, h₁, d₁⟩ := parseIpOctet_text (stale 1)
  obtain ⟨t₂, h₂, d₂⟩ := parseIpOctet_text (stale 2)
  obtain ⟨t₃, h₃, d₃⟩ := parseIpOctet_text (stale 3)
  have h₀ : parseIpOctet (if ip = 0 then 0 else 1) = [(if ip = 0 then '0' else '1').toUInt8, ':'.toUInt8] := by
    by_cases hip : ip = 0
    · simp [hip, parseIpOctet]
    · simp [hip, parseIpOctet, decDigitsRev]
      rfl
  have hbody : (parseIpVals stale ip).flatMap parseIpOctet =
      ((if ip = 0 then '0' else '1').toUInt8 :: ':'.toUInt8 :: (t₁ ++ ':'.toUInt8 :: t₂ ++ ':'.toUInt8 :: t₃)) ++
        [':'.toUInt8] := by
    simp [parseIpVals, h₀, h₁, h₂, h₃]
  have hrest : ∀ c ∈ t₁ ++ ':'.toUInt8 :: t₂ ++ ':'.toUInt8 :: t₃, isDigit c ∨ c = ':'.toUInt8 := by
    intro c hc
    simp only [List.mem_append, List.mem_cons] at hc
    rcases hc with (hc | hc | hc) | hc | hc
    · exact .inl (d₁ c hc)
    · exact .inr hc
    · exact .inl (d₂ c hc)
    · exact .inr hc
    · exact .inl (d₃ c hc)
  refine ⟨_, ?_, hrest⟩
  -- the final ':' becomes the NUL, and nothing before it is a NUL
  rw [parseIp, hbody, List.length_append, List.length_singleton, Nat.add_sub_cancel, set_length_concat,
    cstrOf_append_nul _ []]
  intro c hc
  rcases List.mem_cons.mp hc with rfl | hc
  · split_ifs <;> decide
  rcases List.mem_cons.mp hc with rfl | hc
  · decide
  rcases hrest c hc with hd | rfl
  · exact fun h0 => by rw [h0] at hd; exact absurd hd (by decide)
  · decide

lemma getIp_low_byte (a b c v : UInt32) : ((a <<< 24) + (b <<< 16) + (c <<< 8) + v).toNat % 256 = v.toNat % 256 := by
  have h24 : (24 : UInt32).toNat % 32 = 24 := rfl
  have h16 : (16 : UInt32).toNat % 32 = 16 := rfl
  have h8 : (8 : UInt32).toNat % 32 = 8 := rfl
  simp only [UInt32.toNat_add, UInt32.toNat_shiftLeft, Nat.shiftLeft_eq, h24, h16, h8]
  omega

/-- Whatever `ip` and the stack hold, `parse_ip` writes no '.', its second character is ':', and
`get_ip` of what it wrote has low byte 0 or 1: the first octet of `ip` is lost. -/
theorem parseIp_loses_octets (stale stale' : ℕ → UInt32) (ip : UInt32) :
    '.'.toUInt8 ∉ cstrOf (parseIp stale ip) ∧ (cstrOf (parseIp stale ip)).getD 1 0 = ':'.toUInt8 ∧
      (getIp stale' (cstrOf (parseIp stale ip)) (cstrOf (parseIp stale ip)).length).toNat % 256 =
        if ip = 0 then 0 else 1 := by
  obtain ⟨rest, hs, hrest⟩ := parseIp_text stale ip
  rw [hs]
  have hdot : '.'.toUInt8 ∉ (if ip = 0 then '0' else '1').toUInt8 :: ':'.toUInt8 :: rest := by
    intro h
    rcases List.mem_cons.mp h with h | h
    · split_ifs at h <;> exact absurd h (by decide)
    rcases List.mem_cons.mp h with h | h
    · exact absurd h (by decide)
    rcases hrest _ h with hd | hd
    · exact absurd hd (by decide)
    · exact absurd hd (by decide)
  refine ⟨hdot, rfl, ?_⟩
  -- with no '.', `get_ip` reads the whole text as its first field, whose `atoi` stops at the ':'
  obtain ⟨hv, -, -⟩ := getIpEndField_field _ hdot getIpInit rfl rfl
  simp only [getIp, foldl_range_getD]
  rw [hv]
  simp only [getIpInit, List.nil_append, List.getD_cons_zero, getIp_low_byte]
  have hcolon : ¬ isDigit ':'.toUInt8 := by decide
  by_cases hip : ip = 0
  · have hd : isDigit '0'.toUInt8 := by decide
    simp only [hip, if_true, atoi, atoiLoop, if_pos hd, if_neg hcolon]
    decide
  · have hd : isDigit '1'.toUInt8 := by decide
    simp only [hip, if_false, atoi, atoiLoop, if_pos hd, if_neg hcolon]
    decide

end ParseIp

inductive ArpReply where
  | rejected (msg : String)
  | printed (mac : List UInt8)
  deriving DecidableEq

/-- `parse_arp_reply(eth)` on the byte image of the struct passed by value; the result is what it
prints. `stale` is the stack contents `parse_ip` reads. -/
def parseArpReply (stale : ℕ → UInt32) (eth : Mem) : ArpReply :=
  if eth.load16 EthrHdr.ethrType ≠ 0x0806 then .rejected "Not an ARP packet"
  else if eth.load16 EthrHdr.protype ≠ 0x0800 then .rejected "Not IPV4 protocol\n"
  else if eth.load16 EthrHdr.opcode ≠ 2 then .rejected "Not an ARP reply\n"
  else if strcmp (cstr "FF:FF:FF:FF:FF:FF") (cstrOf (unpackMac (eth.read EthrHdr.arpDmac 6))) ≠ 0 then
    .rejected "Not the intended recipient\n"
  else if strcmp (cstr "255.255.255.255") (cstrOf (parseIp stale (eth.load16 EthrHdr.dip).toUInt32)) ≠ 0 then
    .rejected "Not the intended recipient\n"
  else .printed (cstrOf (unpackMac (eth.read EthrHdr.arpSmac 6)))

/-! ### Byte order of the checks -/

-- The checks compare the host-order (little-endian) value of each 16-bit field with a host-order
-- constant, so they see a wire field 08 06 as 0x0608.
theorem parseArpReply_wire_arp (stale : ℕ → UInt32) (eth : Mem)
    (h : eth.read EthrHdr.ethrType 2 = [0x08, 0x06]) :
    parseArpReply stale eth = .rejected "Not an ARP packet" := by
  have hv : eth.load16 EthrHdr.ethrType = 0x0608 := by rw [Mem.load16_eq_of_read eth _ h]; rfl
  rw [parseArpReply, if_pos (by rw [hv]; decide)]

def sampleReply : List UInt8 :=
  [0x52, 0x54, 0x00, 0x12, 0x34, 0x56] ++ [0x52, 0x55, 0x0A, 0x00, 0x02, 0x02] ++
    [0x08, 0x06, 0x00, 0x01, 0x08, 0x00, 0x06, 0x04, 0x00, 0x02] ++ [0x52, 0x55, 0x0A, 0x00, 0x02, 0x02] ++
      [192, 168, 2, 1] ++ [0x52, 0x54, 0x00, 0x12, 0x34, 0x56] ++ [192, 168, 1, 1]

theorem parseArpReply_sampleReply :
    parseArpReply (fun _ => 0) (Mem.ofList sampleReply) = .rejected "Not an ARP packet" :=
  parseArpReply_wire_arp _ _ (by decide)

end Xv6Net.Net.ArpFrame
