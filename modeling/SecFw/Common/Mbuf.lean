import SecFw.Bytes.Basic

/-!
This module contains the packet descriptor of the data plane and the accessors for the IPv4 header
it points to. Header fields are in network order, which is the order of the machine.
-/

namespace SecFw

abbrev MBUF_MAGIC_NUM : UInt32 := 0xab00ab00

inductive PktSpace where
  | PKTBUF_HW
  | PKTBUF_SW
  deriving DecidableEq, Repr

structure Mbuf where
  -- `mbuf_t`. A pointer is an address, 0 is NULL. `pkt` are the bytes at `pkt_ptr`
  magic_flag : UInt32
  pkt_space : PktSpace
  pkt_totallen : UInt16
  pkt_ptr : UInt64
  pkt : List UInt8
  ethh : UInt64
  vlanh : UInt64
  network_header : UInt64
  transport_header : UInt64
  input_port : UInt32
  eth_dst : Vector UInt8 6
  eth_src : Vector UInt8 6
  sip : UInt32
  dip : UInt32
  sport : UInt16
  dport : UInt16
  proto : UInt8
  vlan_idx : UInt8
  vlan_id : UInt16
  payload : UInt64
  frag_offset : Int
  frag_len : Int
  defrag_id : UInt16 := 0
  payload_len : UInt16 := 0
  deriving DecidableEq, Repr

def packetHeaderPtrAdjust (mb : Mbuf) (old_pkt new_pkt : UInt64) : Mbuf :=
  let adjust (header : UInt64) := new_pkt + (header - old_pkt)
  { mb with
    ethh := if mb.ethh ≠ 0 then adjust mb.ethh else mb.ethh
    vlanh := if mb.vlan_idx ≠ 0 then adjust mb.vlanh else mb.vlanh
    network_header := if mb.network_header ≠ 0 then adjust mb.network_header else mb.network_header
    transport_header :=
      if mb.transport_header ≠ 0 then adjust mb.transport_header else mb.transport_header
    payload := if mb.payload ≠ 0 then adjust mb.payload else mb.payload }

def memcpyAt (dst : List UInt8) (pos : Nat) (src : List UInt8) : List UInt8 :=
  dst.take pos ++ src ++ dst.drop (pos + src.length)

namespace Mbuf

def networkOffset (p : Mbuf) : Nat := (p.network_header - p.pkt_ptr).toNat

def ipByte (p : Mbuf) (k : Nat) : UInt8 := p.pkt.getD (p.networkOffset + k) 0

def ipHalf (p : Mbuf) (k : Nat) : UInt16 :=
  UInt16.ofNat (Bytes.ofBigEndian [p.ipByte k, p.ipByte (k + 1)])

def setIpHalf (p : Mbuf) (k : Nat) (value : UInt16) : Mbuf :=
  { p with pkt := memcpyAt p.pkt (p.networkOffset + k) (Bytes.bigEndian 2 value.toNat) }

def IPV4_GET_HLEN (p : Mbuf) : Nat := (p.ipByte 0 &&& 0x0f).toNat <<< 2

def IPV4_GET_IPLEN (p : Mbuf) : UInt16 := p.ipHalf 2

def IPV4_GET_MF (p : Mbuf) : UInt8 := ((p.ipHalf 6 &&& 0x2000) >>> 13).toUInt8

def IPV4_SET_IPLEN (p : Mbuf) (value : UInt16) : Mbuf := p.setIpHalf 2 value

def IPV4_SET_IPCSUM (p : Mbuf) (value : UInt16) : Mbuf := p.setIpHalf 10 value

end Mbuf

def headerChecksum (pkt : Nat → UInt16) (hlen : UInt16) : UInt16 :=
  let csum := sum 0 5 + sum 6 4
  -- the options, which are only added for the lengths that the header can have
  let hlen := hlen - 20
  let csum := if hlen % 4 = 0 ∧ hlen ≤ 40 then csum + sum 10 (hlen.toNat / 2) else csum
  let csum := (csum >>> 16) + (csum &&& 0x0000FFFF)
  let csum := csum + (csum >>> 16)
  (~~~csum).toUInt16
where
  sum (first count : Nat) : UInt32 :=
    ((List.range' first count).map fun k => (pkt k).toUInt32).sum

section Lemmas

theorem length_memcpyAt {dst src : List UInt8} {pos : Nat} (h : pos + src.length ≤ dst.length)
    : (memcpyAt dst pos src).length = dst.length := by
  simp only [memcpyAt, List.length_append, List.length_take, List.length_drop]
  omega

theorem getElem?_memcpyAt {dst src : List UInt8} {pos : Nat} (h : pos ≤ dst.length) (i : Nat)
    : (memcpyAt dst pos src)[i]?
        =
      if i < pos then dst[i]? else if i < pos + src.length then src[i - pos]? else dst[i]? := by
  grind [memcpyAt]

theorem ofInt_natCast (n : Nat) : UInt16.ofInt n = UInt16.ofNat n := by
  apply UInt16.toNat_inj.mp
  rw [UInt16.ofInt, UInt16.toNat_ofNat', UInt16.toNat_ofNat']
  omega

theorem memcpyAt_end (dst src : List UInt8) : memcpyAt dst dst.length src = dst ++ src := by
  rw [memcpyAt, List.take_length, List.drop_eq_nil_of_le (by omega), List.append_nil]

theorem drop_memcpyAt {dst src : List UInt8} {pos k : Nat} (h : pos + src.length ≤ k)
    (hpos : pos ≤ dst.length) : (memcpyAt dst pos src).drop k = dst.drop k := by
  apply List.ext_getElem?
  intro i
  rw [List.getElem?_drop, List.getElem?_drop, getElem?_memcpyAt hpos, if_neg (by omega),
    if_neg (by omega)]

namespace Mbuf

variable {p : Mbuf} {k j : Nat} {value : UInt16}

@[simp]
theorem networkOffset_setIpHalf : (p.setIpHalf k value).networkOffset = p.networkOffset := rfl

theorem ipByte_setIpHalf_of_ne (h : p.networkOffset + k ≤ p.pkt.length) (hj : j < k ∨ k + 2 ≤ j)
    : (p.setIpHalf k value).ipByte j = p.ipByte j := by
  simp only [ipByte, networkOffset_setIpHalf, List.getD_eq_getElem?_getD]
  simp only [setIpHalf]
  rw [getElem?_memcpyAt h, Bytes.length_bigEndian]
  cases hj with
  | inl hj => rw [if_pos (by omega)]
  | inr hj => rw [if_neg (by omega), if_neg (by omega)]

theorem ipHalf_setIpHalf (h : p.networkOffset + k ≤ p.pkt.length)
    : (p.setIpHalf k value).ipHalf k = value := by
  have hbytes : Bytes.bigEndian 2 value.toNat
      = [(p.setIpHalf k value).ipByte k, (p.setIpHalf k value).ipByte (k + 1)] := by
    simp only [ipByte, networkOffset_setIpHalf, List.getD_eq_getElem?_getD]
    simp only [setIpHalf]
    rw [getElem?_memcpyAt h, getElem?_memcpyAt h, Bytes.length_bigEndian, if_neg (by omega),
      if_pos (by omega), if_neg (by omega), if_pos (by omega), Nat.sub_self]
    have hone : p.networkOffset + (k + 1) - (p.networkOffset + k) = 1 := by omega
    rw [hone]
    rfl
  rw [ipHalf, ← hbytes, Bytes.ofBigEndian_bigEndian value.toNat_lt, UInt16.ofNat_toNat]

theorem ipHalf_setIpHalf_of_ne (value : UInt16) (h : p.networkOffset + k ≤ p.pkt.length)
    (hj : j + 1 < k ∨ k + 2 ≤ j) : (p.setIpHalf k value).ipHalf j = p.ipHalf j := by
  rw [ipHalf, ipHalf, ipByte_setIpHalf_of_ne h (by omega), ipByte_setIpHalf_of_ne h (by omega)]

theorem length_pkt_setIpHalf (h : p.networkOffset + k + 2 ≤ p.pkt.length)
    : (p.setIpHalf k value).pkt.length = p.pkt.length := by
  apply length_memcpyAt
  rwa [Bytes.length_bigEndian]

theorem drop_pkt_setIpHalf (h : p.networkOffset + k ≤ p.pkt.length)
    (hj : p.networkOffset + k + 2 ≤ j) : (p.setIpHalf k value).pkt.drop j = p.pkt.drop j := by
  apply drop_memcpyAt
  . rwa [Bytes.length_bigEndian]
  . exact h

end Mbuf

end Lemmas

end SecFw
