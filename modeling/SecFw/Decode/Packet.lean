import SecFw.Common.Mbuf

/-!
This module contains the decoding of a received frame, layer by layer. Every header field is loaded
from the frame, a load behind its end has no result.
-/

namespace SecFw

namespace Mbuf

def loadBytes (pkt : List UInt8) (pkt_ptr ptr : UInt64) (k : Nat) : Option Nat :=
  let pos := (ptr - pkt_ptr).toNat
  if pos + k ≤ pkt.length then some (Bytes.field pkt pos k) else none

def load8 (p : Mbuf) (ptr : UInt64) : Option UInt8 :=
  (loadBytes p.pkt p.pkt_ptr ptr 1).map UInt8.ofNat

def load16 (p : Mbuf) (ptr : UInt64) : Option UInt16 :=
  (loadBytes p.pkt p.pkt_ptr ptr 2).map UInt16.ofNat

def load32 (p : Mbuf) (ptr : UInt64) : Option UInt32 :=
  (loadBytes p.pkt p.pkt_ptr ptr 4).map UInt32.ofNat

def loadMac (p : Mbuf) (ptr : UInt64) : Option (Vector UInt8 6) :=
  (loadBytes p.pkt p.pkt_ptr ptr 6).map fun _ => Bytes.vector 6 p.pkt (ptr - p.pkt_ptr).toNat

end Mbuf

namespace Decode

abbrev ETHERNET_HEADER_LEN : UInt16 := 14
abbrev ETHERNET_TYPE_IP : UInt16 := 0x0800
abbrev ETHERNET_TYPE_VLAN : UInt16 := 0x8100
abbrev ETHERNET_TYPE_8021QINQ : UInt16 := 0x9100

abbrev VLAN_HEADER_LEN : UInt16 := 4

abbrev IPV4_HEADER_LEN : Nat := 20
abbrev PROTO_TCP : UInt8 := 6
abbrev PROTO_UDP : UInt8 := 17

abbrev TCP_HEADER_LEN : UInt8 := 20
abbrev TCP_OPTLENMAX : UInt8 := 40

abbrev UDP_HEADER_LEN : UInt16 := 8

inductive Decoded where
  -- `DECODE_DROP`, the caller destroys the packet
  | drop
  -- `PACKET_DESTROY_ALL` was called
  | destroyed (mbuf : Mbuf)
  -- `Defrag` is called
  | defrag (mbuf : Mbuf)
  -- `FlowHandlePacket` is called
  | flow (mbuf : Mbuf)

def octRxProcessWork (frame : List UInt8) (pkt_virt : UInt64) (input_port : UInt32) : Mbuf where
  magic_flag := MBUF_MAGIC_NUM
  pkt_space := .PKTBUF_HW
  pkt_totallen := UInt16.ofNat frame.length
  pkt_ptr := pkt_virt
  pkt := frame
  ethh := 0
  vlanh := 0
  network_header := 0
  transport_header := 0
  input_port := input_port
  eth_dst := .replicate 6 0
  eth_src := .replicate 6 0
  sip := 0
  dip := 0
  sport := 0
  dport := 0
  proto := 0
  vlan_idx := 0
  vlan_id := 0
  payload := 0
  frag_offset := 0
  frag_len := 0

def decodeTCPPacket (mbuf : Mbuf) (pkt : UInt64) (len : UInt16) : Option (Option Mbuf) :=
  -- without a result inside of `some` for `DECODE_DROP`
  if len.toNat < TCP_HEADER_LEN.toNat then
    some none
  else do
    let mbuf := { mbuf with transport_header := pkt }
    let th_offx2 : UInt8 ← mbuf.load8 (mbuf.transport_header + 12)
    let hlen := UInt8.ofNat (((th_offx2 &&& 0xf0) >>> 4).toNat <<< 2)
    if len.toNat < hlen.toNat then
      some none
    else
      -- wraps around for a header that is too short
      let tcp_opt_len := hlen - TCP_HEADER_LEN
      if tcp_opt_len > TCP_OPTLENMAX then
        some none
      else do
        let sport ← mbuf.load16 mbuf.transport_header
        let dport ← mbuf.load16 (mbuf.transport_header + 2)
        some (some { mbuf with
          sport := sport
          dport := dport
          payload := pkt + hlen.toUInt64
          payload_len := len - hlen.toUInt16 })

def decodeUDPPacket (mbuf : Mbuf) (pkt : UInt64) (len : UInt16) : Option (Option Mbuf) :=
  -- without a result inside of `some` for `DECODE_DROP`
  if len < UDP_HEADER_LEN then
    some none
  else do
    let mbuf := { mbuf with transport_header := pkt }
    let uh_len ← mbuf.load16 (mbuf.transport_header + 4)
    if len < uh_len then
      some none
    else if len ≠ uh_len then
      some none
    else do
      let sport ← mbuf.load16 mbuf.transport_header
      let dport ← mbuf.load16 (mbuf.transport_header + 2)
      some (some { mbuf with
        sport := sport
        dport := dport
        payload := pkt + UDP_HEADER_LEN.toUInt64
        payload_len := len - UDP_HEADER_LEN })

def passOn (nmbuf : Mbuf) (decoded : Option Mbuf) : Decoded :=
  -- `DecodeTCP` and `DecodeUDP` as `DecodeIPV4` calls them
  match decoded with
  | some mbuf => .flow mbuf
  | none => .destroyed nmbuf

def loadHlen (p : Mbuf) : Option Nat := do
  let ip_verhl ← p.load8 p.network_header
  some ((ip_verhl &&& 0x0f).toNat <<< 2)

def loadIplen (p : Mbuf) : Option UInt16 := p.load16 (p.network_header + 2)

def decodeDatagram (nmbuf : Mbuf) : Option Decoded :=
  if nmbuf.proto = PROTO_TCP then do
    let hlen ← loadHlen nmbuf
    let iplen ← loadIplen nmbuf
    let decoded ← decodeTCPPacket nmbuf (nmbuf.network_header + UInt64.ofNat hlen)
      (UInt16.ofInt (iplen.toNat - hlen))
    some (passOn nmbuf decoded)
  else if nmbuf.proto = PROTO_UDP then do
    let hlen ← loadHlen nmbuf
    let iplen ← loadIplen nmbuf
    let decoded ← decodeUDPPacket nmbuf (nmbuf.network_header + UInt64.ofNat hlen)
      (UInt16.ofInt (iplen.toNat - hlen))
    some (passOn nmbuf decoded)
  else
    some (.destroyed nmbuf)

def decodeIPV4Packet (mbuf : Mbuf) (pkt : UInt64) (len : UInt16) : Option (Option Mbuf) :=
  -- without a result inside of `some` for `DECODE_DROP`
  if len.toNat < IPV4_HEADER_LEN then
    some none
  else do
    let ip_verhl ← mbuf.load8 pkt
    if (ip_verhl &&& 0xf0) >>> 4 ≠ 4 then
      some none
    else do
      let mbuf := { mbuf with network_header := pkt }
      let hlen ← loadHlen mbuf
      if hlen < IPV4_HEADER_LEN then
        some none
      else do
        let iplen ← loadIplen mbuf
        if iplen.toNat < hlen then
          some none
        else if len < iplen then
          some none
        else do
          let sip ← mbuf.load32 (mbuf.network_header + 12)
          let dip ← mbuf.load32 (mbuf.network_header + 16)
          some (some { mbuf with sip := sip, dip := dip })

def decodeIPV4 (mbuf : Mbuf) (pkt : UInt64) (len : UInt16) : Option Decoded := do
  -- `DecodeIPV4` up to the call of `Defrag` or to the end
  match ← decodeIPV4Packet mbuf pkt len with
  | none => some .drop
  | some mbuf => do
    let protocol ← mbuf.load8 (mbuf.network_header + 9)
    let mbuf := { mbuf with proto := protocol }
    let ip_off : UInt16 ← mbuf.load16 (mbuf.network_header + 6)
    if ip_off &&& 0x1fff > 0 ∨ ((ip_off &&& 0x2000) >>> 13).toUInt8 = 1 then do
      let ihl ← loadHlen mbuf
      let ip_id ← mbuf.load16 (mbuf.network_header + 4)
      let mbuf := { mbuf with
        defrag_id := ip_id
        frag_offset := ((ip_off &&& 0x1fff).toNat <<< 3 : Nat)
        frag_len := len.toNat - ihl }
      if mbuf.frag_len = 0 then some .drop else some (.defrag mbuf)
    else
      decodeDatagram mbuf

def decodeVLAN (mb : Mbuf) (pkt : UInt64) (len : UInt16) : Option Decoded :=
  if len < VLAN_HEADER_LEN then
    some .drop
  else if mb.vlan_idx ≥ 1 then
    some .drop
  else do
    let mb := { mb with vlanh := pkt }
    let proto ← mb.load16 (pkt + 2)
    let mb := { mb with vlan_idx := 1 }
    if proto = ETHERNET_TYPE_IP then
      decodeIPV4 mb (pkt + VLAN_HEADER_LEN.toUInt64) (len - VLAN_HEADER_LEN)
    else if proto = ETHERNET_TYPE_VLAN ∨ proto = ETHERNET_TYPE_8021QINQ then
      decodeVLAN mb (pkt + VLAN_HEADER_LEN.toUInt64) (len - VLAN_HEADER_LEN)
    else
      some .drop
termination_by len.toNat
decreasing_by
  have hle := UInt16.not_lt.mp ‹¬ len < VLAN_HEADER_LEN›
  have := UInt16.le_iff_toNat_le.mp hle
  rw [UInt16.toNat_sub_of_le _ _ hle]
  have : VLAN_HEADER_LEN.toNat = 4 := rfl
  omega

def decodeEthernet (mbuf : Mbuf) (pkt : UInt64) (len : UInt16) : Option Decoded :=
  if len < ETHERNET_HEADER_LEN then
    some .drop
  else do
    let mbuf := { mbuf with ethh := pkt }
    let dst ← mbuf.load8 pkt
    if dst ≠ 0x88 then
      some .drop
    else do
      let eth_dst ← mbuf.loadMac pkt
      let eth_src ← mbuf.loadMac (pkt + 6)
      let mbuf := { mbuf with eth_dst := eth_dst, eth_src := eth_src }
      let eth_type ← mbuf.load16 (pkt + 12)
      if eth_type = ETHERNET_TYPE_IP then
        decodeIPV4 mbuf (pkt + ETHERNET_HEADER_LEN.toUInt64) (len - ETHERNET_HEADER_LEN)
      else if eth_type = ETHERNET_TYPE_VLAN ∨ eth_type = ETHERNET_TYPE_8021QINQ then
        decodeVLAN mbuf (pkt + ETHERNET_HEADER_LEN.toUInt64) (len - ETHERNET_HEADER_LEN)
      else
        some .drop

def decode (m : Mbuf) : Option Decoded := decodeEthernet m m.pkt_ptr m.pkt_totallen

end Decode

end SecFw
