import SecFw.Common.Mbuf

/-!
This module contains the reassembly of IPv4 datagrams: the queue of a fragment control block, the
place that a fragment is given in it, and the packet that is put together from a complete queue.
-/

namespace SecFw.Decode

abbrev DEFRAG_FIRST_IN : UInt8 := 1
abbrev DEFRAG_LAST_IN : UInt8 := 2
abbrev DEFRAG_COMPLETE : UInt8 := 4

abbrev IPV4_PKTLEN_MAX : Int := 65535

abbrev MEM_POOL_LARGE_BUFFER_SIZE : UInt32 := 8192
abbrev MEM_POOL_SLICE_CTRL_SIZE : UInt32 := 24

structure Fcb where
  fragments : List Mbuf
  fragments_tail : Option Mbuf
  status : UInt16
  total_fraglen : Int
  meat : Int
  last_in : UInt8

def fcbCreate : Fcb where
  fragments := []
  fragments_tail := none
  status := 0
  total_fraglen := 0
  meat := 0
  last_in := 0

structure Alloc where
  -- what the allocators have to give: a descriptor, and the next large buffer, 0 for none
  mbuf : Bool
  large : UInt64

def mem8kAlloc (alloc : Alloc) (alloc_size : UInt32) : UInt64 :=
  if alloc_size > MEM_POOL_LARGE_BUFFER_SIZE - MEM_POOL_SLICE_CTRL_SIZE then 0 else alloc.large

def fragDefragFreefrags (fcb : Fcb) : Fcb := { fcb with fragments := [], fragments_tail := none }

def fragDefragSetup (alloc : Alloc) (head : Mbuf) (fcb : Fcb) : Option Mbuf :=
  -- the packet bytes of the new descriptor are the ones written so far
  let alloc_size := UInt64.ofInt fcb.total_fraglen
    + (head.network_header - head.pkt_ptr + UInt64.ofNat head.IPV4_GET_HLEN)
  let packet_buffer := mem8kAlloc alloc alloc_size.toUInt32
  if ¬ alloc.mbuf then
    none
  else if packet_buffer = 0 then
    none
  else
    let new_mb : Mbuf := {
      magic_flag := MBUF_MAGIC_NUM
      pkt_space := .PKTBUF_SW
      pkt_totallen := 0
      pkt_ptr := packet_buffer
      pkt := []
      ethh := head.ethh
      vlanh := 0
      network_header := head.network_header
      transport_header := head.transport_header
      input_port := head.input_port
      eth_dst := head.eth_dst
      eth_src := head.eth_src
      sip := head.sip
      dip := head.dip
      sport := head.sport
      dport := head.dport
      proto := head.proto
      vlan_idx := head.vlan_idx
      vlan_id := head.vlan_id
      payload := head.payload
      frag_offset := 0
      frag_len := 0
    }
    some (packetHeaderPtrAdjust new_mb head.pkt_ptr packet_buffer)

def appendPacket (reasm_mb : Mbuf) (bytes : List UInt8) (len : UInt16) : Mbuf :=
  { reasm_mb with
    pkt := memcpyAt reasm_mb.pkt reasm_mb.pkt_totallen.toNat bytes
    pkt_totallen := reasm_mb.pkt_totallen + len }

def fragBytes (next : Mbuf) : List UInt8 :=
  (next.pkt.drop (next.pkt_totallen.toNat - next.frag_len.toNat)).take next.frag_len.toNat

def appendFragment (reasm_mb next : Mbuf) : Mbuf :=
  appendPacket reasm_mb (fragBytes next) (UInt16.ofInt next.frag_len)

def finishHeader (reasm_mb : Mbuf) (len : Int) (ihlen : Nat) : Mbuf :=
  let reasm_mb := reasm_mb.IPV4_SET_IPLEN (UInt16.ofInt len)
  let reasm_mb := reasm_mb.setIpHalf 6 0
  reasm_mb.IPV4_SET_IPCSUM
    (headerChecksum (fun k => reasm_mb.ipHalf (2 * k)) (UInt16.ofNat ihlen))

def fragDefragReasm (alloc : Alloc) (fcb : Fcb) : Fcb × Option Mbuf :=
  -- it is only called with a fragment in the queue
  match fcb.fragments with
  | [] => (fcb, none)
  | head :: rest =>
    let ihlen := head.IPV4_GET_HLEN
    let len := ihlen + fcb.total_fraglen
    if len > IPV4_PKTLEN_MAX then
      (fcb, none)
    else
      match fragDefragSetup alloc head fcb with
      | none => (fcb, none)
      | some reasm_mb =>
        let reasm_mb := appendPacket reasm_mb (head.pkt.take head.pkt_totallen.toNat)
          head.pkt_totallen
        let reasm_mb := rest.foldl appendFragment reasm_mb
        let reasm_mb := finishHeader reasm_mb len ihlen
        let fcb := { fcb with status := fcb.status ||| DEFRAG_COMPLETE.toUInt16 }
        (fragDefragFreefrags fcb, some reasm_mb)

def noteEnd (mbuf : Mbuf) (fcb : Fcb) : Option Fcb :=
  let fragEnd := mbuf.frag_offset + mbuf.frag_len
  if mbuf.IPV4_GET_MF = 0 then
    if fragEnd < fcb.total_fraglen ∨ fcb.last_in &&& DEFRAG_LAST_IN ≠ 0 then
      none
    else
      some { fcb with last_in := fcb.last_in ||| DEFRAG_LAST_IN, total_fraglen := fragEnd }
  else if fragEnd > fcb.total_fraglen then
    if fcb.last_in &&& DEFRAG_LAST_IN ≠ 0 then
      none
    else
      some { fcb with total_fraglen := fragEnd }
  else
    some fcb

structure Place where
  before : List Mbuf
  prev : Option Mbuf
  after : List Mbuf

def findPlace (fcb : Fcb) (offset : Int) : Place :=
  match fcb.fragments_tail with
  | none => ⟨[], none, []⟩
  | some tail =>
    if tail.frag_offset < offset then
      ⟨fcb.fragments, some tail, []⟩
    else
      let (before, after) := fcb.fragments.span fun next => ¬ next.frag_len ≥ offset
      ⟨before, before.getLast?, after⟩

def Place.overlaps (place : Place) (offset fragEnd : Int) : Bool :=
  place.prev.any (fun prev => prev.frag_offset + prev.frag_len - offset > 0)
    || place.after.head?.any (fun next => next.frag_offset - fragEnd < 0)

def insertFragment (mbuf : Mbuf) (place : Place) (fcb : Fcb) : Fcb :=
  { fcb with
    fragments := place.before ++ mbuf :: place.after
    fragments_tail := if place.after.isEmpty then some mbuf else fcb.fragments_tail
    meat := fcb.meat + mbuf.frag_len
    last_in := if mbuf.frag_offset = 0 then fcb.last_in ||| DEFRAG_FIRST_IN else fcb.last_in }

structure Processed where
  fcb : Fcb
  ret : Option Mbuf
  destroyed : Bool

def enqueue (mbuf : Mbuf) (fcb : Fcb) : Except Fcb Fcb :=
  if fcb.last_in &&& DEFRAG_COMPLETE ≠ 0 then
    .error fcb
  else
    match noteEnd mbuf fcb with
    | none => .error fcb
    | some fcb =>
      let place := findPlace fcb mbuf.frag_offset
      if place.overlaps mbuf.frag_offset (mbuf.frag_offset + mbuf.frag_len) then
        .error fcb
      else
        .ok (insertFragment mbuf place fcb)

structure Fcb.Complete (fcb : Fcb) : Prop where
  last_in : fcb.last_in = DEFRAG_FIRST_IN ||| DEFRAG_LAST_IN
  meat : fcb.meat = fcb.total_fraglen

instance (fcb : Fcb) : Decidable fcb.Complete :=
  decidable_of_iff (fcb.last_in = DEFRAG_FIRST_IN ||| DEFRAG_LAST_IN ∧ fcb.meat = fcb.total_fraglen)
    ⟨fun h => ⟨h.1, h.2⟩, fun h => ⟨h.1, h.2⟩⟩

def fragDefragProcess (alloc : Alloc) (mbuf : Mbuf) (fcb : Fcb) : Processed :=
  match enqueue mbuf fcb with
  | .error fcb => ⟨fcb, none, true⟩
  | .ok fcb =>
    if fcb.Complete then
      let (fcb, ret) := fragDefragReasm alloc fcb
      ⟨fcb, ret, false⟩
    else
      ⟨fcb, none, false⟩

end SecFw.Decode
