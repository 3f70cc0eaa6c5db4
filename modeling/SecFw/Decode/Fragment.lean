import SecFw.Decode.Bounds
import SecFw.Decode.FragTable

/-!
This module contains what the decoders hand over for reassembly: the fields of the descriptor of a
fragment as functions of the received frame.
-/

namespace SecFw.Decode

open Bytes

inductive LinkHeaders (base : UInt64) (m : Mbuf) : Nat → Prop where
  | untagged (hethh : m.ethh = base) (hidx : m.vlan_idx = 0) (hvlanh : m.vlanh = 0)
    : LinkHeaders base m 14
  | tagged (hethh : m.ethh = base) (hidx : m.vlan_idx = 1) (hvlanh : m.vlanh = base + 14)
    : LinkHeaders base m 18

structure DefragCall (base : UInt64) (frame : List UInt8) (n : Nat) (m : Mbuf) : Prop where
  pkt : m.pkt = frame
  pkt_ptr : m.pkt_ptr = base
  pkt_totallen : m.pkt_totallen.toNat = frame.length
  network_header : m.network_header = base + UInt64.ofNat n
  header : Ipv4Header frame n
  frag_offset : m.frag_offset = (field frame (n + 6) 2 % 2 ^ 13 * 8 : Nat)
  frag_len : segmentAt frame n + m.frag_len = frame.length
  frag_len_pos : 0 < m.frag_len
  link : LinkHeaders base m n
  transport_header : m.transport_header = 0
  payload : m.payload = 0

structure InMemory (base : UInt64) (frame : List UInt8) : Prop where
  pos : 0 < base.toNat
  fits : base.toNat + frame.length < 2 ^ 64

theorem InMemory.add_ne_zero {base : UInt64} {frame : List UInt8}
    (h : InMemory base frame) {k : Nat} (hk : k ≤ frame.length)
    : base + UInt64.ofNat k ≠ 0 := by
  have hpos := h.pos
  have hfits := h.fits
  rw [ne_eq, ← UInt64.toNat_inj, UInt64.toNat_add, UInt64.toNat_ofNat', UInt64.toNat_zero]
  omega

section Network

variable {m m' : Mbuf} {pkt : UInt64} {len : UInt16} {n : Nat}

theorem passOn_ne_defrag (result : Option Mbuf) : passOn m result ≠ .defrag m' := by
  cases result with
  | none => simp [passOn]
  | some m'' => simp [passOn]

theorem decodeDatagram_ne_defrag : decodeDatagram m ≠ some (.defrag m') := by
  unfold decodeDatagram
  split
  . simp only [Option.bind_eq_bind, ne_eq, Option.bind_eq_some_iff, Option.some.injEq,
      passOn_ne_defrag, and_false, exists_false, not_false_eq_true]
  . split
    . simp only [Option.bind_eq_bind, ne_eq, Option.bind_eq_some_iff, Option.some.injEq,
        passOn_ne_defrag, and_false, exists_false, not_false_eq_true]
    . simp

structure Ipv4Fragment (m : Mbuf) (n : Nat) (m' : Mbuf) : Prop where
  header : Ipv4Header m.pkt n
  eq : m' = { m with
    network_header := m.pkt_ptr + UInt64.ofNat n
    sip := m'.sip
    dip := m'.dip
    proto := m'.proto
    defrag_id := m'.defrag_id
    frag_offset := (field m.pkt (n + 6) 2 % 2 ^ 13 * 8 : Nat)
    frag_len := (m.pkt.length - n : Nat) - ipHeaderLength m.pkt n }
  frag_len_ne : m'.frag_len ≠ 0

theorem decodeIPV4_defrag (hlen : m.pkt.length < 2 ^ 16) (hn : n ≤ m.pkt.length)
    (h : decodeIPV4 m (m.pkt_ptr + UInt64.ofNat n) (UInt16.ofNat (m.pkt.length - n))
      = some (.defrag m')) : Ipv4Fragment m n m' := by
  rcases decodeIPV4_cases hlen hn with
    ⟨hdrop, -⟩ | ⟨hip, m1, hheader, -, ⟨-, hdecoded⟩ | ⟨-, hdecoded⟩⟩
  . rw [hdrop] at h
    cases h
  . rw [hdecoded] at h
    exact absurd h decodeDatagram_ne_defrag
  . rw [hdecoded] at h
    have heq := decodeIPV4Packet_eq hheader
    split at h
    . cases h
    . next hpos =>
      cases h
      refine ⟨hip, ?_, hpos⟩
      rw [heq]

structure Passed (base : UInt64) (frame : List UInt8) (n : Nat) (m : Mbuf) : Prop where
  pkt : m.pkt = frame
  pkt_ptr : m.pkt_ptr = base
  pkt_totallen : m.pkt_totallen.toNat = frame.length
  link : LinkHeaders base m n
  transport_header : m.transport_header = 0
  payload : m.payload = 0

theorem Ipv4Fragment.defragCall {base : UInt64} {frame : List UInt8} (h : Ipv4Fragment m n m')
    (hpassed : Passed base frame n m) : DefragCall base frame n m' := by
  have hheader := h.header.total
  have hfits := h.header.fits
  have heq := h.eq
  have hne := h.frag_len_ne
  have hlen : m'.frag_len = (m.pkt.length - n : Nat) - ipHeaderLength m.pkt n := by rw [heq]
  rw [hpassed.pkt] at hheader hfits hlen
  constructor
  case pkt => rw [heq, ← hpassed.pkt]
  case pkt_ptr => rw [heq, ← hpassed.pkt_ptr]
  case pkt_totallen => rw [heq, ← hpassed.pkt_totallen]
  case network_header => rw [heq, ← hpassed.pkt_ptr]
  case header => exact hpassed.pkt ▸ h.header
  case frag_offset => rw [heq, ← hpassed.pkt]
  case frag_len =>
    rw [segmentAt]
    omega
  case frag_len_pos => omega
  case link =>
    cases hpassed.link with
    | untagged hethh hidx hvlanh =>
      rw [heq]
      exact .untagged hethh hidx hvlanh
    | tagged hethh hidx hvlanh =>
      rw [heq]
      exact .tagged hethh hidx hvlanh
  case transport_header => rw [heq, hpassed.transport_header]
  case payload => rw [heq, hpassed.payload]

theorem decodeIPV4_defragCall {base : UInt64} {frame : List UInt8}
    (h : decodeIPV4 m (base + UInt64.ofNat n) (UInt16.ofNat (frame.length - n))
      = some (.defrag m')) (hpassed : Passed base frame n m) (hlen : frame.length < 2 ^ 16)
    (hn : n ≤ frame.length) : DefragCall base frame n m' := by
  rw [← hpassed.pkt] at h hlen hn
  rw [← hpassed.pkt_ptr] at h
  exact (decodeIPV4_defrag hlen hn h).defragCall hpassed

end Network

section Link

variable {m m' : Mbuf}

theorem decodeVLAN_defrag {base : UInt64} {frame : List UInt8}
    (h : decodeVLAN m (base + UInt64.ofNat 14) (UInt16.ofNat (frame.length - 14))
      = some (.defrag m')) (hpassed : Passed base frame 14 m) (hlen : frame.length < 2 ^ 16)
    (hn : 14 ≤ frame.length) : field frame 16 2 = 0x0800 ∧ DefragCall base frame 18 m' := by
  have hpkt := hpassed.pkt
  have hptr := hpassed.pkt_ptr
  subst hpkt hptr
  rcases decodeVLAN_cases hlen hn with ⟨hdrop, -⟩ | ⟨hdecoded, hfits, hip⟩
  . rw [hdrop] at h
    cases h
  . rw [hdecoded] at h
    refine ⟨hip, decodeIPV4_defragCall h ?_ hlen hfits⟩
    cases hpassed.link with
    | untagged hethh hidx hvlanh =>
      exact ⟨rfl, rfl, hpassed.pkt_totallen, .tagged hethh rfl rfl, hpassed.transport_header,
        hpassed.payload⟩

theorem decodeEthernet_defrag {base : UInt64} {frame : List UInt8}
    (h : decodeEthernet m base (UInt16.ofNat frame.length) = some (.defrag m'))
    (hpassed : Passed base frame 14 { m with ethh := base }) (hlen : frame.length < 2 ^ 16)
    : ∃ n, IpAt frame n ∧ DefragCall base frame n m' := by
  have hpkt : m.pkt = frame := hpassed.pkt
  have hptr : m.pkt_ptr = base := hpassed.pkt_ptr
  subst hpkt hptr
  have hpassed' (eth_dst eth_src : Vector UInt8 6)
      : Passed m.pkt_ptr m.pkt 14 { m with ethh := m.pkt_ptr, eth_dst, eth_src } := by
    cases hpassed.link with
    | untagged hethh hidx hvlanh =>
      exact ⟨rfl, rfl, hpassed.pkt_totallen, .untagged hethh hidx hvlanh, hpassed.transport_header,
        hpassed.payload⟩
  rcases decodeEthernet_cases hlen with
    ⟨hdrop, -⟩ | ⟨hfits, hdst, eth_dst, eth_src, ⟨hip, hdecoded⟩ | ⟨hvlan, hdecoded⟩⟩
  . rw [hdrop] at h
    cases h
  . rw [hdecoded] at h
    exact ⟨14, .untagged hfits hdst hip, decodeIPV4_defragCall h (hpassed' _ _) hlen hfits⟩
  . rw [hdecoded] at h
    have htagged := decodeVLAN_defrag h (hpassed' _ _) hlen hfits
    have hfits' := htagged.2.header.fits
    have htotal := htagged.2.header.total
    have hmin := htagged.2.header.header
    exact ⟨18, .tagged (by omega) hdst hvlan htagged.1, htagged.2⟩

theorem decode_defrag {frame : List UInt8} {pkt_virt : UInt64} {input_port : UInt32}
    (hlen : frame.length < 2 ^ 16)
    (h : decode (octRxProcessWork frame pkt_virt input_port) = some (.defrag m'))
    : ∃ n, IpAt frame n ∧ DefragCall pkt_virt frame n m' :=
  decodeEthernet_defrag h ⟨rfl, rfl, toNat_ofNat16 hlen, .untagged rfl rfl rfl, rfl, rfl⟩ hlen

end Link

section Fields

/-- A descriptor with the lengths that `DecodeIPV4` has computed from the frame. -/
structure AsDecoded (m : Mbuf) : Prop where
  frag_offset : 0 ≤ m.frag_offset
  frag_len : 0 < m.frag_len
  pkt_totallen : m.pkt_totallen.toNat = m.networkOffset + m.IPV4_GET_HLEN + m.frag_len
  pkt : m.pkt.length = m.pkt_totallen.toNat
  hlen : 20 ≤ m.IPV4_GET_HLEN
  network_header : m.network_header ≠ 0

instance (m : Mbuf) : Decidable (AsDecoded m) :=
  decidable_of_iff (0 ≤ m.frag_offset ∧ 0 < m.frag_len
      ∧ m.pkt_totallen.toNat = m.networkOffset + m.IPV4_GET_HLEN + m.frag_len
      ∧ m.pkt.length = m.pkt_totallen.toNat ∧ 20 ≤ m.IPV4_GET_HLEN ∧ m.network_header ≠ 0)
    ⟨fun ⟨h1, h2, h3, h4, h5, h6⟩ => ⟨h1, h2, h3, h4, h5, h6⟩,
      fun h => ⟨h.1, h.2, h.3, h.4, h.5, h.6⟩⟩

variable {base : UInt64} {frame : List UInt8} {n : Nat} {m : Mbuf}

theorem DefragCall.networkOffset (h : DefragCall base frame n m) (hn : n < 2 ^ 64)
    : m.networkOffset = n := by
  rw [Mbuf.networkOffset, h.network_header, h.pkt_ptr]
  exact toNat_sub_base base hn

theorem DefragCall.hlen (h : DefragCall base frame n m) (hn : n < 2 ^ 64)
    : m.IPV4_GET_HLEN = ipHeaderLength frame n := by
  rw [Mbuf.IPV4_GET_HLEN, Mbuf.ipByte, h.networkOffset hn, h.pkt, toNat_lowBits, Nat.shiftLeft_eq,
    ipHeaderLength, field_one, Nat.add_zero]

theorem DefragCall.iplen (h : DefragCall base frame n m) (hn : n < 2 ^ 64)
    : m.IPV4_GET_IPLEN.toNat = ipTotalLength frame n := by
  have hmin := h.header.header
  have htotal := h.header.total
  have hfits := h.header.fits
  have htwo : field frame (n + 2) 2 = Bytes.ofBigEndian [m.ipByte 2, m.ipByte (2 + 1)] := by
    rw [field_two (by omega), Mbuf.ipByte, Mbuf.ipByte, h.networkOffset hn, h.pkt]
  rw [Mbuf.IPV4_GET_IPLEN, Mbuf.ipHalf, ← htwo, ipTotalLength]
  exact toNat_field16 frame (n + 2)

theorem IpAt.lt (h : IpAt frame n) : n < 2 ^ 64 := by
  cases h with
  | untagged => decide
  | tagged => decide

theorem DefragCall.asDecoded (h : DefragCall base frame n m) (hat : IpAt frame n)
    (hmem : InMemory base frame) : AsDecoded m := by
  have hfits := h.header.fits
  have htotal := h.header.total
  have hmin := h.header.header
  have hlen := h.frag_len
  have hhlen := h.hlen hat.lt
  rw [segmentAt] at hlen
  constructor
  case frag_offset =>
    rw [h.frag_offset]
    exact Int.natCast_nonneg _
  case frag_len => exact h.frag_len_pos
  case pkt_totallen =>
    rw [h.pkt_totallen, h.networkOffset hat.lt, hhlen]
    omega
  case pkt => rw [h.pkt, h.pkt_totallen]
  case hlen => rwa [hhlen]
  case network_header => exact h.network_header ▸ hmem.add_ne_zero (by omega)

/-- The decoders hand `m` over for reassembly when they are given some frame. -/
structure Received (m : Mbuf) : Prop where
  frame : ∃ (frame : List UInt8) (pkt_virt : UInt64) (input_port : UInt32),
    frame.length < 2 ^ 16 ∧ InMemory pkt_virt frame
      ∧ decode (octRxProcessWork frame pkt_virt input_port) = some (.defrag m)

structure Arrived (m : Mbuf) : Prop where
  defragCall : ∃ base frame n, InMemory base frame ∧ IpAt frame n ∧ DefragCall base frame n m

theorem Received.arrived (h : Received m) : Arrived m := by
  rcases h.frame with ⟨frame, base, _, hlen, hmem, hdecode⟩
  rcases decode_defrag hlen hdecode with ⟨n, hat, hcall⟩
  exact ⟨base, frame, n, hmem, hat, hcall⟩

theorem Arrived.asDecoded (h : Arrived m) : AsDecoded m := by
  rcases h.defragCall with ⟨base, frame, n, hmem, hat, hcall⟩
  exact hcall.asDecoded hat hmem

theorem Arrived.iplen (h : Arrived m)
    : m.IPV4_GET_HLEN ≤ m.IPV4_GET_IPLEN.toNat
      ∧ m.networkOffset + m.IPV4_GET_IPLEN.toNat ≤ m.pkt.length := by
  rcases h.defragCall with ⟨base, frame, n, hmem, hat, hcall⟩
  rw [hcall.hlen hat.lt, hcall.iplen hat.lt, hcall.networkOffset hat.lt, hcall.pkt]
  exact ⟨hcall.header.total, hcall.header.fits⟩

theorem packetHw2sw_eq_some {small : UInt64} {m' : Mbuf} (h : packetHw2sw small m = some m')
    : m' = m ∨ (small ≠ 0 ∧ m' = packetHeaderPtrAdjust { m with
        pkt_space := .PKTBUF_SW
        pkt_ptr := small
        pkt := m.pkt.take m.pkt_totallen.toNat } m.pkt_ptr small) := by
  unfold packetHw2sw at h
  split at h
  . cases h
    exact Or.inl rfl
  . dsimp only at h
    split at h
    . cases h
    . next hne =>
      have hsmall : mem2kAlloc small m.pkt_totallen.toUInt32 = small := by
        unfold mem2kAlloc at hne ⊢
        split
        . next hlarge => exact absurd (if_pos hlarge) hne
        . rfl
      cases h
      rw [hsmall] at hne ⊢
      exact Or.inr ⟨hne, rfl⟩

theorem LinkHeaders.adjust {small : UInt64} {mb : Mbuf} (h : LinkHeaders base m n)
    (hbase : base ≠ 0) (hethh : mb.ethh = m.ethh) (hidx : mb.vlan_idx = m.vlan_idx)
    (hvlanh : mb.vlanh = m.vlanh)
    : LinkHeaders small (packetHeaderPtrAdjust mb base small) n := by
  cases h with
  | untagged heth hzero hnull =>
    refine .untagged ?_ (hidx.trans hzero) ?_
    . rw [heth] at hethh
      simp only [packetHeaderPtrAdjust, hethh, if_pos hbase, UInt64.sub_self, UInt64.add_zero]
    . rw [hzero] at hidx
      simp only [packetHeaderPtrAdjust, hidx, hvlanh, hnull, ne_eq, not_true_eq_false, if_false]
  | tagged heth hone htag =>
    refine .tagged ?_ (hidx.trans hone) ?_
    . rw [heth] at hethh
      simp only [packetHeaderPtrAdjust, hethh, if_pos hbase, UInt64.sub_self, UInt64.add_zero]
    . have hset : mb.vlan_idx ≠ 0 := by
        rw [hidx, hone]
        decide
      rw [htag] at hvlanh
      simp only [packetHeaderPtrAdjust, if_pos hset, hvlanh]
      grind

theorem DefragCall.packetHw2sw {small : UInt64} {m' : Mbuf} (h : DefragCall base frame n m)
    (hmem : InMemory base frame) (hsmall : small.toNat + frame.length < 2 ^ 64)
    (hsw : packetHw2sw small m = some m')
    : ∃ base', InMemory base' frame ∧ DefragCall base' frame n m' := by
  rcases packetHw2sw_eq_some hsw with rfl | ⟨hne, rfl⟩
  . exact ⟨base, hmem, h⟩
  have hheader := h.header.header
  have htotal := h.header.total
  have hfits := h.header.fits
  have hnew : InMemory small frame :=
    ⟨Nat.pos_of_ne_zero fun hzero => hne (UInt64.toNat_inj.mp hzero), hsmall⟩
  have hbase : base ≠ 0 := fun hzero => absurd hmem.pos (by simp [hzero])
  have hnetwork : m.network_header ≠ 0 := h.network_header ▸ hmem.add_ne_zero (by omega)
  refine ⟨small, hnew, ?_⟩
  rw [h.pkt_ptr]
  constructor
  case pkt => exact (List.take_of_length_le (by rw [h.pkt, h.pkt_totallen])).trans h.pkt
  case pkt_ptr => rfl
  case pkt_totallen => exact h.pkt_totallen
  case network_header =>
    simp only [packetHeaderPtrAdjust, if_pos hnetwork]
    rw [h.network_header]
    grind
  case header => exact h.header
  case frag_offset => exact h.frag_offset
  case frag_len => exact h.frag_len
  case frag_len_pos => exact h.frag_len_pos
  case link => exact h.link.adjust hbase rfl rfl rfl
  case transport_header => simp [packetHeaderPtrAdjust, h.transport_header]
  case payload => simp [packetHeaderPtrAdjust, h.payload]

theorem Arrived.packetHw2sw {small : UInt64} {m' : Mbuf} (h : Arrived m)
    (hsmall : small.toNat + m.pkt.length < 2 ^ 64) (hsw : packetHw2sw small m = some m')
    : Arrived m' := by
  rcases h.defragCall with ⟨base, frame, n, hmem, hat, hcall⟩
  rw [hcall.pkt] at hsmall
  rcases hcall.packetHw2sw hmem hsmall hsw with ⟨base', hmem', hcall'⟩
  exact ⟨base', frame, n, hmem', hat, hcall'⟩

end Fields

section Frames

def linkFrame (link : List UInt8) (ip_off : Nat) (data trailing : List UInt8) : List UInt8 :=
  [0x88, 0, 0, 0, 0, 1, 0x88, 0, 0, 0, 0, 2] ++ link
    ++ [0x45, 0] ++ bigEndian 2 (20 + data.length) ++ [0, 1] ++ bigEndian 2 ip_off
    ++ [64, 17, 0, 0, 10, 0, 0, 1, 10, 0, 0, 2] ++ data ++ trailing

def fragmentOf (frame : List UInt8) (pkt_virt : UInt64) (input_port : UInt32) : Option Mbuf :=
  match decode (octRxProcessWork frame pkt_virt input_port) with
  | some (.defrag m) => some m
  | _ => none

theorem received_of_fragmentOf {frame : List UInt8} {pkt_virt : UInt64} {input_port : UInt32}
    {m : Mbuf} (h : fragmentOf frame pkt_virt input_port = some m) (hlen : frame.length < 2 ^ 16)
    (hmem : 0 < pkt_virt.toNat ∧ pkt_virt.toNat + frame.length < 2 ^ 64) : Received m := by
  unfold fragmentOf at h
  split at h
  . next hdecode =>
    cases h
    exact ⟨frame, pkt_virt, input_port, hlen, ⟨hmem.1, hmem.2⟩, hdecode⟩
  . cases h

end Frames

end SecFw.Decode
