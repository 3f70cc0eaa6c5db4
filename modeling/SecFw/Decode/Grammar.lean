import SecFw.Decode.Packet

/-!
This module contains the grammar of the frames that are handed to the flow table, and the proof that
the decoders accept these frames only and read nothing outside of a frame.
-/

namespace SecFw.Decode

open Bytes

/-- The position of the IPv4 header, behind at most one VLAN tag. -/
inductive IpAt (frame : List UInt8) : Nat → Prop where
  | untagged (hfits : 14 ≤ frame.length) (hdst : field frame 0 1 = 0x88)
      (htype : field frame 12 2 = 0x0800) : IpAt frame 14
  | tagged (hfits : 18 ≤ frame.length) (hdst : field frame 0 1 = 0x88)
      (htype : field frame 12 2 = 0x8100 ∨ field frame 12 2 = 0x9100)
      (hinner : field frame 16 2 = 0x0800) : IpAt frame 18

def ipHeaderLength (frame : List UInt8) (n : Nat) : Nat := field frame n 1 % 16 * 4

def ipTotalLength (frame : List UInt8) (n : Nat) : Nat := field frame (n + 2) 2

def ipProtocol (frame : List UInt8) (n : Nat) : Nat := field frame (n + 9) 1

def segmentAt (frame : List UInt8) (n : Nat) : Nat := n + ipHeaderLength frame n

def segmentLength (frame : List UInt8) (n : Nat) : Nat :=
  ipTotalLength frame n - ipHeaderLength frame n

def tcpHeaderLength (frame : List UInt8) (n : Nat) : Nat := field frame (n + 12) 1 / 16 * 4

structure Ipv4Header (frame : List UInt8) (n : Nat) : Prop where
  version : field frame n 1 / 16 = 4
  header : 20 ≤ ipHeaderLength frame n
  total : ipHeaderLength frame n ≤ ipTotalLength frame n
  fits : n + ipTotalLength frame n ≤ frame.length

structure TcpSegment (frame : List UInt8) (n len : Nat) : Prop where
  header : 20 ≤ tcpHeaderLength frame n
  fits : tcpHeaderLength frame n ≤ len

structure UdpSegment (frame : List UInt8) (n len : Nat) : Prop where
  length : field frame (n + 4) 2 = len
  header : 8 ≤ len

def ProtocolHeader (frame : List UInt8) (n : Nat) : Prop :=
  (ipProtocol frame n = 6 ∧ TcpSegment frame (segmentAt frame n) (segmentLength frame n))
    ∨ (ipProtocol frame n = 17 ∧ UdpSegment frame (segmentAt frame n) (segmentLength frame n))

def Accepted (frame : List UInt8) : Prop :=
  ∃ n, IpAt frame n ∧ Ipv4Header frame n ∧ ProtocolHeader frame n

def FragmentAt (frame : List UInt8) (n : Nat) : Prop := field frame (n + 6) 2 % 2 ^ 14 ≠ 0

def Fragmented (frame : List UInt8) : Prop :=
  ∃ n, IpAt frame n ∧ Ipv4Header frame n ∧ FragmentAt frame n

/-- The fields that the flow table reads. -/
structure Describes (m : Mbuf) (base : UInt64) (frame : List UInt8) (n : Nat) : Prop where
  sip : m.sip.toNat = field frame (n + 12) 4
  dip : m.dip.toNat = field frame (n + 16) 4
  proto : m.proto.toNat = ipProtocol frame n
  sport : m.sport.toNat = field frame (segmentAt frame n) 2
  dport : m.dport.toNat = field frame (segmentAt frame n + 2) 2
  payload : (m.payload - base).toNat + m.payload_len.toNat = n + ipTotalLength frame n

section Bits

theorem toNat_highBits (b : UInt8) : ((b &&& 0xf0) >>> 4).toNat = b.toNat / 16 := by
  rw [UInt8.toNat_shiftRight, UInt8.toNat_and]
  have hmask : b.toNat &&& (0xf0 : UInt8).toNat = b.toNat &&& 15 <<< 4 := rfl
  have := b.toNat_lt
  change (b.toNat &&& (0xf0 : UInt8).toNat) >>> 4 = b.toNat / 16
  rw [hmask, Nat.shiftRight_and_distrib, Nat.shiftLeft_shiftRight, Nat.shiftRight_eq_div_pow,
    Nat.and_two_pow_sub_one_eq_mod _ 4]
  omega

theorem toNat_lowBits (b : UInt8) : (b &&& 0x0f).toNat = b.toNat % 16 := by
  rw [UInt8.toNat_and]
  exact Nat.and_two_pow_sub_one_eq_mod _ 4

theorem toNat_offsetBits (w : UInt16) : (w &&& 0x1fff).toNat = w.toNat % 2 ^ 13 := by
  rw [UInt16.toNat_and]
  exact Nat.and_two_pow_sub_one_eq_mod _ 13

theorem toNat_moreFragments (w : UInt16)
    : ((w &&& 0x2000) >>> 13).toUInt8.toNat = w.toNat / 2 ^ 13 % 2 := by
  rw [UInt16.toNat_toUInt8, UInt16.toNat_shiftRight, UInt16.toNat_and]
  have hmask : w.toNat &&& (0x2000 : UInt16).toNat = w.toNat &&& 1 <<< 13 := rfl
  change (w.toNat &&& (0x2000 : UInt16).toNat) >>> 13 % 2 ^ 8 = _
  rw [hmask, Nat.shiftRight_and_distrib, Nat.shiftLeft_shiftRight, Nat.shiftRight_eq_div_pow,
    Nat.and_two_pow_sub_one_eq_mod _ 1]
  omega

theorem fragmentBits_iff (w : UInt16)
    : (w &&& 0x1fff > 0 ∨ ((w &&& 0x2000) >>> 13).toUInt8 = 1) ↔ w.toNat % 2 ^ 14 ≠ 0 := by
  rw [gt_iff_lt, UInt16.lt_iff_toNat_lt, toNat_offsetBits, ← UInt8.toNat_inj, toNat_moreFragments]
  have hzero : (0 : UInt16).toNat = 0 := rfl
  have hone : (1 : UInt8).toNat = 1 := rfl
  omega

end Bits

section Loads

variable {pkt : List UInt8} {ptr : UInt64} {n k : Nat}

theorem add_ofNat (ptr : UInt64) (n k : Nat)
    : ptr + UInt64.ofNat n + UInt64.ofNat k = ptr + UInt64.ofNat (n + k) := by
  rw [UInt64.ofNat_add, UInt64.add_assoc]

theorem toNat_sub_base (ptr : UInt64) (h : n < 2 ^ 64)
    : (ptr + UInt64.ofNat n - ptr).toNat = n := by
  have hcancel : ptr + UInt64.ofNat n - ptr = UInt64.ofNat n := by grind
  rw [hcancel, UInt64.toNat_ofNat_of_lt' h]

theorem loadBytes_at (hfits : n + k ≤ pkt.length) (hlen : pkt.length < 2 ^ 16)
    : Mbuf.loadBytes pkt ptr (ptr + UInt64.ofNat n) k = some (field pkt n k) := by
  simp only [Mbuf.loadBytes]
  rw [toNat_sub_base _ (by omega), if_pos hfits]

theorem toNat_field8 (bs : List UInt8) (n : Nat)
    : (UInt8.ofNat (field bs n 1)).toNat = field bs n 1 :=
  UInt8.toNat_ofNat_of_lt' (field_lt bs n 1)

theorem toNat_field16 (bs : List UInt8) (n : Nat)
    : (UInt16.ofNat (field bs n 2)).toNat = field bs n 2 :=
  UInt16.toNat_ofNat_of_lt' (field_lt bs n 2)

theorem toNat_field32 (bs : List UInt8) (n : Nat)
    : (UInt32.ofNat (field bs n 4)).toNat = field bs n 4 :=
  UInt32.toNat_ofNat_of_lt' (field_lt bs n 4)

end Loads

section Segments

def Outcome (decoded : Option (Option Mbuf)) (accepts : Prop) (post : Mbuf → Prop) : Prop :=
  (accepts ∧ ∃ m', decoded = some (some m') ∧ post m') ∨ (¬ accepts ∧ decoded = some none)

structure Ports (m : Mbuf) (n len : Nat) (m' : Mbuf) : Prop where
  sip : m'.sip = m.sip
  dip : m'.dip = m.dip
  proto : m'.proto = m.proto
  sport : m'.sport = UInt16.ofNat (field m.pkt n 2)
  dport : m'.dport = UInt16.ofNat (field m.pkt (n + 2) 2)
  payload : (m'.payload - m.pkt_ptr).toNat + m'.payload_len.toNat = n + len

variable {m : Mbuf} {n len : Nat}

theorem toNat_tcpHeaderLength (frame : List UInt8) (n : Nat)
    : (UInt8.ofNat (((UInt8.ofNat (field frame (n + 12) 1) &&& 0xf0) >>> 4).toNat <<< 2)).toNat
        =
      tcpHeaderLength frame n := by
  have := field_lt frame (n + 12) 1
  rw [toNat_highBits, toNat_field8, Nat.shiftLeft_eq, UInt8.toNat_ofNat', tcpHeaderLength]
  omega

theorem tcpHeaderLength_le (frame : List UInt8) (n : Nat) : tcpHeaderLength frame n ≤ 60 := by
  have := field_lt frame (n + 12) 1
  rw [tcpHeaderLength]
  omega

theorem optionLength_gt_iff {hlen : UInt8} (h : hlen.toNat ≤ 60)
    : hlen - TCP_HEADER_LEN > TCP_OPTLENMAX ↔ hlen.toNat < 20 := by
  have hmax : TCP_OPTLENMAX.toNat = 40 := rfl
  have hheader : TCP_HEADER_LEN.toNat = 20 := rfl
  rw [gt_iff_lt, UInt8.lt_iff_toNat_lt, UInt8.toNat_sub, hmax, hheader]
  omega

theorem toNat_ofNat16 (h : n < 2 ^ 16) : (UInt16.ofNat n).toNat = n := UInt16.toNat_ofNat_of_lt' h

theorem payload_end (base : UInt64) {k n l : Nat} (hk : k ≤ l) (hlen : n + l < 2 ^ 16)
    : (base + UInt64.ofNat n + UInt64.ofNat k - base).toNat
        + (UInt16.ofNat l - UInt16.ofNat k).toNat
        =
      n + l := by
  have hle : UInt16.ofNat k ≤ UInt16.ofNat l := by
    rw [UInt16.le_iff_toNat_le, toNat_ofNat16 (by omega), toNat_ofNat16 (by omega)]
    exact hk
  rw [add_ofNat, toNat_sub_base _ (by omega), UInt16.toNat_sub_of_le _ _ hle,
    toNat_ofNat16 (by omega), toNat_ofNat16 (by omega)]
  omega

theorem decodeTCPPacket_outcome (hlen : m.pkt.length < 2 ^ 16) (hfits : n + len ≤ m.pkt.length)
    : Outcome (decodeTCPPacket m (m.pkt_ptr + UInt64.ofNat n) (UInt16.ofNat len))
        (TcpSegment m.pkt n len) (Ports m n len) := by
  have hnat : (UInt16.ofNat len).toNat = len := toNat_ofNat16 (by omega)
  have hheader : TCP_HEADER_LEN.toNat = 20 := rfl
  have h2 : (2 : UInt64) = UInt64.ofNat 2 := rfl
  have h12 : (12 : UInt64) = UInt64.ofNat 12 := rfl
  have hthl := toNat_tcpHeaderLength m.pkt n
  have hle := tcpHeaderLength_le m.pkt n
  unfold decodeTCPPacket
  rw [hnat, hheader]
  split
  . next hshort =>
    apply Or.inr
    refine ⟨fun hseg => ?_, rfl⟩
    have := hseg.header
    have := hseg.fits
    omega
  . next hshort =>
    simp (disch := omega) only [Mbuf.load8, Mbuf.load16, h2, h12, add_ofNat, loadBytes_at,
      Option.map_some, Option.bind_eq_bind, Option.bind_some]
    generalize UInt8.ofNat (((UInt8.ofNat (field m.pkt (n + 12) 1) &&& 0xf0) >>> 4).toNat <<< 2)
      = thl at hthl
    have hopt := optionLength_gt_iff (hthl ▸ hle)
    split
    . next hlong =>
      apply Or.inr
      refine ⟨fun hseg => ?_, rfl⟩
      have := hseg.fits
      omega
    . next hthllen =>
      split
      . next hless =>
        rw [hopt] at hless
        apply Or.inr
        refine ⟨fun hseg => ?_, rfl⟩
        have := hseg.header
        omega
      . next hless =>
        rw [hopt] at hless
        apply Or.inl
        refine ⟨⟨by omega, by omega⟩, _, rfl, rfl, rfl, rfl, rfl, rfl, ?_⟩
        have hend := payload_end (k := thl.toNat) (n := n) (l := len) m.pkt_ptr (by omega)
          (by omega)
        rw [UInt64.ofNat_uInt8ToNat, UInt16.ofNat_uInt8ToNat] at hend
        exact hend

theorem decodeUDPPacket_outcome (hlen : m.pkt.length < 2 ^ 16) (hfits : n + len ≤ m.pkt.length)
    : Outcome (decodeUDPPacket m (m.pkt_ptr + UInt64.ofNat n) (UInt16.ofNat len))
        (UdpSegment m.pkt n len) (Ports m n len) := by
  have hnat : (UInt16.ofNat len).toNat = len := toNat_ofNat16 (by omega)
  have hheader : UDP_HEADER_LEN.toNat = 8 := rfl
  have hlen8 : UDP_HEADER_LEN.toUInt64 = UInt64.ofNat 8 := rfl
  have hlen8' : UDP_HEADER_LEN = UInt16.ofNat 8 := rfl
  have h2 : (2 : UInt64) = UInt64.ofNat 2 := rfl
  have h4 : (4 : UInt64) = UInt64.ofNat 4 := rfl
  unfold decodeUDPPacket
  split
  . next hshort =>
    rw [UInt16.lt_iff_toNat_lt, hnat, hheader] at hshort
    apply Or.inr
    refine ⟨fun hseg => ?_, rfl⟩
    have := hseg.header
    omega
  . next hshort =>
    rw [UInt16.lt_iff_toNat_lt, hnat, hheader] at hshort
    simp (disch := omega) only [Mbuf.load16, h2, h4, add_ofNat, loadBytes_at, Option.map_some,
      Option.bind_eq_bind, Option.bind_some]
    split
    . next hless =>
      rw [UInt16.lt_iff_toNat_lt, hnat, toNat_field16] at hless
      apply Or.inr
      refine ⟨fun hseg => ?_, rfl⟩
      have := hseg.length
      omega
    . split
      . next hne =>
        rw [ne_eq, ← UInt16.toNat_inj, hnat, toNat_field16] at hne
        apply Or.inr
        exact ⟨fun hseg => hne hseg.length.symm, rfl⟩
      . next heq =>
        rw [ne_eq, not_not, ← UInt16.toNat_inj, hnat, toNat_field16] at heq
        apply Or.inl
        refine ⟨⟨heq.symm, by omega⟩, _, rfl, rfl, rfl, rfl, rfl, rfl, ?_⟩
        have hend := payload_end (k := 8) (n := n) (l := len) m.pkt_ptr (by omega) (by omega)
        rw [← hlen8, ← hlen8'] at hend
        exact hend

end Segments

section Network

structure Headed (m : Mbuf) (base : UInt64) (frame : List UInt8) (n : Nat) : Prop where
  pkt : m.pkt = frame
  pkt_ptr : m.pkt_ptr = base
  network_header : m.network_header = base + UInt64.ofNat n
  sip : m.sip = UInt32.ofNat (field frame (n + 12) 4)
  dip : m.dip = UInt32.ofNat (field frame (n + 16) 4)

variable {m : Mbuf} {n : Nat}

theorem loadHlen_at (hlen : m.pkt.length < 2 ^ 16) (hfits : n + 1 ≤ m.pkt.length)
    (hheader : m.network_header = m.pkt_ptr + UInt64.ofNat n)
    : loadHlen m = some (ipHeaderLength m.pkt n) := by
  simp (disch := omega) only [loadHlen, Mbuf.load8, hheader, loadBytes_at, Option.map_some,
    Option.bind_eq_bind, Option.bind_some]
  rw [toNat_lowBits, toNat_field8, Nat.shiftLeft_eq, ipHeaderLength]

theorem loadIplen_at (hlen : m.pkt.length < 2 ^ 16) (hfits : n + 4 ≤ m.pkt.length)
    (hheader : m.network_header = m.pkt_ptr + UInt64.ofNat n)
    : loadIplen m = some (UInt16.ofNat (ipTotalLength m.pkt n)) := by
  have h2 : (2 : UInt64) = UInt64.ofNat 2 := rfl
  simp (disch := omega) only [loadIplen, Mbuf.load16, hheader, h2, add_ofNat, loadBytes_at,
    Option.map_some, ipTotalLength]

theorem decodeIPV4Packet_outcome (hlen : m.pkt.length < 2 ^ 16) (hn : n ≤ m.pkt.length)
    : Outcome
        (decodeIPV4Packet m (m.pkt_ptr + UInt64.ofNat n) (UInt16.ofNat (m.pkt.length - n)))
        (Ipv4Header m.pkt n) (Headed · m.pkt_ptr m.pkt n) := by
  have hnat : (UInt16.ofNat (m.pkt.length - n)).toNat = m.pkt.length - n := toNat_ofNat16 (by omega)
  have h12 : (12 : UInt64) = UInt64.ofNat 12 := rfl
  have h16 : (16 : UInt64) = UInt64.ofNat 16 := rfl
  have hmin : IPV4_HEADER_LEN = 20 := rfl
  unfold decodeIPV4Packet
  rw [hnat, hmin]
  split
  . next hshort =>
    apply Or.inr
    refine ⟨fun hip => ?_, rfl⟩
    have := hip.header
    have := hip.total
    have := hip.fits
    omega
  . next hshort =>
    rw [Mbuf.load8, loadBytes_at (by omega) hlen, Option.map_some, Option.bind_eq_bind,
      Option.bind_some]
    split
    . next hversion =>
      rw [ne_eq, ← UInt8.toNat_inj, toNat_highBits, toNat_field8] at hversion
      apply Or.inr
      exact ⟨fun hip => hversion hip.version, rfl⟩
    . next hversion =>
      rw [ne_eq, not_not, ← UInt8.toNat_inj, toNat_highBits, toNat_field8] at hversion
      generalize hm' : ({ m with network_header := m.pkt_ptr + UInt64.ofNat n } : Mbuf) = m'
      have hpkt : m'.pkt = m.pkt := by rw [← hm']
      have hptr : m'.pkt_ptr = m.pkt_ptr := by rw [← hm']
      have hheader : m'.network_header = m'.pkt_ptr + UInt64.ofNat n := by rw [← hm']
      rw [← hpkt] at hlen hn hnat hshort hversion
      rw [← hpkt, ← hptr]
      simp only [loadHlen_at hlen (by omega) hheader, loadIplen_at hlen (by omega) hheader,
        Option.bind_eq_bind, Option.bind_some]
      split
      . next hless =>
        apply Or.inr
        refine ⟨fun hip => ?_, rfl⟩
        have := hip.header
        omega
      . next hless =>
        have htotal := toNat_field16 m'.pkt (n + 2)
        change (UInt16.ofNat (ipTotalLength m'.pkt n)).toNat = ipTotalLength m'.pkt n at htotal
        split
        . next hshorter =>
          apply Or.inr
          refine ⟨fun hip => ?_, rfl⟩
          have := hip.total
          omega
        . next hshorter =>
          split
          . next hcut =>
            rw [UInt16.lt_iff_toNat_lt] at hcut
            apply Or.inr
            refine ⟨fun hip => ?_, rfl⟩
            have := hip.fits
            omega
          . next hcut =>
            rw [UInt16.lt_iff_toNat_lt] at hcut
            simp (disch := omega) only [Mbuf.load32, hheader, h12, h16, add_ofNat, loadBytes_at,
              Option.map_some, Option.bind_some]
            apply Or.inl
            exact ⟨⟨hversion, by omega, by omega, by omega⟩, _, rfl, rfl, rfl, rfl, rfl, rfl⟩

def Handed (decoded : Option Decoded) (accepts : Prop) (post : Mbuf → Prop) : Prop :=
  (accepts ∧ ∃ m', decoded = some (.flow m') ∧ post m')
    ∨ (¬ accepts ∧ ∃ result, decoded = some result ∧ ∀ m', result ≠ .flow m')

theorem Outcome.handed {decoded : Option (Option Mbuf)} {accepts : Prop} {post : Mbuf → Prop}
    (h : Outcome decoded accepts post) (m : Mbuf)
    : Handed (do let decoded ← decoded; some (passOn m decoded)) accepts post := by
  rcases h with ⟨haccepts, m', rfl, hpost⟩ | ⟨hreject, rfl⟩
  . apply Or.inl
    exact ⟨haccepts, m', rfl, hpost⟩
  . apply Or.inr
    exact ⟨hreject, _, rfl, by simp [passOn]⟩

theorem Handed.congr {decoded : Option Decoded} {accepts accepts' : Prop} {post post' : Mbuf → Prop}
    (h : Handed decoded accepts post) (haccepts : accepts' ↔ accepts)
    (hpost : accepts → ∀ m', post m' → post' m') : Handed decoded accepts' post' := by
  rcases h with ⟨hold, m', hdecoded, hm'⟩ | ⟨hreject, hrest⟩
  . apply Or.inl
    exact ⟨haccepts.mpr hold, m', hdecoded, hpost hold m' hm'⟩
  . apply Or.inr
    exact ⟨fun hold => hreject (haccepts.mp hold), hrest⟩

variable {base : UInt64} {frame : List UInt8}

theorem Ports.describes {m' : Mbuf} (hm : Headed m base frame n)
    (hproto : m.proto = UInt8.ofNat (ipProtocol frame n)) (hip : Ipv4Header frame n)
    (hports : Ports m (segmentAt frame n) (segmentLength frame n) m')
    : Describes m' base frame n := by
  have hpayload := hports.payload
  have htotal := hip.total
  rw [hm.pkt_ptr, segmentAt, segmentLength] at hpayload
  constructor
  . rw [hports.sip, hm.sip, toNat_field32]
  . rw [hports.dip, hm.dip, toNat_field32]
  . rw [hports.proto, hproto, ipProtocol, toNat_field8]
  . rw [hports.sport, hm.pkt, toNat_field16]
  . rw [hports.dport, hm.pkt, toNat_field16]
  . rw [hpayload]
    omega

theorem decodeDatagram_handed (base : UInt64) (hlen : frame.length < 2 ^ 16)
    (hm : Headed m base frame n)
    (hproto : m.proto = UInt8.ofNat (ipProtocol frame n)) (hip : Ipv4Header frame n)
    : Handed (decodeDatagram m) (ProtocolHeader frame n) (Describes · base frame n) := by
  have hheader := hip.header
  have htotal := hip.total
  have hfits := hip.fits
  have hpkt := hm.pkt
  have hseg : segmentAt m.pkt n + segmentLength m.pkt n ≤ m.pkt.length := by
    rw [hpkt, segmentAt, segmentLength]
    omega
  have hnet : m.network_header = m.pkt_ptr + UInt64.ofNat n := by
    rw [hm.network_header, hm.pkt_ptr]
  have hlen' : UInt16.ofInt ((UInt16.ofNat (ipTotalLength m.pkt n)).toNat - ipHeaderLength m.pkt n)
      = UInt16.ofNat (segmentLength m.pkt n) := by
    rw [hpkt, toNat_ofNat16 (by omega), ← Nat.cast_sub htotal, ofInt_natCast, segmentLength]
  have hprotocol : (UInt8.ofNat (ipProtocol frame n)).toNat = ipProtocol frame n :=
    toNat_field8 frame (n + 9)
  unfold decodeDatagram
  rw [loadHlen_at (by rwa [hpkt]) (by rw [hpkt]; omega) hnet,
    loadIplen_at (by rwa [hpkt]) (by rw [hpkt]; omega) hnet]
  simp only [Option.bind_eq_bind, Option.bind_some]
  rw [hnet, add_ofNat, hlen']
  split
  . next htcp =>
    have h6 : ipProtocol frame n = 6 := by rw [← hprotocol, ← hproto, htcp]; rfl
    apply ((decodeTCPPacket_outcome (by rwa [hpkt]) hseg).handed m).congr
    . simp [ProtocolHeader, h6, hpkt]
    . intro _ m' hports
      rw [hpkt] at hports
      exact hports.describes hm hproto hip
  . next htcp =>
    split
    . next hudp =>
      have h17 : ipProtocol frame n = 17 := by rw [← hprotocol, ← hproto, hudp]; rfl
      apply ((decodeUDPPacket_outcome (by rwa [hpkt]) hseg).handed m).congr
      . simp [ProtocolHeader, h17, hpkt]
      . intro _ m' hports
        rw [hpkt] at hports
        exact hports.describes hm hproto hip
    . next hudp =>
      apply Or.inr
      refine ⟨fun hsegment => ?_, _, rfl, by simp⟩
      rw [hproto, ← UInt8.toNat_inj, hprotocol] at htcp hudp
      rcases hsegment with ⟨h6, _⟩ | ⟨h17, _⟩
      . exact htcp h6
      . exact hudp h17

theorem decodeIPV4_cases (hlen : m.pkt.length < 2 ^ 16) (hn : n ≤ m.pkt.length)
    : (decodeIPV4 m (m.pkt_ptr + UInt64.ofNat n) (UInt16.ofNat (m.pkt.length - n)) = some .drop
        ∧ ¬ Ipv4Header m.pkt n)
      ∨ Ipv4Header m.pkt n ∧ ∃ m',
        decodeIPV4Packet m (m.pkt_ptr + UInt64.ofNat n) (UInt16.ofNat (m.pkt.length - n))
            = some (some m')
          ∧ Headed m' m.pkt_ptr m.pkt n
          ∧ ((¬ FragmentAt m.pkt n
              ∧ decodeIPV4 m (m.pkt_ptr + UInt64.ofNat n) (UInt16.ofNat (m.pkt.length - n))
                = decodeDatagram { m' with proto := UInt8.ofNat (ipProtocol m.pkt n) })
            ∨ (FragmentAt m.pkt n
              ∧ decodeIPV4 m (m.pkt_ptr + UInt64.ofNat n) (UInt16.ofNat (m.pkt.length - n))
                =
              if (m.pkt.length - n : Nat) - (ipHeaderLength m.pkt n : Int) = 0 then
                some .drop
              else
                some (.defrag { m' with
                  proto := UInt8.ofNat (ipProtocol m.pkt n)
                  defrag_id := UInt16.ofNat (field m.pkt (n + 4) 2)
                  frag_offset := (field m.pkt (n + 6) 2 % 2 ^ 13 * 8 : Nat)
                  frag_len := (m.pkt.length - n : Nat) - ipHeaderLength m.pkt n }))) := by
  have h4 : (4 : UInt64) = UInt64.ofNat 4 := rfl
  have h6 : (6 : UInt64) = UInt64.ofNat 6 := rfl
  have h9 : (9 : UInt64) = UInt64.ofNat 9 := rfl
  unfold decodeIPV4
  rcases decodeIPV4Packet_outcome hlen hn with ⟨hip, m', hdecoded, hm'⟩ | ⟨hip, hdecoded⟩
  . have hheader := hip.header
    have htotal := hip.total
    have hfits := hip.fits
    refine Or.inr ⟨hip, m', hdecoded, hm', ?_⟩
    rw [hdecoded]
    simp (disch := omega) only [Option.bind_eq_bind, Option.bind_some, Mbuf.load8, Mbuf.load16,
      loadHlen, hm'.pkt, hm'.pkt_ptr, hm'.network_header, h4, h6, h9, add_ofNat, loadBytes_at,
      Option.map_some]
    have hnat : (UInt16.ofNat (m.pkt.length - n)).toNat = m.pkt.length - n :=
      toNat_ofNat16 (by omega)
    by_cases hfrag : FragmentAt m.pkt n
    . refine Or.inr ⟨hfrag, ?_⟩
      rw [FragmentAt, ← toNat_field16, ← fragmentBits_iff] at hfrag
      rw [if_pos hfrag]
      simp only [toNat_offsetBits, toNat_lowBits, toNat_field8, toNat_field16, Nat.shiftLeft_eq, hnat,
        ipHeaderLength]
      rfl
    . refine Or.inl ⟨hfrag, ?_⟩
      rw [FragmentAt, ← toNat_field16, ← fragmentBits_iff] at hfrag
      rw [if_neg hfrag]
      rfl
  . refine Or.inl ⟨?_, hip⟩
    rw [hdecoded]
    rfl

theorem decodeIPV4_handed (hlen : m.pkt.length < 2 ^ 16) (hn : n ≤ m.pkt.length)
    (hfrag : Ipv4Header m.pkt n → ¬ FragmentAt m.pkt n)
    : Handed (decodeIPV4 m (m.pkt_ptr + UInt64.ofNat n) (UInt16.ofNat (m.pkt.length - n)))
        (Ipv4Header m.pkt n ∧ ProtocolHeader m.pkt n) (Describes · m.pkt_ptr m.pkt n) := by
  rcases decodeIPV4_cases hlen hn with
    ⟨hdrop, hip⟩ | ⟨hip, m', -, hm', ⟨-, hdecoded⟩ | ⟨hfragment, -⟩⟩
  . apply Or.inr
    rw [hdrop]
    exact ⟨fun hold => hip hold.1, _, rfl, by simp⟩
  . rw [hdecoded]
    apply (decodeDatagram_handed m.pkt_ptr hlen _ rfl hip).congr
    . simp [hip]
    . intro _ m'' hdescribes
      exact hdescribes
    . exact ⟨hm'.pkt, hm'.pkt_ptr, hm'.network_header, hm'.sip, hm'.dip⟩
  . exact absurd hfragment (hfrag hip)

end Network

section Link

variable {m : Mbuf}

theorem decodeIPV4_behind {m' : Mbuf} {n : Nat} (hpkt : m'.pkt = m.pkt)
    (hptr : m'.pkt_ptr = m.pkt_ptr) (hlen : m.pkt.length < 2 ^ 16) (hn : n ≤ m.pkt.length)
    (hfrag : Ipv4Header m.pkt n → ¬ FragmentAt m.pkt n)
    : Handed (decodeIPV4 m' (m.pkt_ptr + UInt64.ofNat n) (UInt16.ofNat (m.pkt.length - n)))
        (Ipv4Header m.pkt n ∧ ProtocolHeader m.pkt n) (Describes · m.pkt_ptr m.pkt n) := by
  rw [← hpkt] at hlen hn hfrag
  rw [← hpkt, ← hptr]
  exact decodeIPV4_handed hlen hn hfrag

theorem decodeVLAN_of_tagged {pkt : UInt64} {len : UInt16} (h : m.vlan_idx = 1)
    : decodeVLAN m pkt len = some .drop := by
  unfold decodeVLAN
  split
  . rfl
  . rw [if_pos (by rw [h]; decide)]

theorem decodeVLAN_cases (hlen : m.pkt.length < 2 ^ 16) (hn : 14 ≤ m.pkt.length)
    : (decodeVLAN m (m.pkt_ptr + UInt64.ofNat 14) (UInt16.ofNat (m.pkt.length - 14)) = some .drop
        ∧ ¬ (m.vlan_idx = 0 ∧ 18 ≤ m.pkt.length ∧ field m.pkt 16 2 = 0x0800))
      ∨ (decodeVLAN m (m.pkt_ptr + UInt64.ofNat 14) (UInt16.ofNat (m.pkt.length - 14))
          = decodeIPV4 { m with vlanh := m.pkt_ptr + UInt64.ofNat 14, vlan_idx := 1 }
              (m.pkt_ptr + UInt64.ofNat 18) (UInt16.ofNat (m.pkt.length - 18))
        ∧ 18 ≤ m.pkt.length ∧ field m.pkt 16 2 = 0x0800) := by
  have hnat : (UInt16.ofNat (m.pkt.length - 14)).toNat = m.pkt.length - 14 :=
    toNat_ofNat16 (by omega)
  have hheader : VLAN_HEADER_LEN.toNat = 4 := rfl
  have hlen4 : VLAN_HEADER_LEN.toUInt64 = UInt64.ofNat 4 := rfl
  have hlen4' : VLAN_HEADER_LEN = UInt16.ofNat 4 := rfl
  have h2 : (2 : UInt64) = UInt64.ofNat 2 := rfl
  unfold decodeVLAN
  split
  . next hshort =>
    rw [UInt16.lt_iff_toNat_lt, hnat, hheader] at hshort
    exact Or.inl ⟨rfl, fun hold => by omega⟩
  . next hshort =>
    rw [UInt16.lt_iff_toNat_lt, hnat, hheader] at hshort
    split
    . next htagged =>
      refine Or.inl ⟨rfl, fun hold => ?_⟩
      rw [hold.1] at htagged
      exact absurd htagged (by decide)
    . simp (disch := omega) only [Mbuf.load16, h2, add_ofNat, loadBytes_at, Option.map_some,
        Option.bind_eq_bind, Option.bind_some]
      split
      . next hip =>
        rw [← UInt16.toNat_inj, toNat_field16] at hip
        rw [hlen4, hlen4', add_ofNat, ← UInt16.ofNat_sub (by omega), Nat.sub_sub]
        exact Or.inr ⟨rfl, by omega, hip⟩
      . next hip =>
        rw [← UInt16.toNat_inj, toNat_field16] at hip
        refine Or.inl ⟨?_, fun hold => hip hold.2.2⟩
        split
        . exact decodeVLAN_of_tagged rfl
        . rfl

theorem decodeVLAN_handed (hlen : m.pkt.length < 2 ^ 16) (hn : 14 ≤ m.pkt.length)
    (hidx : m.vlan_idx = 0)
    (hfrag : 18 ≤ m.pkt.length → field m.pkt 16 2 = 0x0800 → Ipv4Header m.pkt 18
      → ¬ FragmentAt m.pkt 18)
    : Handed
        (decodeVLAN m (m.pkt_ptr + UInt64.ofNat 14) (UInt16.ofNat (m.pkt.length - 14)))
        (18 ≤ m.pkt.length ∧ field m.pkt 16 2 = 0x0800 ∧ Ipv4Header m.pkt 18 ∧ ProtocolHeader m.pkt 18)
        (Describes · m.pkt_ptr m.pkt 18) := by
  rcases decodeVLAN_cases hlen hn with ⟨hdrop, hnot⟩ | ⟨hdecoded, hfits, hip⟩
  . rw [hdrop]
    apply Or.inr
    exact ⟨fun hold => hnot ⟨hidx, hold.1, hold.2.1⟩, _, rfl, by simp⟩
  . rw [hdecoded]
    apply (decodeIPV4_behind _ _ hlen hfits (hfrag hfits hip)).congr
    . exact ⟨fun hold => hold.2.2, fun hold => ⟨hfits, hip, hold⟩⟩
    . intro _ m' hdescribes
      exact hdescribes
    . rfl
    . rfl

theorem loadBytes_start {pkt : List UInt8} {ptr : UInt64} {k : Nat} (hfits : k ≤ pkt.length)
    : Mbuf.loadBytes pkt ptr ptr k = some (field pkt 0 k) := by
  simp only [Mbuf.loadBytes, UInt64.sub_self, UInt64.toNat_zero, Nat.zero_add]
  rw [if_pos hfits]

theorem accepted_iff (frame : List UInt8)
    : Accepted frame
        ↔
      14 ≤ frame.length ∧ field frame 0 1 = 0x88 ∧
        ((field frame 12 2 = 0x0800 ∧ Ipv4Header frame 14 ∧ ProtocolHeader frame 14)
          ∨ ((field frame 12 2 = 0x8100 ∨ field frame 12 2 = 0x9100) ∧ 18 ≤ frame.length
            ∧ field frame 16 2 = 0x0800 ∧ Ipv4Header frame 18 ∧ ProtocolHeader frame 18)) := by
  constructor
  . intro h
    rcases h with ⟨n, hat, hrest⟩
    cases hat with
    | untagged hfits hdst htype => exact ⟨hfits, hdst, Or.inl ⟨htype, hrest⟩⟩
    | tagged hfits hdst htype hinner =>
      exact ⟨by omega, hdst, Or.inr ⟨htype, hfits, hinner, hrest⟩⟩
  . intro h
    rcases h with ⟨hfits, hdst, ⟨htype, hrest⟩ | ⟨htype, hfits, hinner, hrest⟩⟩
    . exact ⟨14, IpAt.untagged hfits hdst htype, hrest⟩
    . exact ⟨18, IpAt.tagged hfits hdst htype hinner, hrest⟩

theorem decodeEthernet_cases (hlen : m.pkt.length < 2 ^ 16)
    : (decodeEthernet m m.pkt_ptr (UInt16.ofNat m.pkt.length) = some .drop
        ∧ ¬ (14 ≤ m.pkt.length ∧ field m.pkt 0 1 = 0x88 ∧ (field m.pkt 12 2 = 0x0800
          ∨ field m.pkt 12 2 = 0x8100 ∨ field m.pkt 12 2 = 0x9100)))
      ∨ 14 ≤ m.pkt.length ∧ field m.pkt 0 1 = 0x88 ∧ ∃ eth_dst eth_src,
        (field m.pkt 12 2 = 0x0800
          ∧ decodeEthernet m m.pkt_ptr (UInt16.ofNat m.pkt.length)
            = decodeIPV4 { m with ethh := m.pkt_ptr, eth_dst, eth_src }
                (m.pkt_ptr + UInt64.ofNat 14) (UInt16.ofNat (m.pkt.length - 14)))
        ∨ ((field m.pkt 12 2 = 0x8100 ∨ field m.pkt 12 2 = 0x9100)
          ∧ decodeEthernet m m.pkt_ptr (UInt16.ofNat m.pkt.length)
            = decodeVLAN { m with ethh := m.pkt_ptr, eth_dst, eth_src }
                (m.pkt_ptr + UInt64.ofNat 14) (UInt16.ofNat (m.pkt.length - 14))) := by
  have hnat : (UInt16.ofNat m.pkt.length).toNat = m.pkt.length := toNat_ofNat16 hlen
  have hheader : ETHERNET_HEADER_LEN.toNat = 14 := rfl
  have hlen14 : ETHERNET_HEADER_LEN.toUInt64 = UInt64.ofNat 14 := rfl
  have hlen14' : ETHERNET_HEADER_LEN = UInt16.ofNat 14 := rfl
  have h6 : (6 : UInt64) = UInt64.ofNat 6 := rfl
  have h12 : (12 : UInt64) = UInt64.ofNat 12 := rfl
  unfold decodeEthernet
  split
  . next hshort =>
    rw [UInt16.lt_iff_toNat_lt, hnat, hheader] at hshort
    exact Or.inl ⟨rfl, fun hold => by omega⟩
  . next hshort =>
    rw [UInt16.lt_iff_toNat_lt, hnat, hheader] at hshort
    simp (disch := omega) only [Mbuf.load8, Mbuf.load16, Mbuf.loadMac, h6, h12, loadBytes_at,
      loadBytes_start, Option.map_some, Option.bind_eq_bind, Option.bind_some]
    split
    . next hdst =>
      rw [ne_eq, ← UInt8.toNat_inj, toNat_field8] at hdst
      exact Or.inl ⟨rfl, fun hold => hdst hold.2.1⟩
    . next hdst =>
      rw [ne_eq, not_not, ← UInt8.toNat_inj, toNat_field8] at hdst
      rw [hlen14, hlen14', ← UInt16.ofNat_sub (by omega)]
      split
      . next hip =>
        rw [← UInt16.toNat_inj, toNat_field16] at hip
        exact Or.inr ⟨by omega, hdst, _, _, Or.inl ⟨hip, rfl⟩⟩
      . next hip =>
        rw [← UInt16.toNat_inj, toNat_field16] at hip
        split
        . next hvlan =>
          rw [← UInt16.toNat_inj, ← UInt16.toNat_inj, toNat_field16] at hvlan
          exact Or.inr ⟨by omega, hdst, _, _, Or.inr ⟨hvlan, rfl⟩⟩
        . next hvlan =>
          rw [← UInt16.toNat_inj, ← UInt16.toNat_inj, toNat_field16] at hvlan
          refine Or.inl ⟨rfl, ?_⟩
          rintro ⟨-, -, htype | htype⟩
          . exact hip htype
          . exact hvlan htype

theorem decodeEthernet_handed (hlen : m.pkt.length < 2 ^ 16) (hidx : m.vlan_idx = 0)
    (hfrag : ¬ Fragmented m.pkt)
    : Handed (decodeEthernet m m.pkt_ptr (UInt16.ofNat m.pkt.length)) (Accepted m.pkt)
        fun m' => ∃ n, IpAt m.pkt n ∧ Describes m' m.pkt_ptr m.pkt n := by
  rcases decodeEthernet_cases hlen with
    ⟨hdrop, hnot⟩ | ⟨hfits, hdst, eth_dst, eth_src, ⟨hip, hdecoded⟩ | ⟨hvlan, hdecoded⟩⟩
  . rw [hdrop]
    apply Or.inr
    refine ⟨fun hold => ?_, _, rfl, by simp⟩
    rcases (accepted_iff _).mp hold with ⟨hfits, hdst, ⟨htype, -⟩ | ⟨htype, -⟩⟩
    . exact hnot ⟨hfits, hdst, Or.inl htype⟩
    . exact hnot ⟨hfits, hdst, Or.inr htype⟩
  . rw [hdecoded]
    have hat := IpAt.untagged hfits hdst hip
    apply (decodeIPV4_behind _ _ hlen hfits (fun h h' => hfrag ⟨14, hat, h, h'⟩)).congr
    . refine ⟨fun hold => ?_, fun hold => ⟨14, hat, hold⟩⟩
      rcases ((accepted_iff _).mp hold).2.2 with ⟨_, hrest⟩ | ⟨htagged, _⟩
      . exact hrest
      . omega
    . intro _ m' hdescribes
      exact ⟨14, hat, hdescribes⟩
    . rfl
    . rfl
  . rw [hdecoded]
    have hat (hfits : 18 ≤ m.pkt.length) (hinner : field m.pkt 16 2 = 0x0800) : IpAt m.pkt 18 :=
      IpAt.tagged hfits hdst hvlan hinner
    apply (decodeVLAN_handed _ _ _ _).congr
    . refine ⟨fun hold => ?_, fun hold => ⟨18, hat hold.1 hold.2.1, hold.2.2⟩⟩
      rcases ((accepted_iff _).mp hold).2.2 with ⟨htype, _⟩ | ⟨_, hrest⟩
      . omega
      . exact hrest
    . intro hold m' hdescribes
      exact ⟨18, hat hold.1 hold.2.1, hdescribes⟩
    . exact hlen
    . exact hfits
    . exact hidx
    . intro hfits hinner hheader' hfragment
      exact hfrag ⟨18, hat hfits hinner, hheader', hfragment⟩

end Link

/-- No byte outside of the frame is read, and `FlowHandlePacket` is called for the grammar only. -/
theorem decode_grammar {frame : List UInt8} (pkt_virt : UInt64) (input_port : UInt32)
    (hlen : frame.length < 2 ^ 16) (hfrag : ¬ Fragmented frame)
    : ∃ decoded, decode (octRxProcessWork frame pkt_virt input_port) = some decoded
      ∧ ((∃ m, decoded = .flow m) ↔ Accepted frame)
      ∧ ∀ m, decoded = .flow m → ∃ n, IpAt frame n ∧ Describes m pkt_virt frame n := by
  have hhanded := decodeEthernet_handed (m := octRxProcessWork frame pkt_virt input_port) hlen rfl
    hfrag
  rcases hhanded with ⟨haccepted, m', hdecoded, hm'⟩ | ⟨hreject, decoded, hdecoded, hflow⟩
  . refine ⟨.flow m', hdecoded, ⟨fun _ => haccepted, fun _ => ⟨m', rfl⟩⟩, ?_⟩
    intro m hm
    cases hm
    exact hm'
  . refine ⟨decoded, hdecoded, ⟨fun h => ?_, fun h => absurd h hreject⟩, ?_⟩
    . rcases h with ⟨m, hm⟩
      exact absurd hm (hflow m)
    . intro m hm
      exact absurd hm (hflow m)

def udpFrame : List UInt8 :=
  [0x88, 0, 0, 0, 0, 1, 0x88, 0, 0, 0, 0, 2, 0x08, 0x00,
    0x45, 0, 0, 28, 0, 1, 0x40, 0, 64, 17, 0, 0, 10, 0, 0, 1, 10, 0, 0, 2,
    0x10, 0, 0x20, 0, 0, 8, 0, 0]

theorem decode_grammar_udpFrame
    : udpFrame.length < 2 ^ 16 ∧ ¬ Fragmented udpFrame
      ∧ ∃ decoded, decode (octRxProcessWork udpFrame 0x1000 0) = some decoded
        ∧ ((∃ m, decoded = .flow m) ↔ Accepted udpFrame)
        ∧ ∀ m, decoded = .flow m → ∃ n, IpAt udpFrame n ∧ Describes m 0x1000 udpFrame n := by
  have hlen : udpFrame.length < 2 ^ 16 := by decide
  have hfrag : ¬ Fragmented udpFrame := by
    rintro ⟨n, hat, _, hfragment⟩
    cases hat with
    | untagged => exact hfragment (by decide)
    | tagged _ _ htype => exact absurd htype (by decide)
  exact ⟨hlen, hfrag, decode_grammar 0x1000 0 hlen hfrag⟩

end SecFw.Decode
