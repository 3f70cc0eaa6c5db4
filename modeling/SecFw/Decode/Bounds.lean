import SecFw.Decode.Grammar

/-!
This module contains what holds of the decoders for every frame, also for a fragment: nothing
outside of the frame is read, and the descriptor stays with its buffer and its port.
-/

namespace SecFw.Decode

open Bytes

section Bounds

variable {m : Mbuf} {n : Nat}

theorem Handed.exists {decoded : Option Decoded} {accepts : Prop} {post : Mbuf → Prop}
    (h : Handed decoded accepts post) : ∃ result, decoded = some result := by
  rcases h with ⟨_, m', hdecoded, _⟩ | ⟨_, result, hdecoded, _⟩
  . exact ⟨_, hdecoded⟩
  . exact ⟨_, hdecoded⟩

theorem decodeIPV4_exists (hlen : m.pkt.length < 2 ^ 16) (hn : n ≤ m.pkt.length)
    : ∃ decoded, decodeIPV4 m (m.pkt_ptr + UInt64.ofNat n) (UInt16.ofNat (m.pkt.length - n))
        = some decoded := by
  rcases decodeIPV4_cases hlen hn with ⟨hdrop, -⟩ | ⟨hip, m', -, -, ⟨hwhole, -⟩ | ⟨-, hdecoded⟩⟩
  . exact ⟨_, hdrop⟩
  . exact (decodeIPV4_handed hlen hn fun _ => hwhole).exists
  . rw [hdecoded]
    split
    . exact ⟨_, rfl⟩
    . exact ⟨_, rfl⟩

theorem decodeVLAN_exists (hlen : m.pkt.length < 2 ^ 16) (hn : 14 ≤ m.pkt.length)
    : ∃ decoded, decodeVLAN m (m.pkt_ptr + UInt64.ofNat 14) (UInt16.ofNat (m.pkt.length - 14))
        = some decoded := by
  rcases decodeVLAN_cases hlen hn with ⟨hdrop, -⟩ | ⟨hdecoded, hfits, -⟩
  . exact ⟨_, hdrop⟩
  . rw [hdecoded]
    apply decodeIPV4_exists
    . exact hlen
    . exact hfits

theorem decodeEthernet_exists (hlen : m.pkt.length < 2 ^ 16)
    : ∃ decoded, decodeEthernet m m.pkt_ptr (UInt16.ofNat m.pkt.length) = some decoded := by
  rcases decodeEthernet_cases hlen with
    ⟨hdrop, -⟩ | ⟨hfits, -, eth_dst, eth_src, ⟨-, hdecoded⟩ | ⟨-, hdecoded⟩⟩
  . exact ⟨_, hdrop⟩
  . rw [hdecoded]
    apply decodeIPV4_exists
    . exact hlen
    . exact hfits
  . rw [hdecoded]
    apply decodeVLAN_exists
    . exact hlen
    . exact hfits

theorem decode_octRxProcessWork {frame : List UInt8} (pkt_virt : UInt64) (input_port : UInt32)
    (hlen : frame.length < 2 ^ 16)
    : ∃ decoded, decode (octRxProcessWork frame pkt_virt input_port) = some decoded :=
  decodeEthernet_exists hlen

end Bounds

section Source

structure SameSource (m m' : Mbuf) : Prop where
  pkt_space : m'.pkt_space = m.pkt_space
  input_port : m'.input_port = m.input_port

def Decoded.Keeps (m : Mbuf) : Decoded → Prop
  | .drop => True
  | .destroyed m' => SameSource m m'
  | .defrag m' => SameSource m m'
  | .flow m' => SameSource m m'

variable {m m' : Mbuf} {pkt : UInt64} {len : UInt16} {decoded : Decoded}

theorem Decoded.Keeps.trans (h : decoded.Keeps m') (hm : SameSource m m') : decoded.Keeps m := by
  cases decoded with
  | drop => trivial
  | _ => exact ⟨h.1.trans hm.1, h.2.trans hm.2⟩

theorem decodeTCPPacket_source (h : decodeTCPPacket m pkt len = some (some m'))
    : SameSource m m' := by
  unfold decodeTCPPacket at h
  split at h
  . cases h
  . simp only [Option.bind_eq_bind, Option.bind_eq_some_iff] at h
    rcases h with ⟨_, _, h⟩
    split at h
    . cases h
    . split at h
      . cases h
      . simp only [Option.bind_eq_some_iff] at h
        rcases h with ⟨_, _, _, _, h⟩
        cases h
        exact ⟨rfl, rfl⟩

theorem decodeUDPPacket_source (h : decodeUDPPacket m pkt len = some (some m'))
    : SameSource m m' := by
  unfold decodeUDPPacket at h
  split at h
  . cases h
  . simp only [Option.bind_eq_bind, Option.bind_eq_some_iff] at h
    rcases h with ⟨_, _, h⟩
    split at h
    . cases h
    . split at h
      . cases h
      . simp only [Option.bind_eq_some_iff] at h
        rcases h with ⟨_, _, _, _, h⟩
        cases h
        exact ⟨rfl, rfl⟩

theorem decodeIPV4Packet_eq (h : decodeIPV4Packet m pkt len = some (some m'))
    : m' = { m with network_header := pkt, sip := m'.sip, dip := m'.dip } := by
  unfold decodeIPV4Packet at h
  split at h
  . cases h
  . simp only [Option.bind_eq_bind, Option.bind_eq_some_iff] at h
    rcases h with ⟨_, _, h⟩
    split at h
    . cases h
    . simp only [Option.bind_eq_some_iff] at h
      rcases h with ⟨_, _, h⟩
      split at h
      . cases h
      . simp only [Option.bind_eq_some_iff] at h
        rcases h with ⟨_, _, h⟩
        split at h
        . cases h
        . split at h
          . cases h
          . simp only [Option.bind_eq_some_iff] at h
            rcases h with ⟨_, _, _, _, h⟩
            cases h
            rfl

theorem decodeIPV4Packet_source (h : decodeIPV4Packet m pkt len = some (some m'))
    : SameSource m m' := by
  rw [decodeIPV4Packet_eq h]
  exact ⟨rfl, rfl⟩

theorem passOn_keeps {result : Option Mbuf} (h : ∀ m', result = some m' → SameSource m m')
    : (passOn m result).Keeps m := by
  cases result with
  | none => exact ⟨rfl, rfl⟩
  | some m' => exact h m' rfl

theorem decodeDatagram_keeps (h : decodeDatagram m = some decoded) : decoded.Keeps m := by
  unfold decodeDatagram at h
  split at h
  . simp only [Option.bind_eq_bind, Option.bind_eq_some_iff] at h
    rcases h with ⟨_, _, _, _, result, hresult, h⟩
    cases h
    apply passOn_keeps
    intro m' hm'
    rw [hm'] at hresult
    exact decodeTCPPacket_source hresult
  . split at h
    . simp only [Option.bind_eq_bind, Option.bind_eq_some_iff] at h
      rcases h with ⟨_, _, _, _, result, hresult, h⟩
      cases h
      apply passOn_keeps
      intro m' hm'
      rw [hm'] at hresult
      exact decodeUDPPacket_source hresult
    . cases h
      exact ⟨rfl, rfl⟩

theorem decodeIPV4_keeps (h : decodeIPV4 m pkt len = some decoded) : decoded.Keeps m := by
  unfold decodeIPV4 at h
  simp only [Option.bind_eq_bind, Option.bind_eq_some_iff] at h
  rcases h with ⟨result, hresult, h⟩
  cases result with
  | none =>
    cases h
    trivial
  | some m' =>
    have hsource := decodeIPV4Packet_source hresult
    simp only [Option.bind_eq_some_iff] at h
    rcases h with ⟨_, _, _, _, h⟩
    split at h
    . simp only [Option.bind_eq_some_iff] at h
      rcases h with ⟨_, _, _, _, h⟩
      split at h
      . cases h
        trivial
      . cases h
        exact ⟨hsource.1, hsource.2⟩
    . exact (decodeDatagram_keeps h).trans ⟨hsource.1, hsource.2⟩

theorem decodeVLAN_keeps (h : decodeVLAN m pkt len = some decoded) : decoded.Keeps m := by
  unfold decodeVLAN at h
  split at h
  . cases h
    trivial
  . split at h
    . cases h
      trivial
    . simp only [Option.bind_eq_bind, Option.bind_eq_some_iff] at h
      rcases h with ⟨_, _, h⟩
      split at h
      . exact (decodeIPV4_keeps h).trans ⟨rfl, rfl⟩
      . split at h
        . rw [decodeVLAN_of_tagged rfl] at h
          cases h
          trivial
        . cases h
          trivial

theorem decode_keeps (h : decode m = some decoded) : decoded.Keeps m := by
  unfold decode decodeEthernet at h
  split at h
  . cases h
    trivial
  . simp only [Option.bind_eq_bind, Option.bind_eq_some_iff] at h
    rcases h with ⟨_, _, h⟩
    split at h
    . cases h
      trivial
    . simp only [Option.bind_eq_some_iff] at h
      rcases h with ⟨_, _, _, _, _, _, h⟩
      split at h
      . exact (decodeIPV4_keeps h).trans ⟨rfl, rfl⟩
      . split at h
        . exact (decodeVLAN_keeps h).trans ⟨rfl, rfl⟩
        . cases h
          trivial

end Source

end SecFw.Decode
