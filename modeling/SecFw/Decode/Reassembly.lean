import SecFw.Decode.Defrag
import SecFw.Segments.Basic

/-!
This module contains the reassembly of a whole datagram. It characterizes the orders of arrival in
which the fragments of a datagram are put together again.
-/

namespace SecFw.Decode

open Segment (Ordered Before Proper)

instance : Segment Mbuf where
  start m := m.frag_offset
  stop m := m.frag_offset + m.frag_len

def ipPayload (p : Mbuf) : List UInt8 :=
  (p.pkt.drop (p.networkOffset + p.IPV4_GET_HLEN)).take
    (p.IPV4_GET_IPLEN.toNat - p.IPV4_GET_HLEN)

structure IsFragment (m : Mbuf) (offset : Nat) (data : List UInt8) (more : Bool) : Prop where
  frag_offset : m.frag_offset = offset
  frag_len : m.frag_len = data.length
  mf : m.IPV4_GET_MF = if more then 1 else 0
  pkt_eq : ∃ hdr, m.pkt = hdr ++ data ∧ hdr.length = m.networkOffset + m.IPV4_GET_HLEN
  pkt_totallen : m.pkt_totallen.toNat = m.pkt.length
  hlen : 20 ≤ m.IPV4_GET_HLEN
  network_header : m.network_header ≠ 0

inductive Fragments : Nat → List UInt8 → List Mbuf → Prop where
  | last {offset : Nat} {data : List UInt8} {m : Mbuf} (h : IsFragment m offset data false)
      (hne : data ≠ []) : Fragments offset data [m]
  | cons {offset : Nat} {data payload : List UInt8} {m : Mbuf} {ms : List Mbuf}
      (h : IsFragment m offset data true) (hne : data ≠ []) (hmod : data.length % 8 = 0)
      (hms : Fragments (offset + data.length) payload ms)
    : Fragments offset (data ++ payload) (m :: ms)

structure Datagram where
  payload : List UInt8
  fragments : List Mbuf
  split : Fragments 0 payload fragments
  fits : ∀ m ∈ fragments.head?, m.networkOffset + m.IPV4_GET_HLEN + payload.length
    ≤ (MEM_POOL_LARGE_BUFFER_SIZE - MEM_POOL_SLICE_CTRL_SIZE).toNat

/--
All calls but the last keep their fragment and return nothing, the last one returns a packet with
the payload.
-/
def Reassembles (alloc : Alloc) (payload : List UInt8) : Fcb → List Mbuf → Prop
  | _, [] => False
  | fcb, [m] =>
    let p := fragDefragProcess alloc m fcb
    p.destroyed = false ∧ ∃ r, p.ret = some r ∧ ipPayload r = payload
  | fcb, m :: ms =>
    let p := fragDefragProcess alloc m fcb
    p.destroyed = false ∧ p.ret = none ∧ Reassembles alloc payload p.fcb ms

def Fits (seen : List Mbuf) (m : Mbuf) : Prop :=
  (∃ q ∈ seen, m.frag_offset < q.frag_offset) →
    (∀ q ∈ seen, q.frag_offset < m.frag_offset → q.frag_len < m.frag_offset)
      ∧ ∃ next ∈ seen, m.frag_offset < next.frag_offset
        ∧ (∀ q ∈ seen, m.frag_offset < q.frag_offset → next.frag_offset ≤ q.frag_offset)
        ∧ m.frag_offset ≤ next.frag_len

instance (seen : List Mbuf) (m : Mbuf) : Decidable (Fits seen m) :=
  inferInstanceAs (Decidable (_ → _))

/-- Every fragment fits when it arrives. -/
def Orderly : List Mbuf → List Mbuf → Prop
  | _, [] => True
  | seen, m :: ms => Fits seen m ∧ Orderly (m :: seen) ms

section Fragments

variable {offset : Nat} {payload : List UInt8} {ms : List Mbuf} {m : Mbuf}

theorem IsFragment.proper {data : List UInt8} {more : Bool} (h : IsFragment m offset data more)
    (hne : data ≠ []) : Proper m := by
  have hpos := List.length_pos_iff.mpr hne
  have := h.frag_len
  simp only [Proper, Segment.start, Segment.stop]
  omega

theorem IsFragment.fragBytes_eq {data : List UInt8} {more : Bool}
    (h : IsFragment m offset data more) : fragBytes m = data := by
  rcases h.pkt_eq with ⟨hdr, hpkt, -⟩
  have htotal := h.pkt_totallen
  rw [hpkt, List.length_append] at htotal
  rw [fragBytes, h.frag_len, Int.toNat_natCast, htotal, hpkt, Nat.add_sub_cancel,
    List.drop_left, List.take_length]

theorem Fragments.bounds (h : Fragments offset payload ms)
    : ∀ m ∈ ms, (offset : Int) ≤ m.frag_offset
        ∧ m.frag_offset + m.frag_len ≤ offset + payload.length := by
  induction h with
  | last h hne =>
    have := h.frag_offset
    have := h.frag_len
    simp only [List.forall_mem_singleton]
    omega
  | cons h hne hmod hms ih =>
    have := h.frag_offset
    have := h.frag_len
    rw [List.forall_mem_cons, List.length_append]
    refine ⟨by omega, ?_⟩
    intro m hm
    have := ih m hm
    omega

theorem Fragments.ordered (h : Fragments offset payload ms) : Ordered ms := by
  induction h with
  | last h hne => exact Ordered.cons_iff.mpr ⟨h.proper hne, by simp, Ordered.nil⟩
  | cons h hne hmod hms ih =>
    refine Ordered.cons_iff.mpr ⟨h.proper hne, ?_, ih⟩
    intro y hy
    have := (hms.bounds y hy).1
    have := h.frag_offset
    have := h.frag_len
    simp only [Before, Segment.start, Segment.stop]
    omega

theorem Fragments.sum_frag_len (h : Fragments offset payload ms)
    : (ms.map Mbuf.frag_len).sum = payload.length := by
  induction h with
  | last h hne => simpa using h.frag_len
  | cons h hne hmod hms ih => simp [ih, h.frag_len]

theorem Fragments.payload_ne_nil (h : Fragments offset payload ms) : payload ≠ [] := by
  cases h with
  | last h hne => exact hne
  | cons h hne hmod hms => exact List.append_ne_nil_of_left_ne_nil hne _

theorem Fragments.mf_eq_zero_iff (h : Fragments offset payload ms)
    : ∀ m ∈ ms, m.IPV4_GET_MF = 0 ↔ m.frag_offset + m.frag_len = offset + payload.length := by
  induction h with
  | last h hne =>
    have := h.frag_offset
    have := h.frag_len
    have hmf := h.mf
    rw [List.forall_mem_singleton, hmf]
    simp only [Bool.false_eq_true, ↓reduceIte, true_iff]
    omega
  | cons h hne hmod hms ih =>
    have := h.frag_offset
    have := h.frag_len
    have hmf := h.mf
    rw [List.forall_mem_cons, List.length_append]
    constructor
    . have hpos := List.length_pos_iff.mpr hms.payload_ne_nil
      rw [hmf]
      simp only [↓reduceIte]
      refine iff_of_false (by decide) ?_
      omega
    . intro m hm
      rw [ih m hm]
      push_cast
      omega

theorem Fragments.exists_first (h : Fragments offset payload ms)
    : ∃ m ∈ ms, m.frag_offset = offset := by
  cases h with
  | last h hne => exact ⟨_, by simp, h.frag_offset⟩
  | cons h hne hmod hms => exact ⟨_, by simp, h.frag_offset⟩

theorem Fragments.exists_last (h : Fragments offset payload ms)
    : ∃ m ∈ ms, m.IPV4_GET_MF = 0 := by
  induction h with
  | last h hne => exact ⟨_, by simp, h.mf⟩
  | cons h hne hmod hms ih =>
    rcases ih with ⟨m, hm, hmf⟩
    exact ⟨m, by simp [hm], hmf⟩

end Fragments

section Packet

variable {offset : Nat} {payload : List UInt8} {ms : List Mbuf}

theorem toNat_add_ofNat {total : UInt16} {n k : Nat} (htotal : total.toNat = n)
    (h : n + k < 2 ^ 16) : (total + UInt16.ofNat k).toNat = n + k := by
  rw [UInt16.toNat_add, UInt16.toNat_ofNat', htotal]
  omega

theorem appendFragment_eq {m r : Mbuf} {data : List UInt8} {more : Bool}
    (h : IsFragment m offset data more) (htotal : r.pkt_totallen.toNat = r.pkt.length)
    : appendFragment r m
        =
      { r with
        pkt := r.pkt ++ data
        pkt_totallen := r.pkt_totallen + UInt16.ofNat data.length } := by
  simp only [appendFragment, appendPacket, h.fragBytes_eq, h.frag_len, htotal, memcpyAt_end,
    ofInt_natCast]

theorem Fragments.foldl_appendFragment (h : Fragments offset payload ms) (r : Mbuf)
    (htotal : r.pkt_totallen.toNat = r.pkt.length) (hfits : r.pkt.length + payload.length < 2 ^ 16)
    : ms.foldl appendFragment r
        =
      { r with
        pkt := r.pkt ++ payload
        pkt_totallen := r.pkt_totallen + UInt16.ofNat payload.length } := by
  induction h generalizing r with
  | last h hne => rw [List.foldl_cons, List.foldl_nil, appendFragment_eq h htotal]
  | cons h hne hmod hms ih =>
    rw [List.length_append] at hfits
    rw [List.foldl_cons, appendFragment_eq h htotal, ih]
    . simp only [List.append_assoc, List.length_append, UInt16.ofNat_add, add_assoc]
    . rw [List.length_append]
      apply toNat_add_ofNat htotal
      omega
    . simp only [List.length_append]
      omega

theorem fragDefragSetup_spec {alloc : Alloc} {head : Mbuf} {fcb : Fcb} {len : Nat}
    (hmbuf : alloc.mbuf = true) (hlarge : alloc.large ≠ 0) (hnetwork : head.network_header ≠ 0)
    (htotal : fcb.total_fraglen = len)
    (hfits : head.networkOffset + head.IPV4_GET_HLEN + len
      ≤ (MEM_POOL_LARGE_BUFFER_SIZE - MEM_POOL_SLICE_CTRL_SIZE).toNat)
    : ∃ r, fragDefragSetup alloc head fcb = some r ∧ r.pkt = [] ∧ r.pkt_totallen = 0
        ∧ r.networkOffset = head.networkOffset := by
  have hoffset : (head.network_header - head.pkt_ptr).toNat = head.networkOffset := rfl
  have hlimit : (MEM_POOL_LARGE_BUFFER_SIZE - MEM_POOL_SLICE_CTRL_SIZE).toNat = 8168 := by decide
  have htotal : (UInt64.ofInt fcb.total_fraglen).toNat = len % 2 ^ 64 := by
    rw [htotal, UInt64.ofInt, UInt64.toNat_ofNat']
    omega
  have hsize : ¬ (UInt64.ofInt fcb.total_fraglen + (head.network_header - head.pkt_ptr
      + UInt64.ofNat head.IPV4_GET_HLEN)).toUInt32
        > MEM_POOL_LARGE_BUFFER_SIZE - MEM_POOL_SLICE_CTRL_SIZE := by
    rw [gt_iff_lt, UInt32.lt_iff_toNat_lt, UInt64.toNat_toUInt32, UInt64.toNat_add,
      UInt64.toNat_add, UInt64.toNat_ofNat', hoffset, htotal]
    omega
  simp only [fragDefragSetup, mem8kAlloc, if_neg hsize, hmbuf, hlarge, not_true_eq_false,
    ↓reduceIte]
  refine ⟨_, rfl, rfl, rfl, ?_⟩
  have hcancel (a b : UInt64) : a + b - a = b := by grind
  simp only [packetHeaderPtrAdjust, Mbuf.networkOffset, hnetwork, ne_eq, not_false_eq_true,
    ↓reduceIte, hcancel]

structure HeaderWrite (r r' : Mbuf) : Prop where
  networkOffset_eq : r'.networkOffset = r.networkOffset
  length_eq : r'.pkt.length = r.pkt.length
  hlen_eq : r'.IPV4_GET_HLEN = r.IPV4_GET_HLEN
  drop_eq : r'.pkt.drop (r.networkOffset + 20) = r.pkt.drop (r.networkOffset + 20)

theorem HeaderWrite.trans {r r' r'' : Mbuf} (h : HeaderWrite r r') (h' : HeaderWrite r' r'')
    : HeaderWrite r r'' := by
  have hdrop := h'.drop_eq
  rw [h.networkOffset_eq] at hdrop
  exact ⟨h'.networkOffset_eq.trans h.networkOffset_eq, h'.length_eq.trans h.length_eq,
    h'.hlen_eq.trans h.hlen_eq, hdrop.trans h.drop_eq⟩

theorem headerWrite_setIpHalf {r : Mbuf} {k : Nat} (value : UInt16)
    (hr : r.networkOffset + 20 ≤ r.pkt.length) (hk : 0 < k) (hk' : k + 2 ≤ 20)
    : HeaderWrite r (r.setIpHalf k value) where
  networkOffset_eq := rfl
  length_eq := Mbuf.length_pkt_setIpHalf (by omega)
  hlen_eq := by
    rw [Mbuf.IPV4_GET_HLEN, Mbuf.ipByte_setIpHalf_of_ne (by omega) (Or.inl hk), Mbuf.IPV4_GET_HLEN]
  drop_eq := Mbuf.drop_pkt_setIpHalf (by omega) (by omega)

theorem finishHeader_spec {r : Mbuf} (len : Int) (ihlen : Nat)
    (hlength : r.networkOffset + 20 ≤ r.pkt.length)
    : HeaderWrite r (finishHeader r len ihlen)
      ∧ (finishHeader r len ihlen).IPV4_GET_IPLEN = UInt16.ofInt len := by
  have h1 := headerWrite_setIpHalf (k := 2) (UInt16.ofInt len) hlength (by omega) (by omega)
  have hiplen : (r.setIpHalf 2 (UInt16.ofInt len)).ipHalf 2 = UInt16.ofInt len :=
    Mbuf.ipHalf_setIpHalf (by omega)
  simp only [finishHeader, Mbuf.IPV4_SET_IPLEN, Mbuf.IPV4_SET_IPCSUM, Mbuf.IPV4_GET_IPLEN]
  generalize r.setIpHalf 2 (UInt16.ofInt len) = r1 at h1 hiplen ⊢
  have hlength1 : r1.networkOffset + 20 ≤ r1.pkt.length := by
    rwa [h1.networkOffset_eq, h1.length_eq]
  have h2 := headerWrite_setIpHalf (k := 6) 0 hlength1 (by omega) (by omega)
  rw [← Mbuf.ipHalf_setIpHalf_of_ne (k := 6) 0 (by omega) (by omega)] at hiplen
  generalize r1.setIpHalf 6 0 = r2 at h2 hiplen ⊢
  have hlength2 : r2.networkOffset + 20 ≤ r2.pkt.length := by
    rwa [h2.networkOffset_eq, h2.length_eq]
  generalize headerChecksum (fun k => r2.ipHalf (2 * k)) _ = csum
  have h3 := headerWrite_setIpHalf (k := 10) csum hlength2 (by omega) (by omega)
  rw [← Mbuf.ipHalf_setIpHalf_of_ne (k := 10) csum (by omega) (by omega)] at hiplen
  exact ⟨(h1.trans h2).trans h3, hiplen⟩

theorem ipPayload_finishHeader {r : Mbuf} (hdr : List UInt8) (hmin : 20 ≤ r.IPV4_GET_HLEN)
    (hpkt : r.pkt = hdr ++ payload) (hhdr : hdr.length = r.networkOffset + r.IPV4_GET_HLEN)
    (hlt : r.IPV4_GET_HLEN + payload.length < 2 ^ 16)
    : ipPayload (finishHeader r (r.IPV4_GET_HLEN + payload.length) r.IPV4_GET_HLEN) = payload := by
  have hlength : r.networkOffset + 20 ≤ r.pkt.length := by
    rw [hpkt, List.length_append, hhdr]
    omega
  have hlen : (UInt16.ofInt (r.IPV4_GET_HLEN + payload.length)).toNat
      = r.IPV4_GET_HLEN + payload.length := by
    rw [← Int.natCast_add, ofInt_natCast, UInt16.toNat_ofNat', Nat.mod_eq_of_lt hlt]
  rcases finishHeader_spec (r.IPV4_GET_HLEN + payload.length) r.IPV4_GET_HLEN hlength with
    ⟨h, hiplen⟩
  have hdrop : (finishHeader r (r.IPV4_GET_HLEN + payload.length) r.IPV4_GET_HLEN).pkt.drop
      (r.networkOffset + r.IPV4_GET_HLEN) = payload := by
    have hsplit : r.networkOffset + r.IPV4_GET_HLEN
        = r.networkOffset + 20 + (r.IPV4_GET_HLEN - 20) := by omega
    rw [hsplit, ← List.drop_drop, h.drop_eq, List.drop_drop, ← hsplit, hpkt, ← hhdr,
      List.drop_left]
  rw [ipPayload, h.networkOffset_eq, h.hlen_eq, hdrop, hiplen, hlen, Nat.add_sub_cancel_left,
    List.take_length]

theorem fragDefragReasm_spec {alloc : Alloc} {d : Datagram} {fcb : Fcb}
    (hmbuf : alloc.mbuf = true) (hlarge : alloc.large ≠ 0) (hfragments : fcb.fragments = d.fragments)
    (htotal : fcb.total_fraglen = d.payload.length)
    : ∃ r, (fragDefragReasm alloc fcb).2 = some r ∧ ipPayload r = d.payload := by
  have hlimit : (MEM_POOL_LARGE_BUFFER_SIZE - MEM_POOL_SLICE_CTRL_SIZE).toNat = 8168 := by decide
  rcases d with ⟨payload, fragments, split, fits⟩
  simp only at hfragments htotal ⊢
  have hhead : ∃ head rest data more tail, fragments = head :: rest ∧ payload = data ++ tail
      ∧ IsFragment head 0 data more
      ∧ ∀ r : Mbuf, r.pkt_totallen.toNat = r.pkt.length → r.pkt.length + tail.length < 2 ^ 16
        → (rest.foldl appendFragment r).pkt = r.pkt ++ tail
          ∧ (rest.foldl appendFragment r).networkOffset = r.networkOffset := by
    cases split with
    | last h hne => exact ⟨_, [], _, _, [], rfl, by simp, h, by simp⟩
    | cons h hne hmod hms =>
      refine ⟨_, _, _, _, _, rfl, rfl, h, ?_⟩
      intro r hr hlt
      rw [hms.foldl_appendFragment r hr hlt]
      exact ⟨rfl, rfl⟩
  rcases hhead with ⟨head, rest, data, more, tail, rfl, rfl, h, hrest⟩
  rcases h.pkt_eq with ⟨hdr, hpkt, hhdr⟩
  have hfits := fits head (by simp)
  have hmin := h.hlen
  have htake : head.pkt.take head.pkt_totallen.toNat = head.pkt := by
    rw [h.pkt_totallen, List.take_length]
  rcases fragDefragSetup_spec hmbuf hlarge h.network_header htotal hfits with
    ⟨new_mb, hsetup, hnew, htotallen, hoffset⟩
  rw [List.length_append] at hfits htotal
  have hlen : ¬ (head.IPV4_GET_HLEN + fcb.total_fraglen > IPV4_PKTLEN_MAX) := by
    rw [htotal]
    simp only [IPV4_PKTLEN_MAX]
    omega
  simp only [fragDefragReasm, hfragments, if_neg hlen, hsetup, htake]
  refine ⟨_, rfl, ?_⟩
  have hcopy : appendPacket new_mb head.pkt head.pkt_totallen
      = { new_mb with pkt := head.pkt, pkt_totallen := head.pkt_totallen } := by
    simp [appendPacket, hnew, htotallen, memcpyAt]
  rw [hcopy]
  have hlength : head.pkt.length = head.networkOffset + head.IPV4_GET_HLEN + data.length := by
    rw [hpkt, List.length_append, hhdr]
  rcases hrest { new_mb with pkt := head.pkt, pkt_totallen := head.pkt_totallen } h.pkt_totallen
    (show head.pkt.length + _ < _ by omega) with ⟨hr, hroffset⟩
  generalize rest.foldl appendFragment
    { new_mb with pkt := head.pkt, pkt_totallen := head.pkt_totallen } = r at hr hroffset ⊢
  simp only at hr
  have hroffset : r.networkOffset = head.networkOffset := hroffset.trans hoffset
  have hrhlen : r.IPV4_GET_HLEN = head.IPV4_GET_HLEN := by
    simp only [Mbuf.IPV4_GET_HLEN, Mbuf.ipByte, hroffset, hr, Nat.add_zero]
    rw [List.getD_append _ _ _ _ (by omega)]
  have hrhlen : r.IPV4_GET_HLEN = head.IPV4_GET_HLEN := hrhlen
  rw [htotal, ← hrhlen, ← List.length_append]
  apply ipPayload_finishHeader hdr
  . rwa [hrhlen]
  . rw [hr, hpkt, List.append_assoc]
  . rw [hhdr, hroffset, hrhlen]
  . rw [hrhlen, List.length_append]
    omega

end Packet

section Queue

variable {d : Datagram} {seen : List Mbuf} {m : Mbuf} {fcb : Fcb}

def flags (first last : Bool) : UInt8 :=
  (if first then DEFRAG_FIRST_IN else 0) ||| (if last then DEFRAG_LAST_IN else 0)

theorem flags_complete (first last : Bool) : flags first last &&& DEFRAG_COMPLETE = 0 := by
  revert first last
  decide

theorem flags_last (first last : Bool) : flags first last &&& DEFRAG_LAST_IN ≠ 0 ↔ last = true := by
  revert first last
  decide

theorem flags_or_first (first last : Bool)
    : flags first last ||| DEFRAG_FIRST_IN = flags true last := by
  revert first last
  decide

theorem flags_or_last (first last : Bool)
    : flags first last ||| DEFRAG_LAST_IN = flags first true := by
  revert first last
  decide

theorem flags_eq_both (first last : Bool)
    : flags first last = DEFRAG_FIRST_IN ||| DEFRAG_LAST_IN ↔ first = true ∧ last = true := by
  revert first last
  decide

def hasFirst (seen : List Mbuf) : Bool := seen.any fun m => m.frag_offset = 0

def hasLast (seen : List Mbuf) : Bool := seen.any fun m => m.IPV4_GET_MF = 0

structure Queued (d : Datagram) (seen : List Mbuf) (fcb : Fcb) : Prop where
  perm : fcb.fragments.Perm seen
  ordered : Ordered fcb.fragments
  tail_eq : fcb.fragments_tail = fcb.fragments.getLast?
  meat_eq : fcb.meat = (seen.map Mbuf.frag_len).sum
  last_in_eq : fcb.last_in = flags (hasFirst seen) (hasLast seen)
  total_le : fcb.total_fraglen ≤ d.payload.length
  total_eq : hasLast seen = true → fcb.total_fraglen = d.payload.length

theorem queued_fcbCreate (d : Datagram) : Queued d [] fcbCreate where
  perm := List.Perm.refl _
  ordered := Ordered.nil
  tail_eq := rfl
  meat_eq := rfl
  last_in_eq := rfl
  total_le := by simp [fcbCreate]
  total_eq := by simp [hasLast]

structure Noted (d : Datagram) (seen : List Mbuf) (m : Mbuf) (fcb fcb' : Fcb) : Prop where
  fragments_eq : fcb'.fragments = fcb.fragments
  tail_eq : fcb'.fragments_tail = fcb.fragments_tail
  meat_eq : fcb'.meat = fcb.meat
  last_in_eq : fcb'.last_in = flags (hasFirst seen) (hasLast (m :: seen))
  total_le : fcb'.total_fraglen ≤ d.payload.length
  total_eq : hasLast (m :: seen) = true → fcb'.total_fraglen = d.payload.length

theorem Queued.noteEnd (h : Queued d seen fcb) (hm : m ∈ d.fragments)
    (hnew : m.IPV4_GET_MF = 0 → hasLast seen = false)
    : ∃ fcb', noteEnd m fcb = some fcb' ∧ Noted d seen m fcb fcb' := by
  have hbounds := (d.split.bounds m hm).2
  have hmf := d.split.mf_eq_zero_iff m hm
  have hlast := flags_last (hasFirst seen) (hasLast seen)
  have htotal := h.total_le
  rw [← h.last_in_eq] at hlast
  simp only [Nat.cast_zero, zero_add] at hbounds hmf
  have hcons : hasLast (m :: seen) = (decide (m.IPV4_GET_MF = 0) || hasLast seen) := rfl
  simp only [Decode.noteEnd]
  split
  . next hzero =>
    have hend := hmf.mp hzero
    have hout := hnew hzero
    rw [if_neg]
    . refine ⟨_, rfl, rfl, rfl, rfl, ?_, hend.le, fun _ => hend⟩
      rw [h.last_in_eq, flags_or_last, hcons, hzero]
      rfl
    . rw [hlast, hout, not_or]
      exact ⟨by omega, by simp⟩
  . next hmore =>
    have hflag : hasLast (m :: seen) = hasLast seen := by simp [hcons, hmore]
    split
    . next hlt =>
      have hout : ¬ hasLast seen = true := by
        intro hin
        have := h.total_eq hin
        omega
      rw [if_neg (mt hlast.mp hout)]
      refine ⟨_, rfl, rfl, rfl, rfl, ?_, hbounds, ?_⟩
      . rw [hflag]
        exact h.last_in_eq
      . rw [hflag]
        exact fun hin => absurd hin hout
    . refine ⟨_, rfl, rfl, rfl, rfl, ?_, htotal, ?_⟩
      . rw [hflag]
        exact h.last_in_eq
      . rw [hflag]
        exact h.total_eq

section Place

variable {lower upper : List Mbuf}

theorem overlaps_eq_false {place : Place}
    : place.overlaps m.frag_offset (m.frag_offset + m.frag_len) = false
        ↔ (∀ x ∈ place.prev, Before x m) ∧ ∀ x ∈ place.after.head?, Before m x := by
  rw [Place.overlaps, Bool.or_eq_false_iff]
  apply and_congr
  . cases place.prev with
    | none => simp
    | some prev => simp [Before, Segment.start, Segment.stop]
  . cases place.after.head? with
    | none => simp
    | some next => simp [Before, Segment.start, Segment.stop]

theorem fits_iff {next : Mbuf} (hord : Ordered (lower ++ next :: upper)) (hm : Proper m)
    (hlower : ∀ x ∈ lower, Before x m) (hupper : ∀ x ∈ next :: upper, Before m x)
    : Fits (lower ++ next :: upper) m
        ↔ (∀ x ∈ lower, x.frag_len < m.frag_offset) ∧ m.frag_offset ≤ next.frag_len := by
  have hbefore : ∀ x ∈ lower, x.frag_offset < m.frag_offset := fun x hx =>
    Segment.start_lt_of_before (hord.left.proper x hx) (hlower x hx)
  have hafter : ∀ x ∈ next :: upper, m.frag_offset < x.frag_offset := fun x hx =>
    Segment.start_lt_of_before hm (hupper x hx)
  have hnext : ∀ x ∈ next :: upper, next.frag_offset ≤ x.frag_offset := by
    intro x hx
    have hcons := Ordered.cons_iff.mp hord.right
    cases List.mem_cons.mp hx with
    | inl heq => rw [heq]
    | inr hx => exact (Segment.start_lt_of_before hcons.1 (hcons.2.1 x hx)).le
  constructor
  . intro h
    rcases h ⟨next, by simp, hafter next (by simp)⟩ with ⟨hlen, n, hn, hlt, hmin, hle⟩
    refine ⟨fun x hx => hlen x (by simp [hx]) (hbefore x hx), ?_⟩
    have hsame : n = next := by
      have hnle := hmin next (by simp) (hafter next (by simp))
      rw [List.mem_append] at hn
      cases hn with
      | inl hn => exact absurd (hbefore n hn) (by omega)
      | inr hn =>
        cases List.mem_cons.mp hn with
        | inl heq => exact heq
        | inr hn =>
          have hcons := Ordered.cons_iff.mp hord.right
          have := Segment.start_lt_of_before hcons.1 (hcons.2.1 n hn)
          simp only [Segment.start] at this
          omega
    rwa [← hsame]
  . intro h _
    refine ⟨?_, next, by simp, hafter next (by simp), ?_, h.2⟩
    . intro q hq hlt
      rw [List.mem_append] at hq
      cases hq with
      | inl hq => exact h.1 q hq
      | inr hq => exact absurd (hafter q hq) (by omega)
    . intro q hq hlt
      rw [List.mem_append] at hq
      cases hq with
      | inl hq => exact absurd (hbefore q hq) (by omega)
      | inr hq => exact hnext q hq

theorem findPlace_of_before {fragments : List Mbuf} (hord : Ordered fragments)
    (hbefore : ∀ x ∈ fragments, Before x m) (hfragments : fcb.fragments = fragments)
    (htail : fcb.fragments_tail = fragments.getLast?)
    : findPlace fcb m.frag_offset = ⟨fragments, fragments.getLast?, []⟩ := by
  simp only [findPlace, htail]
  cases hlast : fragments.getLast? with
  | none =>
    rw [List.getLast?_eq_none_iff] at hlast
    rw [hlast]
  | some tail =>
    have hmem := List.mem_of_getLast? hlast
    have : tail.frag_offset < m.frag_offset :=
      Segment.start_lt_of_before (hord.proper tail hmem) (hbefore tail hmem)
    simp only [this, ↓reduceIte, hfragments]

theorem findPlace_of_after {fragments : List Mbuf} {tail : Mbuf} (hm : Proper m)
    (hafter : Before m tail) (hfragments : fcb.fragments = fragments)
    (htail : fcb.fragments_tail = some tail)
    : findPlace fcb m.frag_offset
        = ⟨fragments.takeWhile (fun x => ¬ x.frag_len ≥ m.frag_offset),
          (fragments.takeWhile (fun x => ¬ x.frag_len ≥ m.frag_offset)).getLast?,
          fragments.dropWhile (fun x => ¬ x.frag_len ≥ m.frag_offset)⟩ := by
  have hbehind := Segment.start_lt_of_before hm hafter
  simp only [Segment.start] at hbehind
  simp only [findPlace, htail, hfragments, List.span_eq_takeWhile_dropWhile]
  rw [if_neg (by omega)]

theorem findPlace_spec (hord : Ordered (lower ++ upper)) (hm : Proper m)
    (hlower : ∀ x ∈ lower, Before x m) (hupper : ∀ x ∈ upper, Before m x)
    (hfragments : fcb.fragments = lower ++ upper)
    (htail : fcb.fragments_tail = (lower ++ upper).getLast?)
    : if (findPlace fcb m.frag_offset).overlaps m.frag_offset (m.frag_offset + m.frag_len) then
        ¬ Fits (lower ++ upper) m
      else
        Fits (lower ++ upper) m ∧ (findPlace fcb m.frag_offset).before = lower
          ∧ (findPlace fcb m.frag_offset).after = upper := by
  cases upper with
  | nil =>
    rw [List.append_nil] at hfragments htail hord ⊢
    have hfits : Fits lower m := by
      rintro ⟨q, hq, hlt⟩
      have := Segment.start_lt_of_before (hord.proper q hq) (hlower q hq)
      simp only [Segment.start] at this
      omega
    have hplace := findPlace_of_before hord hlower hfragments htail
    have hoverlaps : (findPlace fcb m.frag_offset).overlaps m.frag_offset
        (m.frag_offset + m.frag_len) = false := by
      rw [overlaps_eq_false, hplace]
      refine ⟨?_, by simp⟩
      intro x hx
      exact hlower x (List.mem_of_getLast? hx)
    rw [hoverlaps, hplace]
    exact ⟨hfits, rfl, rfl⟩
  | cons next upper =>
    rw [fits_iff hord hm hlower hupper]
    let short (x : Mbuf) : Bool := ¬ x.frag_len ≥ m.frag_offset
    have hlast : (lower ++ next :: upper).getLast? = some ((next :: upper).getLast (by simp)) := by
      rw [List.getLast?_append_of_ne_nil _ (by simp), List.getLast?_eq_some_getLast (by simp)]
    have hplace : findPlace fcb m.frag_offset
        = ⟨(lower ++ next :: upper).takeWhile short,
          ((lower ++ next :: upper).takeWhile short).getLast?,
          (lower ++ next :: upper).dropWhile short⟩ :=
      findPlace_of_after hm (hupper _ (List.getLast_mem _)) hfragments (htail.trans hlast)
    have hsplit := List.takeWhile_append_dropWhile (p := short) (l := lower ++ next :: upper)
    by_cases hfits : (∀ x ∈ lower, x.frag_len < m.frag_offset) ∧ m.frag_offset ≤ next.frag_len
    . have htake : (lower ++ next :: upper).takeWhile short = lower := by
        rw [List.takeWhile_append_of_pos, List.takeWhile_cons_of_neg, List.append_nil]
        . simpa [short] using hfits.2
        . simpa [short] using hfits.1
      rw [htake] at hsplit hplace
      have hdrop := List.append_cancel_left hsplit
      rw [hdrop] at hplace
      have hoverlaps : (findPlace fcb m.frag_offset).overlaps m.frag_offset
          (m.frag_offset + m.frag_len) = false := by
        rw [overlaps_eq_false, hplace]
        constructor
        . intro x hx
          exact hlower x (List.mem_of_getLast? hx)
        . intro x hx
          exact hupper x (List.mem_of_head? hx)
      rw [hoverlaps, hplace]
      exact ⟨hfits, rfl, rfl⟩
    . have hoverlaps : (findPlace fcb m.frag_offset).overlaps m.frag_offset
          (m.frag_offset + m.frag_len) = true := by
        by_contra hfalse
        rw [Bool.not_eq_true, overlaps_eq_false, hplace] at hfalse
        have hord' := hord
        rw [← hsplit] at hord'
        -- both parts would be in place, so that the search had stopped at `next`
        have hsame := Ordered.place_unique hm hord' hsplit
          (hord'.left.forall_before_of_getLast? hfalse.1)
          (hord'.right.forall_after_of_head? hfalse.2) hlower hupper
        apply hfits
        constructor
        . intro x hx
          rw [← hsame.1] at hx
          simpa [short] using List.mem_takeWhile_imp hx
        . have hhead : ((lower ++ next :: upper).dropWhile short).head? = some next := by
            rw [hsame.2]
            rfl
          have hnot := List.head?_dropWhile_not short (lower ++ next :: upper)
          rw [hhead] at hnot
          simpa [short] using hnot
      rw [hoverlaps]
      exact hfits

end Place

theorem hasFirst_cons (m : Mbuf) (seen : List Mbuf)
    : hasFirst (m :: seen) = (decide (m.frag_offset = 0) || hasFirst seen) := rfl

theorem Noted.insertFragment {fcb' : Fcb} {lower upper : List Mbuf} {place : Place}
    (h : Queued d seen fcb) (hnoted : Noted d seen m fcb fcb')
    (hfragments : fcb.fragments = lower ++ upper) (hm : Proper m)
    (hlower : ∀ x ∈ lower, Before x m) (hupper : ∀ x ∈ upper, Before m x)
    (hbefore : place.before = lower) (hafter : place.after = upper)
    : Queued d (m :: seen) (insertFragment m place fcb') := by
  have hperm := h.perm
  have hord := h.ordered
  rw [hfragments] at hperm hord
  constructor
  case perm =>
    simp only [Decode.insertFragment, hbefore, hafter]
    exact List.perm_middle.trans (hperm.cons m)
  case ordered =>
    simp only [Decode.insertFragment, hbefore, hafter]
    exact hord.insert hm hlower hupper
  case tail_eq =>
    simp only [Decode.insertFragment, hbefore, hafter, hnoted.tail_eq, h.tail_eq, hfragments]
    cases upper with
    | nil => simp
    | cons next upper =>
      rw [List.getLast?_append_of_ne_nil _ (by simp), List.getLast?_append_of_ne_nil _ (by simp)]
      simp [List.getLast?_cons]
  case meat_eq =>
    simp only [Decode.insertFragment, hnoted.meat_eq, h.meat_eq, List.map_cons, List.sum_cons]
    omega
  case last_in_eq =>
    simp only [Decode.insertFragment, hnoted.last_in_eq, hasFirst_cons]
    split
    . next hzero => rw [flags_or_first, decide_eq_true hzero, Bool.true_or]
    . next hne => rw [decide_eq_false hne, Bool.false_or]
  case total_le => exact hnoted.total_le
  case total_eq => exact hnoted.total_eq

theorem Queued.step {ms : List Mbuf} (h : Queued d seen fcb)
    (hperm : (seen ++ m :: ms).Perm d.fragments) (alloc : Alloc)
    : if Fits seen m then
        ∃ fcb', Queued d (m :: seen) fcb' ∧ fragDefragProcess alloc m fcb
          = if fcb'.Complete then
              ⟨(fragDefragReasm alloc fcb').1, (fragDefragReasm alloc fcb').2, false⟩
            else
              ⟨fcb', none, false⟩
      else
        (fragDefragProcess alloc m fcb).destroyed = true := by
  have hord := d.split.ordered
  have hmem : m ∈ d.fragments := hperm.subset (by simp)
  have hm := hord.proper m hmem
  have hapart : ∀ x ∈ seen, Before x m ∨ Before m x := by
    have hsymm : d.fragments.Pairwise fun x y => Before x y ∨ Before y x :=
      hord.pairwise.imp Or.inl
    rw [← hperm.pairwise_iff (fun hor => hor.symm)] at hsymm
    intro x hx
    exact (List.pairwise_append.mp hsymm).2.2 x hx m (by simp)
  have hnew : m.IPV4_GET_MF = 0 → hasLast seen = false := by
    intro hmf
    rw [hasLast, List.any_eq_false]
    intro x hx hxmf
    have hxmem : x ∈ d.fragments := hperm.subset (by simp [hx])
    have hmend := (d.split.mf_eq_zero_iff m hmem).mp hmf
    have hxend := (d.split.mf_eq_zero_iff x hxmem).mp (of_decide_eq_true hxmf)
    have hxproper := hord.proper x hxmem
    have := hapart x hx
    simp only [Proper, Before, Segment.start, Segment.stop] at hm hxproper this
    omega
  have hflags : fcb.last_in &&& DEFRAG_COMPLETE = 0 := by
    rw [h.last_in_eq, flags_complete]
  rcases h.noteEnd hmem hnew with ⟨fcb1, hnote, hnoted⟩
  rcases h.ordered.exists_place (fun x hx => hapart x (h.perm.subset hx)) with
    ⟨lower, upper, hfragments, hlower, hupper⟩
  have hfits : Fits seen m ↔ Fits (lower ++ upper) m := by
    simp only [Fits, ← hfragments, h.perm.mem_iff]
  have hplace := findPlace_spec (hfragments ▸ h.ordered) hm hlower hupper
    (hnoted.fragments_eq.trans hfragments)
    (hnoted.tail_eq.trans (hfragments ▸ h.tail_eq))
  rw [← hfits] at hplace
  simp only [fragDefragProcess, enqueue, hflags, ne_eq, not_true_eq_false, ↓reduceIte, hnote]
  split at hplace
  . next hoverlaps => rw [if_neg hplace, if_pos hoverlaps]
  . next hoverlaps =>
    rw [if_pos hplace.1, if_neg hoverlaps]
    exact ⟨_, hnoted.insertFragment h hfragments hm hlower hupper hplace.2.1 hplace.2.2, rfl⟩

theorem Queued.complete_iff {ms : List Mbuf} (h : Queued d seen fcb)
    (hperm : (seen ++ ms).Perm d.fragments)
    : fcb.Complete ↔ ms = [] := by
  have hsum : (seen.map Mbuf.frag_len).sum + (ms.map Mbuf.frag_len).sum = d.payload.length := by
    rw [← List.sum_append, ← List.map_append, (hperm.map Mbuf.frag_len).sum_eq,
      d.split.sum_frag_len]
  have hfields : fcb.Complete
      ↔ fcb.last_in = DEFRAG_FIRST_IN ||| DEFRAG_LAST_IN ∧ fcb.meat = fcb.total_fraglen :=
    ⟨fun hcomplete => ⟨hcomplete.last_in, hcomplete.meat⟩, fun hcomplete => ⟨hcomplete.1, hcomplete.2⟩⟩
  rw [hfields, h.last_in_eq, flags_eq_both, h.meat_eq]
  constructor
  . intro hcomplete
    have htotal := h.total_eq hcomplete.1.2
    cases ms with
    | nil => rfl
    | cons m ms =>
      have hlen : ∀ x ∈ m :: ms, 0 < x.frag_len := by
        intro x hx
        have := d.split.ordered.proper x (hperm.subset (by simp [hx]))
        simp only [Proper, Segment.start, Segment.stop] at this
        omega
      have hpos : 0 < ((m :: ms).map Mbuf.frag_len).sum := by
        apply List.sum_pos
        . simpa using hlen
        . simp
      omega
  . rintro rfl
    rw [List.append_nil] at hperm
    rcases d.split.exists_first with ⟨first, hfirst, hzero⟩
    rcases d.split.exists_last with ⟨last, hlast, hmf⟩
    have hin : hasLast seen = true := by
      rw [hasLast, List.any_eq_true]
      exact ⟨last, hperm.symm.subset hlast, decide_eq_true hmf⟩
    refine ⟨⟨?_, hin⟩, ?_⟩
    . rw [hasFirst, List.any_eq_true]
      exact ⟨first, hperm.symm.subset hfirst, decide_eq_true hzero⟩
    . rw [h.total_eq hin]
      simpa using hsum

theorem Queued.fragments_eq (h : Queued d seen fcb) (hperm : seen.Perm d.fragments)
    : fcb.fragments = d.fragments :=
  h.ordered.eq_of_perm d.split.ordered (h.perm.trans hperm)

theorem Queued.total_eq_of_perm (h : Queued d seen fcb) (hperm : seen.Perm d.fragments)
    : fcb.total_fraglen = d.payload.length := by
  have hall : (seen ++ []).Perm d.fragments := by rwa [List.append_nil]
  have hcomplete := (h.complete_iff hall).mpr rfl
  have := d.split.sum_frag_len
  rw [← hcomplete.meat, h.meat_eq, (hperm.map Mbuf.frag_len).sum_eq, this]

theorem Queued.reassembles_iff {alloc : Alloc} {ms : List Mbuf} (hmbuf : alloc.mbuf = true)
    (hlarge : alloc.large ≠ 0) (h : Queued d seen fcb) (hne : ms ≠ [])
    (hperm : (seen ++ ms).Perm d.fragments)
    : Reassembles alloc d.payload fcb ms ↔ Orderly seen ms := by
  induction ms generalizing seen fcb with
  | nil => exact absurd rfl hne
  | cons m ms ih =>
    have hstep := h.step hperm alloc
    have hperm' : (m :: seen ++ ms).Perm d.fragments := List.perm_middle.symm.trans hperm
    cases ms with
    | nil =>
      simp only [Reassembles, Orderly, and_true]
      split at hstep
      . next hfits =>
        rcases hstep with ⟨fcb', h', hprocess⟩
        rw [if_pos ((h'.complete_iff hperm').mpr rfl)] at hprocess
        rw [List.append_nil] at hperm'
        rw [hprocess]
        exact iff_of_true ⟨rfl, fragDefragReasm_spec hmbuf hlarge (h'.fragments_eq hperm')
          (h'.total_eq_of_perm hperm')⟩ hfits
      . next hfits => exact iff_of_false (by simp [hstep]) hfits
    | cons m' ms =>
      rw [Orderly]
      simp only [Reassembles]
      split at hstep
      . next hfits =>
        rcases hstep with ⟨fcb', h', hprocess⟩
        rw [if_neg (mt (h'.complete_iff hperm').mp (by simp))] at hprocess
        rw [hprocess, ← ih h' (by simp) hperm']
        simp [hfits]
      . next hfits => exact iff_of_false (by simp [hstep]) (by simp [hfits])

/--
The orders of arrival in which a datagram is reassembled are exactly those in which every fragment
fits when it arrives.
-/
theorem reassembles_iff_orderly {alloc : Alloc} (hmbuf : alloc.mbuf = true)
    (hlarge : alloc.large ≠ 0) (d : Datagram) {arrivals : List Mbuf}
    (hperm : arrivals.Perm d.fragments)
    : Reassembles alloc d.payload fcbCreate arrivals ↔ Orderly [] arrivals := by
  apply (queued_fcbCreate d).reassembles_iff hmbuf hlarge
  . rintro rfl
    have hnil := List.nil_perm.mp hperm
    rcases d.split.exists_first with ⟨m, hm, -⟩
    simp [hnil] at hm
  . exact hperm

end Queue

section Frames

def frame (offset : Nat) (data : List UInt8) (more : Bool) : Mbuf where
  magic_flag := MBUF_MAGIC_NUM
  pkt_space := .PKTBUF_SW
  pkt_totallen := UInt16.ofNat (20 + data.length)
  pkt_ptr := 4096
  pkt := [0x45, 0] ++ Bytes.bigEndian 2 (20 + data.length) ++ [0, 0]
    ++ Bytes.bigEndian 2 ((if more then 0x2000 else 0) + offset / 8) ++ List.replicate 12 0 ++ data
  ethh := 0
  vlanh := 0
  network_header := 4096
  transport_header := 0
  input_port := 0
  eth_dst := .replicate 6 0
  eth_src := .replicate 6 0
  sip := 0
  dip := 0
  sport := 0
  dport := 0
  proto := 17
  vlan_idx := 0
  vlan_id := 0
  payload := 0
  frag_offset := offset
  frag_len := data.length

theorem frame_isFragment {offset : Nat} {data : List UInt8} {more : Bool}
    (hmf : (frame offset data more).IPV4_GET_MF = if more then 1 else 0)
    (hhlen : (frame offset data more).IPV4_GET_HLEN = 20)
    (htotal : (frame offset data more).pkt_totallen.toNat = 20 + data.length)
    : IsFragment (frame offset data more) offset data more where
  frag_offset := rfl
  frag_len := rfl
  mf := hmf
  pkt_eq := by
    refine ⟨_, rfl, ?_⟩
    rw [hhlen]
    simp [frame, Mbuf.networkOffset]
  pkt_totallen := by
    rw [htotal]
    simp [frame]
    omega
  hlen := hhlen.ge
  network_header := by simp [frame]

def threeFragments : Datagram where
  payload := List.replicate 8 1 ++ (List.replicate 8 2 ++ List.replicate 8 3)
  fragments := [frame 0 (List.replicate 8 1) true, frame 8 (List.replicate 8 2) true,
    frame 16 (List.replicate 8 3) false]
  split := .cons (frame_isFragment (by decide) (by decide) (by decide)) (by simp) (by simp)
    (.cons (frame_isFragment (by decide) (by decide) (by decide)) (by simp) (by simp)
      (.last (frame_isFragment (by decide) (by decide) (by decide)) (by simp)))
  fits := by decide

def lastFirst : List Mbuf :=
  [frame 16 (List.replicate 8 3) false, frame 0 (List.replicate 8 1) true,
    frame 8 (List.replicate 8 2) true]

theorem lastFirst_perm : lastFirst.Perm threeFragments.fragments :=
  @List.perm_append_comm _ [frame 16 (List.replicate 8 3) false]
    [frame 0 (List.replicate 8 1) true, frame 8 (List.replicate 8 2) true]

theorem reassembles_iff_orderly_lastFirst
    : Reassembles ⟨true, 8192⟩ threeFragments.payload fcbCreate lastFirst ↔ Orderly [] lastFirst :=
  reassembles_iff_orderly rfl (by decide) threeFragments lastFirst_perm

theorem not_reassembles_lastFirst
    : ¬ ∀ arrivals, arrivals.Perm threeFragments.fragments
        → Reassembles ⟨true, 8192⟩ threeFragments.payload fcbCreate arrivals := by
  let alloc : Alloc := ⟨true, 8192⟩
  let fcb1 := (fragDefragProcess alloc (frame 16 (List.replicate 8 3) false) fcbCreate).fcb
  let fcb2 := (fragDefragProcess alloc (frame 0 (List.replicate 8 1) true) fcb1).fcb
  have hdestroyed : (fragDefragProcess alloc (frame 8 (List.replicate 8 2) true) fcb2).destroyed
      = true := by decide
  intro h
  have hkept := (h lastFirst lastFirst_perm).2.2.2.2.1
  exact absurd (hdestroyed.symm.trans hkept) (by simp)

end Frames

end SecFw.Decode
