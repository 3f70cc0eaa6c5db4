import SecFw.Decode.Checksum

/-!
This module contains what a received frame brings into the packet that is put together: the bytes
behind its IPv4 header, and the places of its headers when it is the first fragment.
-/

namespace SecFw.Decode

open Segment (Ordered Before Proper Tiles Within)

section Payload

variable {m head r : Mbuf} {rest : List Mbuf} {fcb : Fcb} {alloc : Alloc}

/-- The frame ends with the datagram. -/
def Unpadded (m : Mbuf) : Prop := m.pkt.length = m.networkOffset + m.IPV4_GET_IPLEN.toNat

instance (m : Mbuf) : Decidable (Unpadded m) := inferInstanceAs (Decidable (_ = _))

/-- What is counted and copied of a fragment is the payload of its datagram. -/
structure ContributesPayload (m : Mbuf) : Prop where
  frag_len : m.frag_len = m.IPV4_GET_IPLEN.toNat - m.IPV4_GET_HLEN
  first : (m.pkt.take m.pkt_totallen.toNat).drop (m.networkOffset + m.IPV4_GET_HLEN) = ipPayload m
  later : fragBytes m = ipPayload m

/-- The packet has the payloads of the fragments, and its length is theirs. -/
structure JoinsPayloads (fragments : List Mbuf) (r : Mbuf) : Prop where
  payload : ipPayload r = (fragments.map ipPayload).flatten
  iplen : r.IPV4_GET_IPLEN.toNat = r.IPV4_GET_HLEN + (fragments.map ipPayload).flatten.length

theorem AsDecoded.fragBytes_eq (h : AsDecoded m)
    : fragBytes m = m.pkt.drop (m.networkOffset + m.IPV4_GET_HLEN) := by
  have hlen := h.frag_len
  have htotal := h.pkt_totallen
  have hpkt := h.pkt
  have hpos : m.pkt_totallen.toNat - m.frag_len.toNat = m.networkOffset + m.IPV4_GET_HLEN := by
    omega
  rw [fragBytes, hpos, List.take_of_length_le]
  rw [List.length_drop]
  omega

theorem Arrived.fragBytes_eq (h : Arrived m)
    : ∃ trailing, fragBytes m = ipPayload m ++ trailing ∧ (trailing = [] ↔ Unpadded m) := by
  have hdecoded := h.asDecoded
  have hiplen := h.iplen
  refine ⟨_, hdecoded.fragBytes_eq.trans (List.take_append_drop
    (m.IPV4_GET_IPLEN.toNat - m.IPV4_GET_HLEN) _).symm, ?_⟩
  rw [List.drop_drop, List.drop_eq_nil_iff, Unpadded]
  omega

theorem Arrived.contributesPayload_iff (h : Arrived m) : ContributesPayload m ↔ Unpadded m := by
  have hdecoded := h.asDecoded
  have hiplen := h.iplen
  have htotal := hdecoded.pkt_totallen
  have hpkt := hdecoded.pkt
  rcases h.fragBytes_eq with ⟨trailing, hbytes, htrailing⟩
  constructor
  . intro hcontributes
    have hlen := hcontributes.frag_len
    unfold Unpadded
    omega
  . intro hunpadded
    rw [htrailing.mpr hunpadded, List.append_nil] at hbytes
    unfold Unpadded at hunpadded
    constructor
    case frag_len => omega
    case first => rw [← hpkt, List.take_length, ← hdecoded.fragBytes_eq, hbytes]
    case later => exact hbytes

theorem Gathered.ipPayload_eq {gathered : Mbuf} (h : Gathered fcb head rest gathered r)
    (hdecoded : ∀ x ∈ head :: rest, AsDecoded x)
    : ipPayload r = ((head :: rest).map fragBytes).flatten
      ∧ r.IPV4_GET_IPLEN.toNat
        = r.IPV4_GET_HLEN + ((head :: rest).map fragBytes).flatten.length := by
  have hlimit : (MEM_POOL_LARGE_BUFFER_SIZE - MEM_POOL_SLICE_CTRL_SIZE).toNat = 8168 := by decide
  rcases List.forall_mem_cons.mp hdecoded with ⟨hhead, hrest⟩
  have hflatten := length_flatten_fragBytes hrest
  have hbytes := hhead.length_fragBytes
  have htotal := h.total
  have hsize := h.size
  have hfits := h.fits
  have hpos := hhead.frag_len
  have htotallen := hhead.pkt_totallen
  have hpkt := hhead.pkt
  have hmin := hhead.hlen
  have hsplit : gathered.pkt = head.pkt.take (head.networkOffset + head.IPV4_GET_HLEN)
      ++ ((head :: rest).map fragBytes).flatten := by
    rw [h.pkt, List.map_cons, List.flatten_cons, hhead.fragBytes_eq, ← List.append_assoc,
      List.take_append_drop]
  have hlength : ((((head :: rest).map fragBytes).flatten.length : Nat) : Int)
      = fcb.total_fraglen := by
    rw [List.map_cons, List.flatten_cons, List.length_append, Nat.cast_add]
    omega
  have hbehind : gathered.networkOffset + 20 ≤ gathered.pkt.length := by
    rw [h.networkOffset, h.pkt, List.length_append]
    omega
  have heq := h.eq
  rw [← h.hlen, ← hlength] at heq
  constructor
  . rw [heq]
    apply ipPayload_finishHeader _ (h.hlen ▸ hmin) hsplit
    . rw [h.networkOffset, h.hlen, List.length_take]
      omega
    . rw [h.hlen]
      omega
  . rcases finishHeader_spec (gathered.IPV4_GET_HLEN
        + (((head :: rest).map fragBytes).flatten.length : Int)) gathered.IPV4_GET_HLEN hbehind with
      ⟨hwrite, hiplen⟩
    rw [← heq] at hwrite hiplen
    rw [hiplen, hwrite.hlen_eq, h.hlen, toNat_ofInt16 (by omega) (by omega)]
    omega

theorem flatten_fragBytes_eq_iff {fragments : List Mbuf} (h : ∀ x ∈ fragments, Arrived x)
    : (fragments.map fragBytes).flatten = (fragments.map ipPayload).flatten
        ↔ ∀ x ∈ fragments, Unpadded x := by
  have hle : ∀ l : List Mbuf, (∀ x ∈ l, Arrived x)
      → (l.map ipPayload).flatten.length ≤ (l.map fragBytes).flatten.length := by
    intro l hl
    induction l with
    | nil => simp
    | cons x l ih =>
      rcases List.forall_mem_cons.mp hl with ⟨hx, hl⟩
      rcases hx.fragBytes_eq with ⟨trailing, hbytes, -⟩
      have := ih hl
      simp only [List.map_cons, List.flatten_cons, List.length_append, hbytes]
      omega
  induction fragments with
  | nil => simp
  | cons x l ih =>
    rcases List.forall_mem_cons.mp h with ⟨hx, hl⟩
    rcases hx.fragBytes_eq with ⟨trailing, hbytes, htrailing⟩
    have hrest := hle l hl
    have hjoined := ih hl
    rw [List.map_cons, List.map_cons, List.flatten_cons, List.flatten_cons, List.forall_mem_cons,
      hbytes, ← htrailing]
    constructor
    . intro heq
      have hlen := congrArg List.length heq
      simp only [List.length_append] at hlen
      have hnil : trailing = [] := List.eq_nil_of_length_eq_zero (by omega)
      rw [hnil, List.append_nil] at heq
      exact ⟨hnil, hjoined.mp (List.append_cancel_left heq)⟩
    . rintro ⟨hnil, hall⟩
      rw [hnil, List.append_nil, hjoined.mpr hall]

theorem Gathered.joinsPayloads_iff {gathered : Mbuf} (h : Gathered fcb head rest gathered r)
    (harrived : ∀ x ∈ head :: rest, Arrived x)
    : JoinsPayloads (head :: rest) r ↔ ∀ x ∈ head :: rest, Unpadded x := by
  rcases h.ipPayload_eq (fun x hx => (harrived x hx).asDecoded) with ⟨hpayload, hiplen⟩
  rw [← flatten_fragBytes_eq_iff harrived]
  constructor
  . intro hjoins
    rw [← hpayload]
    exact hjoins.payload
  . intro heq
    exact ⟨hpayload.trans heq, heq ▸ hiplen⟩

theorem mem_processAll {arrivals : List (Alloc × Mbuf)} {x : Mbuf}
    (h : x ∈ (processAll fcb arrivals).fragments)
    : x ∈ fcb.fragments ∨ ∃ a ∈ arrivals, a.2 = x := by
  induction arrivals generalizing fcb with
  | nil => exact Or.inl h
  | cons a arrivals ih =>
    rcases ih h with hin | ⟨b, hb, rfl⟩
    . cases mem_fragDefragProcess hin with
      | inl heq => exact Or.inr ⟨a, by simp, heq.symm⟩
      | inr hin => exact Or.inl hin
    . exact Or.inr ⟨b, by simp [hb], rfl⟩

theorem mem_reasmCall {fcb' : Fcb} {x : Mbuf} (hcall : reasmCall m fcb = some fcb')
    (h : x ∈ fcb'.fragments) : x = m ∨ x ∈ fcb.fragments := by
  rcases enqueue_eq_ok (reasmCall_eq_some_iff.mp hcall).1 with ⟨noted, hnote, -, rfl⟩
  have hfragments := (noteEnd_fragments hnote).1
  simp only [insertFragment, List.mem_append, List.mem_cons] at h
  rw [← hfragments]
  rcases h with hbefore | heq | hafter
  . exact Or.inr (mem_findPlace (Or.inl hbefore))
  . exact Or.inl heq
  . exact Or.inr (mem_findPlace (Or.inr hafter))

theorem Arrived.gathered (hm : Arrived m) {arrivals : List (Alloc × Mbuf)}
    (harrivals : ∀ a ∈ arrivals, Arrived a.2)
    (hcall : reasmCall m (processAll fcbCreate arrivals) = some fcb)
    (hr : (fragDefragReasm alloc fcb).2 = some r)
    : ∃ head rest gathered, fcb.fragments = head :: rest ∧ (∀ x ∈ head :: rest, Arrived x)
        ∧ Gathered fcb head rest gathered r := by
  have harrived : ∀ x ∈ fcb.fragments, Arrived x := by
    intro x hx
    rcases mem_reasmCall hcall hx with rfl | hx
    . exact hm
    . rcases mem_processAll hx with hx | ⟨a, ha, rfl⟩
      . cases hx
      . exact harrivals a ha
  rcases sound_fcbCreate.processAll (fun a ha => (harrivals a ha).asDecoded) with ⟨⟨_, hsound⟩, -⟩
  rcases hsound.reasmCall hm.asDecoded hcall with ⟨-, hsound', hmem⟩
  have htiles := hsound'.tiles (reasmCall_eq_some_iff.mp hcall).2
  rcases List.exists_cons_of_ne_nil (List.ne_nil_of_mem hmem) with ⟨head, rest, hfragments⟩
  rcases gathered_of_reasm hsound'.decoded hfragments htiles hr with ⟨gathered, hgathered⟩
  exact ⟨head, rest, gathered, hfragments, hfragments ▸ harrived, hgathered⟩

theorem Arrived.joinsPayloads_iff (hm : Arrived m) {arrivals : List (Alloc × Mbuf)}
    (harrivals : ∀ a ∈ arrivals, Arrived a.2)
    (hcall : reasmCall m (processAll fcbCreate arrivals) = some fcb)
    (hr : (fragDefragReasm alloc fcb).2 = some r)
    : JoinsPayloads fcb.fragments r ↔ ∀ x ∈ fcb.fragments, Unpadded x := by
  rcases hm.gathered harrivals hcall hr with
    ⟨head, rest, gathered, hfragments, harrived, hgathered⟩
  rw [hfragments]
  exact hgathered.joinsPayloads_iff harrived

theorem Arrived.sum_header (hm : Arrived m) {arrivals : List (Alloc × Mbuf)}
    (harrivals : ∀ a ∈ arrivals, Arrived a.2)
    (hcall : reasmCall m (processAll fcbCreate arrivals) = some fcb)
    (hr : (fragDefragReasm alloc fcb).2 = some r)
    : ∃ words, r.IPV4_GET_HLEN = 4 * words
        ∧ OnesComplement.sum 16 ((headerHalves r words).map UInt16.toNat) = 0xFFFF := by
  rcases hm.gathered harrivals hcall hr with ⟨head, rest, gathered, -, harrived, hgathered⟩
  exact hgathered.sum_header (harrived head (List.mem_cons_self ..)).asDecoded

/--
A received fragment brings the payload of its datagram exactly when the frame ends with the
datagram. A packet that is put together when it arrives has the payloads of all fragments exactly
when this holds of each of them.
-/
theorem contributes_iff_unpadded (hm : Received m)
    : (ContributesPayload m ↔ Unpadded m)
      ∧ ∀ (arrivals : List (Alloc × Mbuf)) (fcb : Fcb) (alloc : Alloc) (r : Mbuf),
        (∀ a ∈ arrivals, Received a.2)
          → reasmCall m (processAll fcbCreate arrivals) = some fcb
          → (fragDefragReasm alloc fcb).2 = some r
          → (JoinsPayloads fcb.fragments r ↔ ∀ x ∈ fcb.fragments, Unpadded x) := by
  refine ⟨hm.arrived.contributesPayload_iff, ?_⟩
  intro arrivals fcb alloc r harrivals hcall hr
  exact hm.arrived.joinsPayloads_iff (fun a ha => (harrivals a ha).arrived) hcall hr

def paddedFrame : List UInt8 :=
  linkFrame [0x08, 0] 1 (List.replicate 8 7) (List.replicate 18 0)

theorem exists_paddedFrame
    : ∃ m, Received m ∧ m.frag_len = 26 ∧ m.IPV4_GET_IPLEN = 28 ∧ m.IPV4_GET_HLEN = 20
        ∧ ¬ Unpadded m := by
  have hfields : (fragmentOf paddedFrame 0x1000 0).map
      (fun m => (m.frag_len, m.IPV4_GET_IPLEN, m.IPV4_GET_HLEN, decide (Unpadded m)))
        = some (26, 28, 20, false) := by decide +kernel
  rcases Option.map_eq_some_iff.mp hfields with ⟨m, hm, hfields⟩
  simp only [Prod.mk.injEq, decide_eq_false_iff_not] at hfields
  exact ⟨m, received_of_fragmentOf hm (by decide) (by decide), hfields.1, hfields.2.1,
    hfields.2.2.1, hfields.2.2.2⟩

theorem contributes_iff_unpadded_paddedFrame
    : ∃ m, Received m ∧ (ContributesPayload m ↔ Unpadded m) := by
  rcases exists_paddedFrame with ⟨m, hm, -⟩
  exact ⟨m, hm, (contributes_iff_unpadded hm).1⟩

theorem not_contributesPayload_paddedFrame : ¬ ∀ m, Received m → ContributesPayload m := by
  intro h
  rcases exists_paddedFrame with ⟨m, hm, hlen, hiplen, hhlen, -⟩
  have hcontributes := (h m hm).frag_len
  rw [hlen, hiplen, hhlen] at hcontributes
  exact absurd hcontributes (by decide)

end Payload

section Begun

variable {arrivals : List (DefragEnv × Mbuf)} {env : DefragEnv} {m r : Mbuf} {fcb : Fcb}

def beginAll (fcb : Fcb) : List (DefragEnv × Mbuf) → Fcb
  | [] => fcb
  | (env, mbuf) :: arrivals => beginAll (fragDefragBegin env mbuf fcb).1 arrivals

structure HandedOver (env : DefragEnv) (m : Mbuf) : Prop where
  received : Received m
  small : env.small.toNat + m.pkt.length < 2 ^ 64

theorem HandedOver.packetHw2sw {m' : Mbuf} (h : HandedOver env m)
    (hsw : packetHw2sw env.small m = some m') : Arrived m' :=
  h.received.arrived.packetHw2sw h.small hsw

theorem beginAll_eq_processAll (h : ∀ a ∈ arrivals, HandedOver a.1 a.2)
    : ∃ processed : List (Alloc × Mbuf), (∀ a ∈ processed, Arrived a.2)
        ∧ beginAll fcb arrivals = processAll fcb processed := by
  induction arrivals generalizing fcb with
  | nil => exact ⟨[], by simp, rfl⟩
  | cons a arrivals ih =>
    rcases List.forall_mem_cons.mp h with ⟨ha, harrivals⟩
    rcases @ih (fragDefragBegin a.1 a.2 fcb).1 harrivals with ⟨processed, harrived, heq⟩
    cases hsw : packetHw2sw a.1.small a.2 with
    | none => exact ⟨processed, harrived, by rw [beginAll, heq, fragDefragBegin, hsw]⟩
    | some m =>
      refine ⟨(a.1.alloc, m) :: processed, ?_, by rw [beginAll, heq, fragDefragBegin, hsw, processAll]⟩
      exact List.forall_mem_cons.mpr ⟨ha.packetHw2sw hsw, harrived⟩

theorem joinsPayloads_of_fragDefragBegin (harrivals : ∀ a ∈ arrivals, HandedOver a.1 a.2)
    (hm : HandedOver env m) (h : (fragDefragBegin env m (beginAll fcbCreate arrivals)).2 = some r)
    : ∃ m' fcb, packetHw2sw env.small m = some m'
        ∧ reasmCall m' (beginAll fcbCreate arrivals) = some fcb
        ∧ (JoinsPayloads fcb.fragments r ↔ ∀ x ∈ fcb.fragments, Unpadded x) := by
  rcases beginAll_eq_processAll harrivals with ⟨processed, harrived, heq⟩
  unfold fragDefragBegin at h
  split at h
  . cases h
  . next m' hsw =>
    refine ⟨m', ?_⟩
    dsimp only at h
    generalize hprocessed
      : fragDefragProcess env.alloc m' (beginAll fcbCreate arrivals) = result at h
    have hhandled := fragDefragProcess_handled env.alloc m' (beginAll fcbCreate arrivals)
    rw [hprocessed] at hhandled
    cases hhandled with
    | late => cases h
    | overlapping => cases h
    | cached => cases h
    | reasm hcall =>
      refine ⟨_, hsw, hcall, ?_⟩
      rw [heq] at hcall
      exact (hm.packetHw2sw hsw).joinsPayloads_iff harrived hcall h

end Begun

section Headers

variable {head r : Mbuf} {fcb : Fcb} {alloc : Alloc}

def Rebased (old_pkt new_pkt old new : UInt64) : Prop :=
  if old = 0 then new = 0 else new - new_pkt = old - old_pkt

/-- The header pointers of the first fragment and those of the new packet. -/
structure KeepsHeaders (head r : Mbuf) : Prop where
  ethh : Rebased head.pkt_ptr r.pkt_ptr head.ethh r.ethh
  vlanh : if head.vlan_idx = 0 then r.vlanh = 0 else Rebased head.pkt_ptr r.pkt_ptr head.vlanh r.vlanh
  network_header : Rebased head.pkt_ptr r.pkt_ptr head.network_header r.network_header
  transport_header : Rebased head.pkt_ptr r.pkt_ptr head.transport_header r.transport_header
  payload : Rebased head.pkt_ptr r.pkt_ptr head.payload r.payload

theorem rebased_adjust (old_pkt new_pkt old : UInt64)
    : Rebased old_pkt new_pkt old (if old ≠ 0 then new_pkt + (old - old_pkt) else old) := by
  unfold Rebased
  split
  . next hzero => simp [hzero]
  . next hset => grind

theorem fragDefragSetup_headers (h : fragDefragSetup alloc head fcb = some r)
    : Rebased head.pkt_ptr r.pkt_ptr head.ethh r.ethh
      ∧ r.vlanh = (if head.vlan_idx ≠ 0 then r.pkt_ptr + (0 - head.pkt_ptr) else 0)
      ∧ Rebased head.pkt_ptr r.pkt_ptr head.network_header r.network_header
      ∧ Rebased head.pkt_ptr r.pkt_ptr head.transport_header r.transport_header
      ∧ Rebased head.pkt_ptr r.pkt_ptr head.payload r.payload := by
  unfold fragDefragSetup at h
  dsimp only at h
  split at h
  . cases h
  . split at h
    . cases h
    . cases h
      exact ⟨rebased_adjust _ _ _, rfl, rebased_adjust _ _ _, rebased_adjust _ _ _,
        rebased_adjust _ _ _⟩

theorem Arrived.vlanh (h : Arrived head) (hidx : head.vlan_idx ≠ 0)
    : head.vlanh ≠ 0 := by
  rcases h.defragCall with ⟨base, frame, n, hmem, hat, hcall⟩
  have hheader := hcall.header.header
  have htotal := hcall.header.total
  have hfits := hcall.header.fits
  cases hcall.link with
  | untagged _ hzero _ => exact absurd hzero hidx
  | tagged _ _ hvlanh => exact hvlanh ▸ hmem.add_ne_zero (k := 14) (by omega)

theorem Arrived.keepsHeaders_iff (hhead : Arrived head)
    (h : fragDefragSetup alloc head fcb = some r) : KeepsHeaders head r ↔ head.vlan_idx = 0 := by
  rcases fragDefragSetup_headers h with ⟨hethh, hvlanh, hnetwork, htransport, hpayload⟩
  constructor
  . intro hkeeps
    by_contra hidx
    have htag := hhead.vlanh hidx
    have hplace := hkeeps.vlanh
    rw [if_neg hidx, Rebased, if_neg htag, hvlanh, if_pos hidx] at hplace
    apply htag
    grind
  . intro hidx
    rw [hidx] at hvlanh
    refine ⟨hethh, ?_, hnetwork, htransport, hpayload⟩
    rw [if_pos hidx]
    exact hvlanh

/-- The headers of a first fragment are kept exactly when it has no tag. -/
theorem keepsHeaders_iff_untagged (hhead : Received head)
    (h : fragDefragSetup alloc head fcb = some r) : KeepsHeaders head r ↔ head.vlan_idx = 0 :=
  hhead.arrived.keepsHeaders_iff h

def taggedFrame : List UInt8 :=
  linkFrame [0x81, 0, 0, 1, 0x08, 0] 0x2000 (List.replicate 8 7) []

theorem exists_taggedFrame
    : ∃ head fcb r, Received head ∧ head.vlan_idx = 1 ∧ head.vlanh = 0x100e ∧ head.pkt_ptr = 0x1000
        ∧ fragDefragSetup ⟨true, 0x8000⟩ head fcb = some r
        ∧ r.vlanh = 0x7000 ∧ r.pkt_ptr = 0x8000 := by
  have hfields : ((fragmentOf taggedFrame 0x1000 0).bind fun head =>
      (fragDefragSetup ⟨true, 0x8000⟩ head fcbCreate).map fun r =>
        (head.vlan_idx, head.vlanh, head.pkt_ptr, r.vlanh, r.pkt_ptr))
          = some (1, 0x100e, 0x1000, 0x7000, 0x8000) := by
    decide +kernel
  rcases Option.bind_eq_some_iff.mp hfields with ⟨head, hhead, hfields⟩
  rcases Option.map_eq_some_iff.mp hfields with ⟨r, hr, hfields⟩
  simp only [Prod.mk.injEq] at hfields
  exact ⟨head, fcbCreate, r, received_of_fragmentOf hhead (by decide) (by decide), hfields.1,
    hfields.2.1, hfields.2.2.1, hr, hfields.2.2.2.1, hfields.2.2.2.2⟩

theorem keepsHeaders_iff_untagged_taggedFrame
    : ∃ head fcb r, Received head ∧ fragDefragSetup ⟨true, 0x8000⟩ head fcb = some r
        ∧ (KeepsHeaders head r ↔ head.vlan_idx = 0) := by
  rcases exists_taggedFrame with ⟨head, fcb, r, hhead, -, -, -, hr, -, -⟩
  exact ⟨head, fcb, r, hhead, hr, keepsHeaders_iff_untagged hhead hr⟩

theorem not_keepsHeaders_taggedFrame
    : ¬ ∀ (head r : Mbuf) (fcb : Fcb) (alloc : Alloc), Received head
        → fragDefragSetup alloc head fcb = some r → KeepsHeaders head r := by
  intro h
  rcases exists_taggedFrame with ⟨head, fcb, r, hhead, hidx, hvlanh, hptr, hr, hnew, hbuffer⟩
  have hplace := (h head r fcb ⟨true, 0x8000⟩ hhead hr).vlanh
  rw [if_neg (by rw [hidx]; decide), Rebased, hvlanh, hptr, hnew, hbuffer] at hplace
  exact absurd hplace (by decide)

end Headers

end SecFw.Decode
