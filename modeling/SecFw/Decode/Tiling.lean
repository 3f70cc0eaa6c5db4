import SecFw.Decode.FragList

/-!
This module contains what holds of a control block in every order of arrival: the fragments are in
order, they lie inside of the datagram, and a packet is only made from fragments that tile it.
-/

namespace SecFw.Decode

open Segment (Ordered Before Proper Tiles Within)

section Queue

variable {m : Mbuf} {fcb fcb' : Fcb} {done : Bool}

structure Sound (done : Bool) (fcb : Fcb) : Prop where
  -- `done` tells that a packet was returned, `meat` is not reset then
  decoded : ∀ x ∈ fcb.fragments, AsDecoded x
  ordered : Ordered fcb.fragments
  tail_eq : fcb.fragments_tail = fcb.fragments.getLast?
  total_nonneg : 0 ≤ fcb.total_fraglen
  within : Within 0 fcb.fragments fcb.total_fraglen
  meat_eq : fcb.meat
    = (if done then fcb.total_fraglen else 0) + (fcb.fragments.map Segment.length).sum
  last : done = true → fcb.last_in &&& DEFRAG_LAST_IN ≠ 0

theorem sound_fcbCreate : Sound false fcbCreate where
  decoded := by simp [fcbCreate]
  ordered := Ordered.nil
  tail_eq := rfl
  total_nonneg := le_rfl
  within := by simp [Within, fcbCreate]
  meat_eq := rfl
  last := by simp

theorem AsDecoded.proper (h : AsDecoded m) : Proper m := proper_iff.mpr h.frag_len

theorem Sound.noted (h : Sound done fcb) (hm : AsDecoded m) (hnoted : EndNoted m fcb fcb')
    : Sound done fcb' ∧ m.frag_offset + m.frag_len ≤ fcb'.total_fraglen := by
  have hoffset := hm.frag_offset
  have hlen := hm.frag_len
  cases hnoted with
  | last hmf hlast hend =>
    cases done with
    | true => exact absurd hlast (h.last rfl)
    | false =>
      refine ⟨⟨h.decoded, h.ordered, h.tail_eq, ?_, ?_, h.meat_eq, by simp⟩, le_rfl⟩
      . dsimp only
        omega
      . exact h.within.mono le_rfl hend
  | longer hmf hlast hend =>
    cases done with
    | true => exact absurd hlast (h.last rfl)
    | false =>
      refine ⟨⟨h.decoded, h.ordered, h.tail_eq, ?_, ?_, h.meat_eq, by simp⟩, le_rfl⟩
      . dsimp only
        omega
      . exact h.within.mono le_rfl hend.le
  | inside hmf hend => exact ⟨h, hend⟩

theorem Sound.insertFragment (h : Sound done fcb) (hm : AsDecoded m)
    (hend : m.frag_offset + m.frag_len ≤ fcb.total_fraglen)
    (hoverlaps : (findPlace fcb m.frag_offset).overlaps m.frag_offset
      (m.frag_offset + m.frag_len) = false)
    : Sound done (insertFragment m (findPlace fcb m.frag_offset) fcb) := by
  have hperm := perm_insertFragment m h.tail_eq
  have hinorder := InOrder.insertFragment ⟨h.ordered, h.tail_eq⟩ hm.proper hoverlaps
  constructor
  case decoded =>
    intro x hx
    cases List.mem_cons.mp (hperm.mem_iff.mp hx) with
    | inl heq => exact heq ▸ hm
    | inr hx => exact h.decoded x hx
  case ordered => exact hinorder.ordered
  case tail_eq => exact hinorder.tail_eq
  case total_nonneg => exact h.total_nonneg
  case within =>
    intro x hx
    cases List.mem_cons.mp (hperm.mem_iff.mp hx) with
    | inl heq =>
      rw [heq]
      exact ⟨hm.frag_offset, hend⟩
    | inr hx => exact h.within x hx
  case meat_eq =>
    rw [(hperm.map Segment.length).sum_eq, List.map_cons, List.sum_cons, length_eq_frag_len]
    simp only [Decode.insertFragment, h.meat_eq]
    omega
  case last =>
    intro hdone
    have hlast := h.last hdone
    simp only [Decode.insertFragment]
    split
    . rwa [or_first_and_last]
    . exact hlast

theorem Sound.enqueue (h : Sound done fcb) (hm : AsDecoded m) (henqueue : enqueue m fcb = .ok fcb')
    : Sound done fcb' ∧ m ∈ fcb'.fragments := by
  rcases enqueue_eq_ok henqueue with ⟨noted, hnote, hoverlaps, rfl⟩
  have hnoted := h.noted hm (noteEnd_noted hnote)
  refine ⟨hnoted.1.insertFragment hm hnoted.2 hoverlaps, ?_⟩
  simp [Decode.insertFragment]

theorem Sound.tiles (h : Sound false fcb) (hcomplete : fcb.Complete)
    : Tiles 0 fcb.fragments fcb.total_fraglen := by
  apply h.ordered.tiles h.within h.total_nonneg
  have hmeat := h.meat_eq
  have := hcomplete.meat
  simp only [Bool.false_eq_true, ↓reduceIte, zero_add] at hmeat
  omega

theorem Sound.not_complete (h : Sound true fcb) (hne : fcb.fragments ≠ []) : ¬ fcb.Complete := by
  intro hcomplete
  have hmeat := h.meat_eq
  have := hcomplete.meat
  have hpos : 0 < (fcb.fragments.map Segment.length).sum := by
    apply List.sum_pos
    . intro len hlen
      rcases List.mem_map.mp hlen with ⟨x, hx, rfl⟩
      have hproper := h.ordered.proper x hx
      simp only [Proper] at hproper
      simp only [Segment.length]
      omega
    . simpa using hne
  simp only [↓reduceIte] at hmeat
  omega

theorem Sound.reasmCall (h : Sound done fcb) (hm : AsDecoded m)
    (hcall : reasmCall m fcb = some fcb')
    : done = false ∧ Sound false fcb' ∧ m ∈ fcb'.fragments := by
  rcases reasmCall_eq_some_iff.mp hcall with ⟨henqueue, hcomplete⟩
  rcases h.enqueue hm henqueue with ⟨hsound, hmem⟩
  cases done with
  | true => exact absurd hcomplete (hsound.not_complete (List.ne_nil_of_mem hmem))
  | false => exact ⟨rfl, hsound, hmem⟩

theorem Completed.sound (h : Completed fcb) (hnonneg : 0 ≤ fcb.total_fraglen) : Sound true fcb where
  decoded := by simp [h.fragments]
  ordered := by
    rw [h.fragments]
    exact Ordered.nil
  tail_eq := by rw [h.fragments_tail, h.fragments, List.getLast?_nil]
  total_nonneg := hnonneg
  within := by simp [Within, h.fragments]
  meat_eq := by simp [h.fragments, h.meat]
  last := by
    intro _
    rw [h.last_in]
    decide

theorem Sound.process (h : Sound done fcb) (hm : AsDecoded m) (alloc : Alloc)
    : if (fragDefragProcess alloc m fcb).ret.isSome then
        done = false ∧ Sound true (fragDefragProcess alloc m fcb).fcb
      else
        Sound done (fragDefragProcess alloc m fcb).fcb := by
  have hhandled := fragDefragProcess_handled alloc m fcb
  generalize fragDefragProcess alloc m fcb = processed at *
  cases hhandled with
  | late => exact h
  | overlapping _ hnote => exact (h.noted hm (noteEnd_noted hnote)).1
  | cached henqueue => exact (h.enqueue hm henqueue).1
  | @reasm fcb' hcall =>
    rcases h.reasmCall hm hcall with ⟨hdone, hsound, -⟩
    have hcomplete := (reasmCall_eq_some_iff.mp hcall).2
    dsimp only
    split
    . next hsome =>
      rcases Option.isSome_iff_exists.mp hsome with ⟨r, hr⟩
      rw [fragDefragReasm_some hr]
      refine ⟨hdone, Completed.sound ?_ hsound.total_nonneg⟩
      exact ⟨hcomplete.last_in, hcomplete.meat, rfl, rfl⟩
    . next hnone =>
      rcases fragDefragReasm_cases alloc fcb' with ⟨-, hkept⟩ | ⟨r, hr, -⟩
      . rw [hkept, hdone]
        exact hsound
      . exact absurd (by rw [hr]; rfl) hnone

theorem Sound.processAll {arrivals : List (Alloc × Mbuf)} (h : Sound done fcb)
    (hdecoded : ∀ a ∈ arrivals, AsDecoded a.2)
    : (∃ done', Sound done' (processAll fcb arrivals))
      ∧ (packets fcb arrivals).length + (if done then 1 else 0) ≤ 1 := by
  induction arrivals generalizing done fcb with
  | nil =>
    refine ⟨⟨done, h⟩, ?_⟩
    cases done with
    | true => exact le_rfl
    | false => exact Nat.zero_le 1
  | cons a arrivals ih =>
    rcases List.forall_mem_cons.mp hdecoded with ⟨ha, hdecoded⟩
    have hprocess := h.process ha a.1
    simp only [Decode.processAll, packets, List.length_append]
    cases hret : (fragDefragProcess a.1 a.2 fcb).ret with
    | none =>
      rw [hret] at hprocess
      have hrest := ih hprocess hdecoded
      refine ⟨hrest.1, ?_⟩
      simpa using hrest.2
    | some r =>
      rw [hret] at hprocess
      have hrest := ih hprocess.2 hdecoded
      refine ⟨hrest.1, ?_⟩
      rw [hprocess.1]
      simpa using hrest.2

end Queue

section Packet

variable {m head r : Mbuf} {rest : List Mbuf} {fcb : Fcb} {alloc : Alloc}

structure Copy where
  pos : Nat
  size : Nat
  deriving DecidableEq

instance : Segment Copy where
  start c := c.pos
  stop c := c.pos + c.size

def fragmentCopies (pkt_totallen : UInt16) : List Mbuf → List Copy
  | [] => []
  | next :: rest =>
    ⟨pkt_totallen.toNat, next.frag_len.toNat⟩
      :: fragmentCopies (pkt_totallen + UInt16.ofInt next.frag_len) rest

def reasmCopies (head : Mbuf) (rest : List Mbuf) : List Copy :=
  ⟨0, head.pkt_totallen.toNat⟩ :: fragmentCopies head.pkt_totallen rest

def reasmAllocSize (head : Mbuf) (fcb : Fcb) : UInt32 :=
  (UInt64.ofInt fcb.total_fraglen
    + (head.network_header - head.pkt_ptr + UInt64.ofNat head.IPV4_GET_HLEN)).toUInt32

/-- The packet `r` that is made from the fragments `head` and `rest` fills its buffer. -/
structure FillsBuffer (fcb : Fcb) (head : Mbuf) (rest : List Mbuf) (r : Mbuf) : Prop where
  copies : Tiles 0 (reasmCopies head rest) (reasmAllocSize head fcb).toNat
  copied : ((reasmCopies head rest).map Copy.size).sum = (reasmAllocSize head fcb).toNat
  fits : (reasmAllocSize head fcb).toNat
    ≤ (MEM_POOL_LARGE_BUFFER_SIZE - MEM_POOL_SLICE_CTRL_SIZE).toNat
  pkt : r.pkt.length = (reasmAllocSize head fcb).toNat
  iplen : r.IPV4_GET_IPLEN.toNat = head.IPV4_GET_HLEN + fcb.total_fraglen

theorem AsDecoded.length_fragBytes (h : AsDecoded m) : (fragBytes m).length = m.frag_len.toNat := by
  have hlen := h.frag_len
  have htotal := h.pkt_totallen
  have hpkt := h.pkt
  rw [fragBytes, List.length_take, List.length_drop]
  omega

theorem toNat_ofInt16 {n : Int} (hnonneg : 0 ≤ n) (hlt : n < 2 ^ 16)
    : (UInt16.ofInt n).toNat = n.toNat := by
  rw [UInt16.ofInt, UInt16.toNat_ofNat']
  omega

theorem toNat_add_ofInt16 (total : UInt16) {n : Int} (hnonneg : 0 ≤ n)
    (hlt : total.toNat + n < 2 ^ 16) : (total + UInt16.ofInt n).toNat = total.toNat + n.toNat := by
  rw [UInt16.toNat_add, toNat_ofInt16 hnonneg (by omega)]
  omega

theorem sum_length_nonneg (hdecoded : ∀ x ∈ rest, AsDecoded x)
    : 0 ≤ (rest.map Segment.length).sum := by
  apply List.sum_nonneg
  intro len hlen
  rcases List.mem_map.mp hlen with ⟨x, hx, rfl⟩
  have := (hdecoded x hx).frag_len
  simp only [Segment.length, Segment.start, Segment.stop]
  omega

theorem fragmentCopies_tiles (total : UInt16) (hdecoded : ∀ x ∈ rest, AsDecoded x)
    (hlt : total.toNat + (rest.map Segment.length).sum < 2 ^ 16)
    : Tiles total.toNat (fragmentCopies total rest)
        (total.toNat + (rest.map Segment.length).sum) := by
  induction rest generalizing total with
  | nil => simp [fragmentCopies, Tiles]
  | cons next rest ih =>
    rcases List.forall_mem_cons.mp hdecoded with ⟨hnext, hdecoded⟩
    have hlen := hnext.frag_len
    have hsum := sum_length_nonneg hdecoded
    rw [List.map_cons, List.sum_cons, length_eq_frag_len] at hlt ⊢
    have hadd := toNat_add_ofInt16 total hlen.le (by omega)
    have hrest := ih (total + UInt16.ofInt next.frag_len) hdecoded (by omega)
    refine ⟨rfl, ?_⟩
    have hstart : Segment.stop (⟨total.toNat, next.frag_len.toNat⟩ : Copy)
        = ((total + UInt16.ofInt next.frag_len).toNat : Int) := by
      rw [hadd]
      rfl
    have hstop : ((total + UInt16.ofInt next.frag_len).toNat : Int)
        + (rest.map Segment.length).sum
          = total.toNat + (next.frag_len + (rest.map Segment.length).sum) := by
      omega
    rw [hstart, ← hstop]
    exact hrest

theorem foldl_appendFragment_pkt (r : Mbuf) (hdecoded : ∀ x ∈ rest, AsDecoded x)
    (htotal : r.pkt_totallen.toNat = r.pkt.length)
    (hlt : r.pkt.length + (rest.map Segment.length).sum < 2 ^ 16)
    : (rest.foldl appendFragment r).pkt = r.pkt ++ (rest.map fragBytes).flatten
      ∧ (rest.foldl appendFragment r).networkOffset = r.networkOffset := by
  induction rest generalizing r with
  | nil => simp
  | cons next rest ih =>
    rcases List.forall_mem_cons.mp hdecoded with ⟨hnext, hdecoded⟩
    have hlen := hnext.frag_len
    have hsum := sum_length_nonneg hdecoded
    rw [List.map_cons, List.sum_cons, length_eq_frag_len] at hlt
    have happend : (appendFragment r next).pkt = r.pkt ++ fragBytes next := by
      simp only [appendFragment, appendPacket, htotal, memcpyAt_end]
    have hlength : (appendFragment r next).pkt.length = r.pkt.length + next.frag_len.toNat := by
      rw [happend, List.length_append, hnext.length_fragBytes]
    have hadd : (appendFragment r next).pkt_totallen.toNat = (appendFragment r next).pkt.length := by
      rw [hlength, ← htotal]
      exact toNat_add_ofInt16 r.pkt_totallen hlen.le (by omega)
    have hrest := ih (appendFragment r next) hdecoded hadd (by omega)
    rw [List.foldl_cons, List.map_cons, List.flatten_cons, ← List.append_assoc, ← happend]
    exact hrest

theorem fragDefragSetup_eq_some {new_mb : Mbuf} (h : fragDefragSetup alloc head fcb = some new_mb)
    (hheader : head.network_header ≠ 0)
    : reasmAllocSize head fcb ≤ MEM_POOL_LARGE_BUFFER_SIZE - MEM_POOL_SLICE_CTRL_SIZE
      ∧ new_mb.pkt = [] ∧ new_mb.pkt_totallen = 0 ∧ new_mb.networkOffset = head.networkOffset := by
  unfold fragDefragSetup at h
  dsimp only at h
  split at h
  . cases h
  . split at h
    . cases h
    . next hbuffer =>
      cases h
      refine ⟨?_, rfl, rfl, ?_⟩
      . apply UInt32.not_lt.mp
        intro hlarge
        apply hbuffer
        rw [mem8kAlloc]
        exact if_pos hlarge
      . have hcancel (a b : UInt64) : a + b - a = b := by grind
        simp only [packetHeaderPtrAdjust, Mbuf.networkOffset, hheader, ne_eq, not_false_eq_true,
          ↓reduceIte, hcancel]

structure Gathered (fcb : Fcb) (head : Mbuf) (rest : List Mbuf) (gathered r : Mbuf) : Prop where
  pkt : gathered.pkt = head.pkt ++ (rest.map fragBytes).flatten
  networkOffset : gathered.networkOffset = head.networkOffset
  hlen : gathered.IPV4_GET_HLEN = head.IPV4_GET_HLEN
  total : fcb.total_fraglen = head.frag_len + (rest.map Segment.length).sum
  size : (reasmAllocSize head fcb).toNat
    = head.networkOffset + head.IPV4_GET_HLEN + fcb.total_fraglen
  fits : (reasmAllocSize head fcb).toNat
    ≤ (MEM_POOL_LARGE_BUFFER_SIZE - MEM_POOL_SLICE_CTRL_SIZE).toNat
  eq : r = finishHeader gathered (head.IPV4_GET_HLEN + fcb.total_fraglen) head.IPV4_GET_HLEN

theorem toNat_reasmAllocSize (hhead : AsDecoded head) (hnonneg : 0 ≤ fcb.total_fraglen)
    (hlen : head.IPV4_GET_HLEN + fcb.total_fraglen ≤ IPV4_PKTLEN_MAX)
    : (reasmAllocSize head fcb).toNat
        = head.networkOffset + head.IPV4_GET_HLEN + fcb.total_fraglen := by
  have hoffset : (head.network_header - head.pkt_ptr).toNat = head.networkOffset := rfl
  have htotal := hhead.pkt_totallen
  have hfrag := hhead.frag_len
  have hlt := head.pkt_totallen.toNat_lt
  have htoNat : (UInt64.ofInt fcb.total_fraglen).toNat = fcb.total_fraglen.toNat := by
    rw [UInt64.ofInt, UInt64.toNat_ofNat']
    simp only [IPV4_PKTLEN_MAX] at hlen
    omega
  simp only [IPV4_PKTLEN_MAX] at hlen
  rw [reasmAllocSize, UInt64.toNat_toUInt32, UInt64.toNat_add, UInt64.toNat_add,
    UInt64.toNat_ofNat', hoffset, htoNat]
  omega

theorem gathered_of_reasm (hdecoded : ∀ x ∈ fcb.fragments, AsDecoded x)
    (hfragments : fcb.fragments = head :: rest)
    (htiles : Tiles 0 fcb.fragments fcb.total_fraglen)
    (hr : (fragDefragReasm alloc fcb).2 = some r)
    : ∃ gathered, Gathered fcb head rest gathered r := by
  have hlimit : (MEM_POOL_LARGE_BUFFER_SIZE - MEM_POOL_SLICE_CTRL_SIZE).toNat = 8168 := by decide
  rw [hfragments] at hdecoded htiles
  rcases List.forall_mem_cons.mp hdecoded with ⟨hhead, hrest⟩
  have hsum := htiles.sum_length
  rw [List.map_cons, List.sum_cons, length_eq_frag_len] at hsum
  have hnonneg := sum_length_nonneg hrest
  have hpos := hhead.frag_len
  have htotallen := hhead.pkt_totallen
  have hpkt := hhead.pkt
  unfold fragDefragReasm at hr
  rw [hfragments] at hr
  dsimp only at hr
  split at hr
  . cases hr
  . next hlen =>
    split at hr
    . cases hr
    . next new_mb hsetup =>
      rw [not_lt] at hlen
      have hsize := toNat_reasmAllocSize hhead (by omega) hlen
      rcases fragDefragSetup_eq_some hsetup hhead.network_header with
        ⟨hfits, hnew, hzero, hoffset⟩
      rw [UInt32.le_iff_toNat_le, hlimit] at hfits
      have hcopy : appendPacket new_mb (head.pkt.take head.pkt_totallen.toNat) head.pkt_totallen
          = { new_mb with pkt := head.pkt, pkt_totallen := head.pkt_totallen } := by
        simp [appendPacket, hnew, hzero, memcpyAt, ← hpkt]
      rw [hcopy] at hr
      have hfold := foldl_appendFragment_pkt
        { new_mb with pkt := head.pkt, pkt_totallen := head.pkt_totallen } hrest hpkt.symm
        (by dsimp only; omega)
      generalize rest.foldl appendFragment
        { new_mb with pkt := head.pkt, pkt_totallen := head.pkt_totallen } = gathered at hr hfold
      have hgathered : gathered.networkOffset = head.networkOffset := hfold.2.trans hoffset
      refine ⟨gathered, hfold.1, hgathered, ?_, by omega, hsize, hlimit ▸ hfits, ?_⟩
      . simp only [Mbuf.IPV4_GET_HLEN, Mbuf.ipByte, hgathered, hfold.1, Nat.add_zero]
        rw [List.getD_append _ _ _ _ (by omega)]
      . exact (Option.some.inj hr).symm

theorem length_flatten_fragBytes (hdecoded : ∀ x ∈ rest, AsDecoded x)
    : ((rest.map fragBytes).flatten.length : Int) = (rest.map Segment.length).sum := by
  induction rest with
  | nil => rfl
  | cons next rest ih =>
    rcases List.forall_mem_cons.mp hdecoded with ⟨hnext, hdecoded⟩
    have hlen := hnext.frag_len
    rw [List.map_cons, List.map_cons, List.flatten_cons, List.length_append, List.sum_cons,
      length_eq_frag_len, hnext.length_fragBytes, Nat.cast_add, ih hdecoded]
    omega

theorem Gathered.fillsBuffer {gathered : Mbuf} (h : Gathered fcb head rest gathered r)
    (hdecoded : ∀ x ∈ head :: rest, AsDecoded x) : FillsBuffer fcb head rest r := by
  have hlimit : (MEM_POOL_LARGE_BUFFER_SIZE - MEM_POOL_SLICE_CTRL_SIZE).toNat = 8168 := by decide
  rcases List.forall_mem_cons.mp hdecoded with ⟨hhead, hrest⟩
  have hsize := h.size
  have hfits := h.fits
  have htotal := h.total
  have htotallen := hhead.pkt_totallen
  have hpkt := hhead.pkt
  have hmin := hhead.hlen
  have hpos := hhead.frag_len
  have hnonneg := sum_length_nonneg hrest
  have hflatten := length_flatten_fragBytes hrest
  have hcopies : Tiles 0 (reasmCopies head rest) (reasmAllocSize head fcb).toNat := by
    have htiles := fragmentCopies_tiles head.pkt_totallen hrest (by omega)
    have hend : ((reasmAllocSize head fcb).toNat : Int)
        = head.pkt_totallen.toNat + (rest.map Segment.length).sum := by omega
    rw [hend]
    refine ⟨rfl, ?_⟩
    have hstop : Segment.stop (⟨0, head.pkt_totallen.toNat⟩ : Copy)
        = (head.pkt_totallen.toNat : Int) := by simp [Segment.stop]
    rwa [hstop]
  have hlength : gathered.networkOffset + 20 ≤ gathered.pkt.length := by
    rw [h.pkt, h.networkOffset, List.length_append]
    omega
  rcases finishHeader_spec (head.IPV4_GET_HLEN + fcb.total_fraglen) head.IPV4_GET_HLEN hlength with
    ⟨hwrite, hiplen⟩
  rw [← h.eq] at hwrite hiplen
  constructor
  case copies => exact hcopies
  case copied =>
    have hsum := hcopies.sum_length
    have hmap : (reasmCopies head rest).map Segment.length
        = ((reasmCopies head rest).map Copy.size).map Nat.cast := by
      rw [List.map_map]
      apply List.map_congr_left
      intro c _
      simp only [Segment.length, Segment.start, Segment.stop, Function.comp_apply]
      omega
    rw [hmap, ← Nat.cast_list_sum] at hsum
    omega
  case fits => exact hfits
  case pkt =>
    rw [hwrite.length_eq, h.pkt, List.length_append]
    omega
  case iplen =>
    rw [hiplen, toNat_ofInt16 (by omega) (by omega)]
    omega

end Packet

/--
In every order of arrival `Frag_defrag_reasm` is called with a tiling of the datagram, the packet that
it makes fills its buffer, and there is no second packet.
-/
theorem reasm_of_tiling (arrivals : List (Alloc × Mbuf))
    (hdecoded : ∀ a ∈ arrivals, AsDecoded a.2)
    : (packets fcbCreate arrivals).length ≤ 1
      ∧ ∀ (mbuf : Mbuf) (fcb : Fcb), AsDecoded mbuf
        → reasmCall mbuf (processAll fcbCreate arrivals) = some fcb
        → Ordered fcb.fragments ∧ Tiles 0 fcb.fragments fcb.total_fraglen
          ∧ ∀ (alloc : Alloc) (r : Mbuf), (fragDefragReasm alloc fcb).2 = some r
            → ∃ head rest, fcb.fragments = head :: rest ∧ FillsBuffer fcb head rest r := by
  rcases sound_fcbCreate.processAll hdecoded with ⟨⟨done, hsound⟩, hcount⟩
  refine ⟨by simpa using hcount, ?_⟩
  intro mbuf fcb hmbuf hcall
  rcases hsound.reasmCall hmbuf hcall with ⟨-, hsound', hmem⟩
  have htiles := hsound'.tiles (reasmCall_eq_some_iff.mp hcall).2
  refine ⟨hsound'.ordered, htiles, ?_⟩
  intro alloc r hr
  rcases List.exists_cons_of_ne_nil (List.ne_nil_of_mem hmem) with ⟨head, rest, hfragments⟩
  rcases gathered_of_reasm hsound'.decoded hfragments htiles hr with ⟨gathered, hgathered⟩
  exact ⟨head, rest, hfragments, hgathered.fillsBuffer (hfragments ▸ hsound'.decoded)⟩

theorem reasm_of_tiling_lastEight
    : ∃ fcb r, reasmCall lastEight (processAll fcbCreate [(⟨true, 8192⟩, firstSixteen)]) = some fcb
      ∧ (fragDefragReasm ⟨true, 8192⟩ fcb).2 = some r
      ∧ Ordered fcb.fragments ∧ Tiles 0 fcb.fragments fcb.total_fraglen
      ∧ ∃ head rest, fcb.fragments = head :: rest ∧ FillsBuffer fcb head rest r := by
  have hcall : (reasmCall lastEight
      (processAll fcbCreate [(⟨true, 8192⟩, firstSixteen)])).isSome = true := by decide
  rcases Option.isSome_iff_exists.mp hcall with ⟨fcb, hfcb⟩
  have hret : ((reasmCall lastEight (processAll fcbCreate [(⟨true, 8192⟩, firstSixteen)])).bind
      fun fcb => (fragDefragReasm ⟨true, 8192⟩ fcb).2).isSome = true := by decide +kernel
  rw [hfcb, Option.bind_some] at hret
  rcases Option.isSome_iff_exists.mp hret with ⟨r, hr⟩
  have hall := (reasm_of_tiling [(⟨true, 8192⟩, firstSixteen)] (by decide)).2 lastEight fcb
    (by decide) hfcb
  exact ⟨fcb, r, hfcb, hr, hall.1, hall.2.1, hall.2.2 ⟨true, 8192⟩ r hr⟩

end SecFw.Decode
