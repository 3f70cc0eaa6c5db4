import SecFw.Packets.Calls
import SecFw.Decode.Bounds

/-!
This module contains the proof that every packet is disposed of exactly once: after each call it is
in one fragment list, in one slot of a ring, or given back together with its buffers.
-/

namespace SecFw.Packets

open HashChains Decode

def cachedCount (s : State) (p : Packet) : Nat :=
  total (fun fcb => fcb.queue.fragments.count p) s.table

def pendingCount (s : State) (p : Packet) : Nat :=
  ∑ port ∈ Finset.range OCT_PHY_PORT_MAX, (s.tx_done port).pending.count p

structure Accounts (s : State) (p : Packet) (back : Nat) : Prop where
  mbuf : s.ledger.mbuf p = back
  hw : s.ledger.hw p = match s.origin p, (s.mbuf p).pkt_space with
    | .PKTBUF_HW, .PKTBUF_HW => back
    -- the buffer was exchanged for one in software
    | .PKTBUF_HW, .PKTBUF_SW => 1
    | .PKTBUF_SW, _ => 0
  sw : s.ledger.sw p = match (s.mbuf p).pkt_space with
    | .PKTBUF_HW => 0
    | .PKTBUF_SW => back
  origin : s.origin p = .PKTBUF_SW → (s.mbuf p).pkt_space = .PKTBUF_SW

theorem Accounts.congr {s s' : State} {p : Packet} {back : Nat} (h : Accounts s p back)
    (hledger : s'.ledger = s.ledger) (horigin : s'.origin p = s.origin p)
    (hspace : (s'.mbuf p).pkt_space = (s.mbuf p).pkt_space) : Accounts s' p back := by
  constructor
  . rw [hledger]
    exact h.mbuf
  . rw [hledger, horigin, hspace]
    exact h.hw
  . rw [hledger, hspace]
    exact h.sw
  . rw [horigin, hspace]
    exact h.origin

theorem Accounts.origin_eq {s : State} {p : Packet} {back : Nat} (h : Accounts s p back)
    (hspace : (s.mbuf p).pkt_space = .PKTBUF_HW) : s.origin p = .PKTBUF_HW := by
  cases horigin : s.origin p with
  | PKTBUF_HW => rfl
  | PKTBUF_SW =>
    have := h.origin horigin
    rw [hspace] at this
    cases this

/-- The three states of a packet. -/
inductive Disposed (s : State) (p : Packet) : Prop where
  | cached (hcached : cachedCount s p = 1) (hpending : pendingCount s p = 0)
      (haccounts : Accounts s p 0)
  | pending (hcached : cachedCount s p = 0) (hpending : pendingCount s p = 1)
      (haccounts : Accounts s p 0)
  | released (hcached : cachedCount s p = 0) (hpending : pendingCount s p = 0)
      (haccounts : Accounts s p 1)

structure Balanced (s : State) (held : List Packet) : Prop where
  counted : ∀ p, cachedCount s p + pendingCount s p + s.ledger.mbuf p + held.count p
    = if p < s.made then 1 else 0
  accounts : ∀ p, p < s.made → Accounts s p (s.ledger.mbuf p)
  unmade : ∀ p, s.made ≤ p → s.ledger.hw p = 0 ∧ s.ledger.sw p = 0
  input_port : ∀ p, p < s.made → (s.mbuf p).input_port.toNat < OCT_PHY_PORT_MAX
  entries : ∀ port, port < OCT_PHY_PORT_MAX →
    (s.tx_done port).tx_entries.toNat = (s.tx_done port).pending.length

namespace Balanced

variable {s : State} {held held' : List Packet} {p q : Packet}

theorem held_lt (h : Balanced s held) (hp : p ∈ held) : p < s.made := by
  have hcounted := h.counted p
  have hpos := List.count_pos_iff.mpr hp
  split at hcounted
  . next hmade => exact hmade
  . omega

theorem held_made (h : Balanced s (p :: held)) : p < s.made ∧ s.ledger.mbuf p = 0 := by
  have hcounted := h.counted p
  rw [List.count_cons_self] at hcounted
  split at hcounted
  . next hmade => exact ⟨hmade, by omega⟩
  . omega

theorem disposed (h : Balanced s []) (hp : p < s.made) : Disposed s p := by
  have hcounted := h.counted p
  have haccounts := h.accounts p hp
  rw [if_pos hp, List.count_nil] at hcounted
  have hcases : (cachedCount s p = 1 ∧ pendingCount s p = 0 ∧ s.ledger.mbuf p = 0)
      ∨ (cachedCount s p = 0 ∧ pendingCount s p = 1 ∧ s.ledger.mbuf p = 0)
      ∨ (cachedCount s p = 0 ∧ pendingCount s p = 0 ∧ s.ledger.mbuf p = 1) := by
    omega
  rcases hcases with ⟨hcached, hpending, hback⟩ | ⟨hcached, hpending, hback⟩
    | ⟨hcached, hpending, hback⟩
  . rw [hback] at haccounts
    exact .cached hcached hpending haccounts
  . rw [hback] at haccounts
    exact .pending hcached hpending haccounts
  . rw [hback] at haccounts
    exact .released hcached hpending haccounts

theorem setMbuf {mbuf : Mbuf} (h : Balanced s held) (hsource : SameSource (s.mbuf p) mbuf)
    : Balanced (s.setMbuf p mbuf) held := by
  have hmbuf (q : Packet) : SameSource (s.mbuf q) ((s.setMbuf p mbuf).mbuf q) := by
    by_cases hq : q = p
    . subst hq
      simpa [State.setMbuf] using hsource
    . simp only [State.setMbuf]
      rw [Function.update_of_ne hq]
      exact ⟨rfl, rfl⟩
  refine ⟨h.counted, ?_, h.unmade, ?_, h.entries⟩
  . intro q hq
    exact (h.accounts q hq).congr rfl rfl (hmbuf q).pkt_space
  . intro q hq
    rw [(hmbuf q).input_port]
    exact h.input_port q hq

theorem giveBack {ledger : Ledger} (h : Balanced s (p :: held))
    (hother : ∀ q, q ≠ p → ledger.mbuf q = s.ledger.mbuf q ∧ ledger.hw q = s.ledger.hw q
      ∧ ledger.sw q = s.ledger.sw q)
    (hp : Accounts { s with ledger := ledger } p 1)
    : Balanced { s with ledger := ledger } held := by
  have hmade := h.held_made
  refine ⟨?_, ?_, ?_, h.input_port, h.entries⟩
  . intro q
    have hcounted := h.counted q
    change cachedCount s q + pendingCount s q + ledger.mbuf q + held.count q
      = if q < s.made then 1 else 0
    by_cases hq : q = p
    . subst hq
      have hback : ledger.mbuf q = 1 := hp.mbuf
      rw [List.count_cons_self] at hcounted
      omega
    . rw [List.count_cons_of_ne (Ne.symm hq)] at hcounted
      rw [(hother q hq).1]
      exact hcounted
  . intro q hq
    by_cases hqp : q = p
    . subst hqp
      have hback : ledger.mbuf q = 1 := hp.mbuf
      simp only [hback]
      exact hp
    . have haccounts := h.accounts q hq
      rcases hother q hqp with ⟨hmbuf, hhw, hsw⟩
      constructor
      . rfl
      . simp only [hhw, hmbuf]
        exact haccounts.hw
      . simp only [hsw, hmbuf]
        exact haccounts.sw
      . exact haccounts.origin
  . intro q hq
    have hqp : q ≠ p := by
      intro hqp
      subst hqp
      exact Nat.not_lt.mpr hq hmade.1
    rw [(hother q hqp).2.1, (hother q hqp).2.2]
    exact h.unmade q hq

theorem hwBack (h : Balanced s (p :: held)) (hspace : (s.mbuf p).pkt_space = .PKTBUF_HW)
    : Balanced ((s.hwBack p).mbufFree p) held := by
  rcases h.held_made with ⟨hmade, hzero⟩
  have haccounts := h.accounts p hmade
  apply h.giveBack
  . intro q hq
    simp [State.hwBack, hq]
  . have horigin := haccounts.origin_eq hspace
    have hhw := haccounts.hw
    have hsw := haccounts.sw
    simp only [horigin, hspace, hzero] at hhw hsw
    constructor
    . simp [State.hwBack, hzero]
    . simp [State.hwBack, horigin, hspace, hhw]
    . simp [State.hwBack, hspace, hsw]
    . exact haccounts.origin

theorem swBack (h : Balanced s (p :: held)) (hspace : (s.mbuf p).pkt_space = .PKTBUF_SW)
    : Balanced ((s.swBack p).mbufFree p) held := by
  rcases h.held_made with ⟨hmade, hzero⟩
  have haccounts := h.accounts p hmade
  apply h.giveBack
  . intro q hq
    simp [State.swBack, hq]
  . have hhw := haccounts.hw
    have hsw := haccounts.sw
    simp only [hspace, hzero] at hhw hsw
    constructor
    . simp [State.swBack, hzero]
    . simp only [State.swBack, hspace, hhw]
      cases s.origin p <;> rfl
    . simp [State.swBack, hspace, hsw]
    . exact haccounts.origin

theorem packetDestroyAll (h : Balanced s (p :: held)) : Balanced (s.packetDestroyAll p) held := by
  unfold State.packetDestroyAll
  split
  . next hspace => exact h.hwBack hspace
  . next hspace => exact h.swBack hspace

theorem fragDefragFreefrags {fragments : List Packet} (h : Balanced s (fragments ++ held))
    : Balanced (s.fragDefragFreefrags fragments) held := by
  induction fragments generalizing s with
  | nil => exact h
  | cons p fragments ih =>
    apply ih
    exact h.packetDestroyAll

theorem make {mbuf : Mbuf} (h : Balanced s held)
    (hport : mbuf.input_port.toNat < OCT_PHY_PORT_MAX)
    : Balanced (s.make mbuf).1 ((s.make mbuf).2 :: held) := by
  have hnew := h.counted s.made
  rw [if_neg (Nat.lt_irrefl _)] at hnew
  have hold (q : Packet) (hq : q < s.made)
      : (s.make mbuf).1.mbuf q = s.mbuf q ∧ (s.make mbuf).1.origin q = s.origin q := by
    simp [State.make, Nat.ne_of_lt hq]
  refine ⟨?_, ?_, ?_, ?_, h.entries⟩
  . intro q
    have hcounted := h.counted q
    change cachedCount s q + pendingCount s q + s.ledger.mbuf q + (s.made :: held).count q
      = if q < s.made + 1 then 1 else 0
    by_cases hq : q = s.made
    . subst hq
      rw [List.count_cons_self, if_pos (Nat.lt_succ_self _)]
      omega
    . rw [List.count_cons_of_ne (Ne.symm hq), hcounted]
      have hlt : q < s.made + 1 ↔ q < s.made := Nat.lt_succ_iff_lt_or_eq.trans (or_iff_left hq)
      simp only [hlt]
  . intro q hq
    by_cases hqm : q = s.made
    . subst hqm
      rcases h.unmade s.made (Nat.le_refl _) with ⟨hhw, hsw⟩
      have hzero : s.ledger.mbuf s.made = 0 := by omega
      constructor
      . rfl
      . simp only [State.make, Function.update_self, hhw, hzero]
        cases mbuf.pkt_space <;> rfl
      . simp only [State.make, Function.update_self, hsw, hzero]
        cases mbuf.pkt_space <;> rfl
      . simp [State.make]
    . have hlt : q < s.made := Nat.lt_of_le_of_ne (Nat.lt_succ_iff.mp hq) hqm
      apply (h.accounts q hlt).congr
      . rfl
      . exact (hold q hlt).2
      . rw [(hold q hlt).1]
  . intro q hq
    exact h.unmade q (Nat.le_of_succ_le hq)
  . intro q hq
    by_cases hqm : q = s.made
    . subst hqm
      simpa [State.make] using hport
    . have hlt : q < s.made := Nat.lt_of_le_of_ne (Nat.lt_succ_iff.mp hq) hqm
      rw [(hold q hlt).1]
      exact h.input_port q hlt

theorem packetHw2sw {s' : State} {small : UInt64} (h : Balanced s (p :: held))
    (hhw2sw : s.packetHw2sw small p = some s') : Balanced s' (p :: held) ∧ s'.table = s.table := by
  unfold State.packetHw2sw at hhw2sw
  split at hhw2sw
  . cases hhw2sw
    exact ⟨h, rfl⟩
  . next hspace =>
    rw [Option.map_eq_some_iff] at hhw2sw
    rcases hhw2sw with ⟨mbuf, hmbuf, rfl⟩
    rcases packetHw2sw_space hmbuf with ⟨hsw, hport⟩
    rcases h.held_made with ⟨hmade, hzero⟩
    have hself : ((s.setMbuf p mbuf).hwBack p).mbuf p = mbuf := by
      simp [State.hwBack, State.setMbuf]
    have hother (q : Packet) (hq : q ≠ p) : ((s.setMbuf p mbuf).hwBack p).mbuf q = s.mbuf q
        ∧ ((s.setMbuf p mbuf).hwBack p).ledger.hw q = s.ledger.hw q := by
      simp [State.hwBack, State.setMbuf, hq]
    refine ⟨⟨h.counted, ?_, ?_, ?_, h.entries⟩, rfl⟩
    . intro q hq
      by_cases hqp : q = p
      . subst hqp
        have haccounts := h.accounts q hmade
        have horigin : ((s.setMbuf q mbuf).hwBack q).origin q = .PKTBUF_HW :=
          haccounts.origin_eq hspace
        have hold := haccounts.hw
        have hold' := haccounts.sw
        simp only [haccounts.origin_eq hspace, hspace, hzero] at hold hold'
        constructor
        . rfl
        . rw [hself, hsw, horigin]
          simp [State.hwBack, State.setMbuf, hold]
        . rw [hself, hsw]
          exact hold'.trans hzero.symm
        . rw [hself, hsw]
          intro _
          rfl
      . have haccounts := h.accounts q hq
        constructor
        . rfl
        . rw [(hother q hqp).1, (hother q hqp).2]
          exact haccounts.hw
        . rw [(hother q hqp).1]
          exact haccounts.sw
        . rw [(hother q hqp).1]
          exact haccounts.origin
    . intro q hq
      have hqp : q ≠ p := by
        intro hqp
        subst hqp
        exact Nat.not_lt.mpr hq hmade
      rw [(hother q hqp).2]
      exact h.unmade q hq
    . intro q hq
      by_cases hqp : q = p
      . subst hqp
        rw [hself, hport]
        exact h.input_port q hmade
      . rw [(hother q hqp).1]
        exact h.input_port q hq

theorem setBucket {b : FragBucket} {chain : List (fcb_t (FragQueue Packet))} (h : Balanced s held)
    (hcount : ∀ q, (chain.map fun fcb => fcb.queue.fragments.count q).sum + held'.count q
      = ((s.table b).map fun fcb => fcb.queue.fragments.count q).sum + held.count q)
    : Balanced (s.setBucket b chain) held' := by
  refine ⟨?_, fun q hq => (h.accounts q hq).congr rfl rfl rfl, h.unmade, h.input_port, h.entries⟩
  intro q
  have hcounted := h.counted q
  have hupdate (weight : fcb_t (FragQueue Packet) → Nat)
      : total weight (Function.update s.table b chain) + ((s.table b).map weight).sum
        = total weight s.table + (chain.map weight).sum := total_update b chain
  have htotal := hupdate fun fcb => fcb.queue.fragments.count q
  have hchain := hcount q
  change total _ (Function.update s.table b chain) + pendingCount s q + s.ledger.mbuf q
    + held'.count q = if q < s.made then 1 else 0
  rw [← hcounted]
  unfold cachedCount
  omega

end Balanced

section Defrag

variable {s : State} {held : List Packet} {p : Packet}

theorem sum_fragFindOrCreate {bucket : List (fcb_t (FragQueue Packet))} {mb : Mbuf} {now : UInt64}
    {fcb_alloc : Bool} {focus : Focus (fcb_t (FragQueue Packet))} (q : Packet)
    (h : fragFindOrCreate FragQueue.empty bucket mb now fcb_alloc = some focus)
    : (focus.plug.map fun fcb => fcb.queue.fragments.count q).sum
        =
      (bucket.map fun fcb => fcb.queue.fragments.count q).sum := by
  rcases fragFindOrCreate_cases h with ⟨found, hplug, _, rfl⟩ | ⟨rfl, _⟩
  . rw [← hplug]
    simp [Focus.plug, Focus.set]
  . simp [Focus.plug, newFcb, FragQueue.empty]

def returned (result : State × Option Packet) : List Packet := result.2.toList

theorem balanced_fragDefragBegin {env : DefragEnv} {hash : FragBucket}
    {focus : Focus (fcb_t (FragQueue Packet))} (h : Balanced s [p])
    (hplug : focus.plug = s.table hash)
    : Balanced (s.fragDefragBegin env p hash focus).1
        (returned (s.fragDefragBegin env p hash focus)) := by
  unfold State.fragDefragBegin
  split
  . exact h.packetDestroyAll
  . next s' hhw2sw =>
    rcases h.packetHw2sw hhw2sw with ⟨h, htable⟩
    rw [← htable] at hplug
    have hset (queue : FragQueue Packet) (held' : List Packet)
        (hcount : ∀ q, queue.fragments.count q + held'.count q
          = focus.entry.queue.fragments.count q + [p].count q)
        : Balanced (s'.setBucket hash (focus.set { focus.entry with queue := queue }).plug)
          held' := by
      apply h.setBucket
      intro q
      have hq := hcount q
      rw [← hplug]
      simp only [Focus.plug, Focus.set, List.map_append, List.map_cons, List.sum_append,
        List.sum_cons]
      omega
    have hfate := FragQueue.process_cases env.alloc s'.mbuf p focus.entry.queue
    dsimp only
    generalize focus.entry.queue.process env.alloc s'.mbuf p = result at hfate
    cases hfate with
    | @destroyed queue' hqueue =>
      have hheld := hset queue' [p] fun q => by rw [hqueue]
      exact hheld.packetDestroyAll
    | cached hqueue =>
      change Balanced _ []
      apply hset
      intro q
      rw [hqueue.count_eq, List.count_cons, List.count_singleton]
      simp
    | @reassembled queue' freed reasm_mb hqueue hfreed hnew =>
      have hheld : Balanced
          (s'.setBucket hash (focus.set { focus.entry with queue := queue' }).plug)
          (freed ++ []) := by
        apply hset
        intro q
        rw [hqueue, List.append_nil, hfreed.count_eq, List.count_cons, List.count_singleton]
        simp
      apply hheld.fragDefragFreefrags.make
      rcases hnew.input_port with ⟨head, hhead, hport⟩
      rcases List.mem_map.mp hhead with ⟨r, hr, rfl⟩
      rw [hport]
      exact h.input_port r (hheld.held_lt (List.mem_append_left [] hr))

theorem balanced_defrag (env : DefragEnv) (h : Balanced s [p])
    : Balanced (s.defrag env p).1 (returned (s.defrag env p)) := by
  unfold State.defrag
  dsimp only
  split
  . exact h.packetDestroyAll
  . next focus hfind =>
    apply balanced_fragDefragBegin
    . apply h.setBucket
      intro q
      rw [sum_fragFindOrCreate q hfind]
    . simp [State.setBucket]

end Defrag

section Transmit

variable {s : State} {held : List Packet} {p : Packet}

theorem balanced_setTxDone {held' : List Packet} {port : Nat} {tx_done : TxDone}
    (h : Balanced s held) (hport : port < OCT_PHY_PORT_MAX)
    (hcount : ∀ q, tx_done.pending.count q + held'.count q
      = (s.tx_done port).pending.count q + held.count q)
    (hentries : tx_done.tx_entries.toNat = tx_done.pending.length)
    : Balanced (s.setTxDone port tx_done) held' := by
  refine ⟨?_, fun q hq => (h.accounts q hq).congr rfl rfl rfl, h.unmade, h.input_port, ?_⟩
  . intro q
    have hcounted := h.counted q
    have hq := hcount q
    have hrest (s : State) : pendingCount s q = (s.tx_done port).pending.count q
        + ∑ i ∈ (Finset.range OCT_PHY_PORT_MAX).erase port, (s.tx_done i).pending.count q :=
      (Finset.add_sum_erase _ _ (Finset.mem_range.mpr hport)).symm
    have hsame : ∑ i ∈ (Finset.range OCT_PHY_PORT_MAX).erase port,
        ((s.setTxDone port tx_done).tx_done i).pending.count q
        = ∑ i ∈ (Finset.range OCT_PHY_PORT_MAX).erase port, (s.tx_done i).pending.count q := by
      apply Finset.sum_congr rfl
      intro i hi
      simp only [State.setTxDone]
      rw [Function.update_of_ne (Finset.ne_of_mem_erase hi)]
    have hself : (s.setTxDone port tx_done).tx_done port = tx_done := by simp [State.setTxDone]
    have hpending := hrest (s.setTxDone port tx_done)
    rw [hsame, hself] at hpending
    have hold := hrest s
    change cachedCount s q + pendingCount (s.setTxDone port tx_done) q + s.ledger.mbuf q
      + held'.count q = if q < s.made then 1 else 0
    omega
  . intro i hi
    by_cases hip : i = port
    . subst hip
      simpa [State.setTxDone] using hentries
    . simp only [State.setTxDone]
      rw [Function.update_of_ne hip]
      exact h.entries i hi

theorem mb_update (pend_tx_done : Fin OCT_PKO_TX_DESC_NUM → PendTxDone)
    (k : Fin OCT_PKO_TX_DESC_NUM) (entry : PendTxDone)
    : (fun j => (Function.update pend_tx_done k entry j).mb)
        =
      Function.update (fun j => (pend_tx_done j).mb) k entry.mb := by
  funext j
  by_cases hj : j = k
  . subst hj
    rw [Function.update_self, Function.update_self]
  . rw [Function.update_of_ne hj, Function.update_of_ne hj]

variable {tdt : TxDone}

theorem pending_octPendTxDoneAdd (hroom : tdt.pending.length + 1 < OCT_PKO_TX_DESC_NUM)
    (mb : Packet) : (State.octPendTxDoneAdd tdt mb).pending = tdt.pending ++ [mb] := by
  simp only [TxDone.pending, State.octPendTxDoneAdd]
  rw [mb_update]
  exact RingBuffer.contents_push hroom mb

theorem pending_octPendTxDoneRemove {l : List Packet} {mb : Packet} (h : tdt.pending = l ++ [mb])
    : (State.octPendTxDoneRemove tdt).pending = l :=
  RingBuffer.contents_unpush h

theorem balanced_octTxProcessMbuf {port : UInt8} {send : Bool} (h : Balanced s [p])
    (hport : port.toNat < OCT_PHY_PORT_MAX) : Balanced (s.octTxProcessMbuf p port send) [] := by
  unfold State.octTxProcessMbuf
  split
  . exact h.packetDestroyAll
  . split
    . next hspace =>
      split
      . exact h.hwBack hspace
      . have hdata : s.packetDestroyData p = s.hwBack p := by
          simp only [State.packetDestroyData, hspace]
        rw [hdata]
        exact h.hwBack hspace
    . dsimp only
      split
      . next hroom =>
        have hentries := h.entries port.toNat hport
        have hnum : OCT_PKO_TX_DESC_NUM = 64 := rfl
        have hadd : (State.octPendTxDoneAdd (s.tx_done port.toNat) p).pending
            = (s.tx_done port.toNat).pending ++ [p] := pending_octPendTxDoneAdd (by omega) p
        have hcount : ((s.tx_done port.toNat).tx_entries + 1).toNat
            = (s.tx_done port.toNat).tx_entries.toNat + 1 := by
          rw [UInt16.toNat_add]
          have : (1 : UInt16).toNat = 1 := rfl
          omega
        split
        . apply balanced_setTxDone h hport
          . intro q
            rw [hadd, List.count_append, List.count_nil, Nat.add_zero]
          . rw [hadd, List.length_append, List.length_singleton, ← hentries]
            exact hcount
        . have hremove := pending_octPendTxDoneRemove hadd
          apply Balanced.packetDestroyAll
          apply balanced_setTxDone h hport
          . intro q
            rw [hremove]
          . rw [hremove, ← hentries]
            simp [State.octPendTxDoneRemove, State.octPendTxDoneAdd]
      . exact h.packetDestroyAll

theorem balanced_flowHandlePacket {env : Env} (h : Balanced s [p])
    : Balanced (s.flowHandlePacket env p) [] := by
  unfold State.flowHandlePacket
  split
  . apply balanced_octTxProcessMbuf h
    have hport := h.input_port p (h.held_lt List.mem_cons_self)
    rw [UInt32.toNat_toUInt8]
    exact Nat.lt_of_le_of_lt (Nat.mod_le _ _) hport
  . exact h.packetDestroyAll

theorem balanced_decodeDatagram {env : Env} (h : Balanced s [p])
    : Balanced (s.decodeDatagram env p) [] := by
  unfold State.decodeDatagram
  split
  . next mbuf hdecoded =>
    apply balanced_flowHandlePacket
    exact h.setMbuf (decodeDatagram_keeps hdecoded)
  . exact h.packetDestroyAll
  . split
    . exact balanced_flowHandlePacket h
    . exact h.packetDestroyAll

theorem balanced_decode {env : Env} (h : Balanced s [p])
    (hdecode : ∃ decoded, Decode.decode (s.mbuf p) = some decoded)
    : Balanced (s.decode env p) [] := by
  rcases hdecode with ⟨decoded, hdecoded⟩
  have hkeeps := decode_keeps hdecoded
  unfold State.decode
  rw [hdecoded]
  cases decoded with
  | drop => exact h.packetDestroyAll
  | destroyed mbuf => exact (h.setMbuf hkeeps).packetDestroyAll
  | flow mbuf => exact balanced_flowHandlePacket (h.setMbuf hkeeps)
  | defrag mbuf =>
    have hdefrag := balanced_defrag env.defrag (h.setMbuf hkeeps)
    dsimp only
    split
    . next s' hresult =>
      rw [hresult] at hdefrag
      exact hdefrag
    . next s' nmbuf hresult =>
      rw [hresult] at hdefrag
      exact balanced_decodeDatagram hdefrag

end Transmit

section Checks

variable {s : State}

theorem balanced_foldl {ι : Type} {step : State → ι → State} {l : List ι} (h : Balanced s [])
    (hstep : ∀ s, ∀ i ∈ l, Balanced s [] → Balanced (step s i) []) : Balanced (l.foldl step s) [] := by
  induction l generalizing s with
  | nil => exact h
  | cons i l ih =>
    apply ih (hstep s i List.mem_cons_self h)
    intro s j hj
    exact hstep s j (List.mem_cons_of_mem i hj)

theorem balanced_freefrags {timeout : List (fcb_t (FragQueue Packet))}
    (h : Balanced s (timeout.flatMap fun tfcb => tfcb.queue.fragments))
    : Balanced
        (timeout.foldl (fun s tfcb => s.fragDefragFreefrags tfcb.queue.fragments) s) [] := by
  induction timeout generalizing s with
  | nil => exact h
  | cons tfcb timeout ih =>
    rw [List.flatMap_cons] at h
    exact ih h.fragDefragFreefrags

theorem sum_filter_not_add {α : Type} (t : α → Bool) (weight : α → Nat) (l : List α)
    : ((l.filter fun a => ¬ t a).map weight).sum + ((l.filter t).map weight).sum
        =
      (l.map weight).sum := by
  induction l with
  | nil => rfl
  | cons a l ih =>
    cases ha : t a with
    | true => simp [ha] at ih ⊢; omega
    | false => simp [ha] at ih ⊢; omega

theorem balanced_timeoutBucket {FRAG_MAX_TIMEOUT current_cycle : UInt64}
    {trylock : FragBucket → Bool} {i : FragBucket} (h : Balanced s [])
    : Balanced (State.timeoutBucket FRAG_MAX_TIMEOUT current_cycle trylock s i) [] := by
  unfold State.timeoutBucket
  split
  . apply balanced_freefrags
    apply h.setBucket
    intro q
    have hsplit := sum_filter_not_add
      (fun fcb : fcb_t (FragQueue Packet) => timedOut FRAG_MAX_TIMEOUT current_cycle fcb)
      (fun fcb => fcb.queue.fragments.count q) (s.table i)
    rw [List.count_flatMap, List.map_reverse, List.sum_reverse, List.count_nil, Nat.add_zero]
    exact hsplit
  . exact h

theorem setTxDone_packetDestroyAll (s : State) (p : Packet) (port : Nat) (tx_done : TxDone)
    : (s.packetDestroyAll p).setTxDone port tx_done
        =
      (s.setTxDone port tx_done).packetDestroyAll p := by
  cases hspace : (s.mbuf p).pkt_space <;>
    simp only [State.packetDestroyAll, State.setTxDone, State.hwBack, State.swBack, State.mbufFree,
      hspace]

theorem balanced_octTxDoneLoop {port : Nat} (hport : port < OCT_PHY_PORT_MAX) (rounds : Nat)
    (h : Balanced s []) : Balanced (State.octTxDoneLoop port rounds s) [] := by
  induction rounds generalizing s with
  | zero => exact h
  | succ rounds ih =>
    unfold State.octTxDoneLoop
    dsimp only
    split
    . exact h
    . next hne =>
      split
      . exact h
      . apply ih
        rw [setTxDone_packetDestroyAll]
        apply Balanced.packetDestroyAll
        have hentries := h.entries port hport
        have hpop : (s.tx_done port).pending
            = ((s.tx_done port).pend_tx_done (s.tx_done port).consumer).mb
              :: RingBuffer.contents (fun k => ((s.tx_done port).pend_tx_done k).mb)
                ((s.tx_done port).consumer + 1) (s.tx_done port).producer :=
          RingBuffer.contents_pop hne
        rw [hpop, List.length_cons] at hentries
        apply balanced_setTxDone h hport
        . intro q
          rw [hpop, List.count_cons, List.count_cons, List.count_nil]
          simp only [TxDone.pending]
          omega
        . have hlt := (s.tx_done port).tx_entries.toNat_lt
          have hone : (1 : UInt16).toNat = 1 := rfl
          simp only [TxDone.pending]
          rw [UInt16.toNat_sub, hone, hentries]
          rw [hentries] at hlt
          omega

theorem balanced_octTxDoneCheck (h : Balanced s []) : Balanced s.octTxDoneCheck [] := by
  apply balanced_foldl h
  intro s port hport h
  split
  . exact balanced_octTxDoneLoop (List.mem_range.mp hport) _ h
  . exact h

theorem balanced_txDone {port : Nat} {k : Fin OCT_PKO_TX_DESC_NUM} (h : Balanced s [])
    (hport : port < OCT_PHY_PORT_MAX) : Balanced (s.txDone port k) [] := by
  have hpending (tx_done : TxDone) (entry : PendTxDone)
      (hentry : entry.mb = (tx_done.pend_tx_done k).mb)
      : ({ tx_done with pend_tx_done := Function.update tx_done.pend_tx_done k entry } : TxDone).pending
        = tx_done.pending := by
    simp only [TxDone.pending]
    rw [mb_update, hentry, Function.update_eq_self]
  apply balanced_setTxDone h hport
  . intro q
    rw [hpending]
    rfl
  . rw [hpending]
    . exact h.entries port hport
    . rfl

theorem balanced_init (mbuf : Packet → Mbuf) : Balanced (State.init mbuf) [] := by
  have hpending (port : Nat) : ((State.init mbuf).tx_done port).pending = [] :=
    RingBuffer.contents_eq_nil_iff.mpr rfl
  constructor
  . intro q
    have hcached : cachedCount (State.init mbuf) q = 0 := total_empty
    have hcount : pendingCount (State.init mbuf) q = 0 := by
      simp [pendingCount, hpending]
    rw [hcached, hcount]
    simp [State.init]
  . intro q hq
    exact absurd hq (Nat.not_lt_zero q)
  . intro q _
    exact ⟨rfl, rfl⟩
  . intro q hq
    exact absurd hq (Nat.not_lt_zero q)
  . intro port _
    rw [hpending]
    rfl

theorem balanced_run {FRAG_MAX_TIMEOUT : UInt64} {call : Call} (h : Balanced s [])
    (hvalid : call.Valid) : Balanced (call.run FRAG_MAX_TIMEOUT s) [] := by
  cases call with
  | decode frame pkt_virt input_port env =>
    apply balanced_decode
    . exact h.make hvalid.2
    . simp only [Function.update_self]
      exact decode_octRxProcessWork pkt_virt input_port hvalid.1
  | fragDefragTimeout current_cycle trylock =>
    apply balanced_foldl h
    intro s i _ h
    exact balanced_timeoutBucket h
  | octTxDoneCheck => exact balanced_octTxDoneCheck h
  | txDone port k => exact balanced_txDone h hvalid

theorem balanced_of_reachable {FRAG_MAX_TIMEOUT : UInt64} (h : Reachable FRAG_MAX_TIMEOUT s)
    : Balanced s [] := by
  induction h with
  | init mbuf => exact balanced_init mbuf
  | call _ call hvalid ih => exact balanced_run ih hvalid

/-- Every packet is disposed of exactly once, whatever the allocators and the hardware do. -/
theorem disposed_of_reachable {FRAG_MAX_TIMEOUT : UInt64} {p : Packet}
    (h : Reachable FRAG_MAX_TIMEOUT s) (hp : p < s.made) : Disposed s p :=
  (balanced_of_reachable h).disposed hp

def richCallEnv : Env where
  defrag := richEnv
  flow := true
  send := true
  outside := false

def firstCall : Call := .decode (fragmentFrame 17 0x20 0) 0x1000 1 richCallEnv

def secondCall : Call := .decode (fragmentFrame 17 0 1) 0x2000 1 richCallEnv

def reassembledState : State :=
  secondCall.run 16000000000
    (firstCall.run 16000000000 (State.init fun _ => octRxProcessWork [] 0 0))

theorem disposed_reassembledState
    : Reachable 16000000000 reassembledState ∧ 2 < reassembledState.made
      ∧ Disposed reassembledState 2 := by
  have hreachable : Reachable 16000000000 reassembledState :=
    ((Reachable.init _).call firstCall ⟨by decide, by decide⟩).call secondCall
      ⟨by decide, by decide⟩
  have hmade : 2 < reassembledState.made := by decide +kernel
  exact ⟨hreachable, hmade, disposed_of_reachable hreachable hmade⟩

end Checks

end SecFw.Packets
