import SecFw.Packets.Disposal

/-!
This module contains the transmission rings of a core with their counters: the indices are masked
16-bit words, and the entries are counted once for each port and once for all of them. Packets leave a
ring in the order in which they were put in, and only when the hardware is done with them.
-/

namespace SecFw.TxRing

open Packets

structure TxDone where
  consumer : UInt16
  producer : UInt16
  tx_entries : UInt16
  pend_tx_done : Nat → PendTxDone

structure State where
  -- the rings of a core. Packets are numbered in the order in which they are handed over. What
  -- follows the counters is a record of what happened: the packets that a port took, the entries
  -- that were found done, the software packets that were destroyed, and the hardware packets that
  -- were given back
  made : Nat
  pkt_space : Packet → PktSpace
  tx_done : Nat → TxDone
  oct_tx_entries : UInt32
  accepted : Nat → List Packet
  done : Nat → List PendTxDone
  destroyed : List Packet
  hw_freed : List Packet

namespace State

def init : State where
  made := 0
  pkt_space := fun _ => .PKTBUF_HW
  tx_done := fun _ => ⟨0, 0, 0, fun _ => ⟨0, 0⟩⟩
  oct_tx_entries := 0
  accepted := fun _ => []
  done := fun _ => []
  destroyed := []
  hw_freed := []

def setTxDone (s : State) (port : Nat) (tx_done : TxDone) : State :=
  { s with tx_done := Function.update s.tx_done port tx_done }

def packetDestroyAll (s : State) (mb : Packet) : State :=
  match s.pkt_space mb with
  | .PKTBUF_HW => { s with hw_freed := s.hw_freed ++ [mb] }
  | .PKTBUF_SW => { s with destroyed := s.destroyed ++ [mb] }

def octPendTxDoneAdd (s : State) (port : Nat) (mb : Packet) : State :=
  let tdt := s.tx_done port
  let producer := tdt.producer
  let pend_tx_done := Function.update tdt.pend_tx_done producer.toNat ⟨0xFF, mb⟩
  let producer := (producer + 1) &&& 63
  let s := s.setTxDone port ⟨tdt.consumer, producer, tdt.tx_entries + 1, pend_tx_done⟩
  { s with oct_tx_entries := s.oct_tx_entries + 1 }

def octPendTxDoneRemove (s : State) (port : Nat) : State :=
  let tdt := s.tx_done port
  let s := s.setTxDone port { tdt with
    producer := (tdt.producer - 1) &&& 63
    tx_entries := tdt.tx_entries - 1 }
  { s with oct_tx_entries := s.oct_tx_entries - 1 }

def make (s : State) (pkt_space : PktSpace) : State × Packet :=
  ({ s with
      made := s.made + 1
      pkt_space := Function.update s.pkt_space s.made pkt_space }, s.made)

def accept (s : State) (port : Nat) (mbuf : Packet) : State :=
  { s with accepted := Function.update s.accepted port (s.accepted port ++ [mbuf]) }

def octTxProcessMbuf (s : State) (mbuf : Packet) (port : UInt8) (send : Bool) : State :=
  -- `send` says whether the hardware takes the packet
  if port.toNat > OCT_PHY_PORT_MAX then
    s.packetDestroyAll mbuf
  else
    match s.pkt_space mbuf with
    -- the hardware gives a buffer back that it sent, `packet_destroy_data` another one
    | .PKTBUF_HW => { s with hw_freed := s.hw_freed ++ [mbuf] }
    | .PKTBUF_SW =>
      if (s.tx_done port.toNat).tx_entries.toNat < OCT_PKO_TX_DESC_NUM - 1 then
        let s := s.octPendTxDoneAdd port.toNat mbuf
        if send then
          s.accept port.toNat mbuf
        else
          (s.octPendTxDoneRemove port.toNat).packetDestroyAll mbuf
      else
        s.packetDestroyAll mbuf

def freeEntry (s : State) (port : Nat) (pend_tx_done : PendTxDone) : State :=
  let s := s.packetDestroyAll pend_tx_done.mb
  let tx_done := s.tx_done port
  let s := s.setTxDone port { tx_done with tx_entries := tx_done.tx_entries - 1 }
  { s with
    oct_tx_entries := s.oct_tx_entries - 1
    done := Function.update s.done port (s.done port ++ [pend_tx_done]) }

def octTxDoneLoop (port : Nat) (producer : UInt16) : Nat → UInt16 → State → UInt16 × State
  | 0, consumer, s => (consumer, s)
  | rounds + 1, consumer, s =>
    if consumer ≠ producer then
      let pend_tx_done := (s.tx_done port).pend_tx_done consumer.toNat
      if 0xFF = pend_tx_done.mem_ref then
        (consumer, s)
      else
        octTxDoneLoop port producer rounds ((consumer + 1) &&& 63) (s.freeEntry port pend_tx_done)
    else
      (consumer, s)

def setConsumer (s : State) (port : Nat) (consumer : UInt16) : State :=
  s.setTxDone port { s.tx_done port with consumer := consumer }

def octTxDonePort (s : State) (port : Nat) : State :=
  if (s.tx_done port).tx_entries ≠ 0 then
    let consumer := (s.tx_done port).consumer
    let producer := (s.tx_done port).producer
    let (consumer, s) := octTxDoneLoop port producer OCT_PKO_TX_DESC_NUM consumer s
    s.setConsumer port consumer
  else
    s

def octTxDoneCheck (s : State) : State := (List.range OCT_PHY_PORT_MAX).foldl octTxDonePort s

def complete (s : State) (port k : Nat) : State :=
  let tx_done := s.tx_done port
  s.setTxDone port { tx_done with
    pend_tx_done := Function.update tx_done.pend_tx_done k
      { tx_done.pend_tx_done k with mem_ref := 0 } }

end State

inductive Call where
  | octTxProcessMbuf (pkt_space : PktSpace) (port : UInt8) (send : Bool)
  | octTxDoneCheck
  | complete (port k : Nat)

def Call.Valid : Call → Prop
  | .octTxProcessMbuf _ port _ => port.toNat < OCT_PHY_PORT_MAX
  | .complete port _ => port < OCT_PHY_PORT_MAX
  | .octTxDoneCheck => True

def Call.run (s : State) : Call → State
  | .octTxProcessMbuf pkt_space port send =>
    let (s, mbuf) := s.make pkt_space
    s.octTxProcessMbuf mbuf port send
  | .octTxDoneCheck => s.octTxDoneCheck
  | .complete port k => s.complete port k

/-- The states after the calls of any sequence. -/
inductive Reachable : State → Prop where
  | init : Reachable State.init
  | call {s : State} (h : Reachable s) (call : Call) (hvalid : call.Valid) : Reachable (call.run s)

section Index

scoped instance neZero_OCT_PKO_TX_DESC_NUM : NeZero OCT_PKO_TX_DESC_NUM := ⟨by decide⟩

def index (x : UInt16) : Fin OCT_PKO_TX_DESC_NUM := Fin.ofNat OCT_PKO_TX_DESC_NUM x.toNat

theorem toNat_mask (x : UInt16) : (x &&& 63).toNat = x.toNat % 64 := by
  rw [UInt16.toNat_and]
  exact Nat.and_two_pow_sub_one_eq_mod x.toNat 6

theorem toNat_mask_lt (x : UInt16) : (x &&& 63).toNat < OCT_PKO_TX_DESC_NUM := by
  rw [toNat_mask]
  exact Nat.mod_lt _ (by decide)

theorem index_succ (x : UInt16) : index ((x + 1) &&& 63) = index x + 1 := by
  apply Fin.ext
  simp only [index, toNat_mask, UInt16.toNat_add, Fin.val_add, Fin.val_ofNat, OCT_PKO_TX_DESC_NUM]
  simp

theorem index_val {x : UInt16} (h : x.toNat < OCT_PKO_TX_DESC_NUM) : (index x).val = x.toNat :=
  Nat.mod_eq_of_lt h

theorem index_inj {x y : UInt16} (hx : x.toNat < OCT_PKO_TX_DESC_NUM)
    (hy : y.toNat < OCT_PKO_TX_DESC_NUM) : index x = index y ↔ x = y := by
  rw [Fin.ext_iff, index_val hx, index_val hy, UInt16.toNat_inj]

end Index

namespace TxDone

def pending (tdt : TxDone) : List Packet :=
  RingBuffer.contents (fun k : Fin OCT_PKO_TX_DESC_NUM => (tdt.pend_tx_done k.val).mb)
    (index tdt.consumer) (index tdt.producer)

structure Ok (tdt : TxDone) : Prop where
  consumer_lt : tdt.consumer.toNat < OCT_PKO_TX_DESC_NUM
  producer_lt : tdt.producer.toNat < OCT_PKO_TX_DESC_NUM
  tx_entries : tdt.tx_entries.toNat = tdt.pending.length

variable {tdt : TxDone}

theorem length_pending (tdt : TxDone)
    : tdt.pending.length = (index tdt.producer - index tdt.consumer).val := by
  rw [pending, RingBuffer.length_contents]

theorem Ok.tx_entries_le (h : tdt.Ok) : tdt.tx_entries.toNat ≤ OCT_PKO_TX_DESC_NUM - 1 := by
  rw [h.tx_entries, length_pending]
  exact Nat.le_sub_one_of_lt (Fin.isLt _)

def toRing (tdt : TxDone) : Packets.TxDone where
  consumer := index tdt.consumer
  producer := index tdt.producer
  tx_entries := tdt.tx_entries
  pend_tx_done k := tdt.pend_tx_done k.val

theorem slots_update (h : tdt.producer.toNat < OCT_PKO_TX_DESC_NUM) (entry : PendTxDone)
    : (fun k : Fin OCT_PKO_TX_DESC_NUM =>
        Function.update tdt.pend_tx_done tdt.producer.toNat entry k.val)
        =
      Function.update tdt.toRing.pend_tx_done (index tdt.producer) entry := by
  funext k
  by_cases hk : k = index tdt.producer
  . rw [hk, index_val h, Function.update_self, Function.update_self]
  . have hne : k.val ≠ tdt.producer.toNat := by
      rw [← index_val h]
      exact Fin.val_ne_of_ne hk
    rw [Function.update_of_ne hne, Function.update_of_ne hk, toRing]

end TxDone

structure Inv (s : State) (held : List Packet) : Prop where
  ok : ∀ port < OCT_PHY_PORT_MAX, (s.tx_done port).Ok
  total : s.oct_tx_entries.toNat
    = ∑ port ∈ Finset.range OCT_PHY_PORT_MAX, (s.tx_done port).tx_entries.toNat
  accepted : ∀ port < OCT_PHY_PORT_MAX,
    s.accepted port = (s.done port).map PendTxDone.mb ++ (s.tx_done port).pending
  done : ∀ port < OCT_PHY_PORT_MAX, ∀ d ∈ s.done port, d.mem_ref ≠ 0xFF ∧ d.mb ∈ s.destroyed
  software : ∀ port < OCT_PHY_PORT_MAX, ∀ mb ∈ (s.tx_done port).pending,
    s.pkt_space mb = .PKTBUF_SW
  counted : ∀ q : Nat, s.destroyed.count q
      + ∑ port ∈ Finset.range OCT_PHY_PORT_MAX, (s.tx_done port).pending.count q + held.count q
    ≤ if q < s.made then 1 else 0

theorem sum_ports {port : Nat} (hport : port < OCT_PHY_PORT_MAX) (f : Nat → Nat)
    : ∑ i ∈ Finset.range OCT_PHY_PORT_MAX, f i
        =
      f port + ∑ i ∈ (Finset.range OCT_PHY_PORT_MAX).erase port, f i :=
  (Finset.add_sum_erase _ _ (Finset.mem_range.mpr hport)).symm

namespace Inv

variable {s s' : State} {held held' : List Packet} {port : Nat} {mb : Packet}

theorem init : Inv State.init [] := by
  have hpending (port : Nat) : (State.init.tx_done port).pending = [] :=
    RingBuffer.contents_eq_nil_iff.mpr rfl
  constructor
  case ok =>
    intro port _
    constructor
    . exact Nat.zero_lt_succ 63
    . exact Nat.zero_lt_succ 63
    . rw [hpending]
      rfl
  case total => rfl
  case accepted =>
    intro port _
    rw [hpending]
    rfl
  case done => simp [State.init]
  case software => simp [hpending]
  case counted =>
    intro q
    simp only [hpending]
    simp [State.init]

theorem make (h : Inv s []) (pkt_space : PktSpace)
    : Inv (s.make pkt_space).1 [(s.make pkt_space).2] := by
  have hmade := h.counted s.made
  rw [if_neg (Nat.lt_irrefl _)] at hmade
  constructor
  case ok => exact h.ok
  case total => exact h.total
  case accepted => exact h.accepted
  case done => exact h.done
  case software =>
    intro port hport q hq
    have hne : q ≠ s.made := by
      rintro rfl
      have hpos := List.count_pos_iff.mpr hq
      rw [sum_ports hport] at hmade
      simp only [State.make] at hpos
      omega
    simp only [State.make]
    rw [Function.update_of_ne hne]
    exact h.software port hport q hq
  case counted =>
    intro q
    have hold := h.counted q
    change s.destroyed.count q
        + ∑ port ∈ Finset.range OCT_PHY_PORT_MAX, (s.tx_done port).pending.count q
        + [s.made].count q
      ≤ if q < s.made + 1 then 1 else 0
    rw [List.count_nil] at hold
    rw [List.count_singleton]
    simp only [beq_iff_eq]
    by_cases hq : s.made = q
    . subst hq
      rw [if_pos rfl, if_pos (Nat.lt_succ_self _)]
      rw [if_neg (Nat.lt_irrefl _)] at hold
      omega
    . rw [if_neg hq]
      apply Nat.le_trans hold
      split
      . next hlt => rw [if_pos (Nat.lt_succ_of_lt hlt)]
      . exact Nat.zero_le _

theorem packetDestroyAll (h : Inv s (mb :: held)) : Inv (s.packetDestroyAll mb) held := by
  unfold State.packetDestroyAll
  split
  . constructor
    case counted =>
      intro q
      have hold := h.counted q
      rw [List.count_cons] at hold
      dsimp only
      omega
    case ok => exact h.ok
    case total => exact h.total
    case accepted => exact h.accepted
    case done => exact h.done
    case software => exact h.software
  . constructor
    case counted =>
      intro q
      have hold := h.counted q
      rw [List.count_cons] at hold
      simp only [List.count_append, List.count_singleton]
      omega
    case done =>
      intro port hport d hd
      have hold := h.done port hport d hd
      exact ⟨hold.1, List.mem_append_left _ hold.2⟩
    case ok => exact h.ok
    case total => exact h.total
    case accepted => exact h.accepted
    case software => exact h.software

theorem total_le (h : Inv s held) : s.oct_tx_entries.toNat ≤ 252 := by
  rw [h.total]
  have hle : ∀ port ∈ Finset.range OCT_PHY_PORT_MAX,
      (s.tx_done port).tx_entries.toNat ≤ OCT_PKO_TX_DESC_NUM - 1 := by
    intro port hport
    exact (h.ok port (Finset.mem_range.mp hport)).tx_entries_le
  exact Finset.sum_le_card_nsmul _ _ _ hle

end Inv

section Process

variable {s : State} {port : Nat} {mb : Packet}

end Process

section Check

variable {s : State} {port : Nat} {consumer producer : UInt16}

theorem octTxDoneLoop_succ (rounds : Nat) (hconsumer : consumer.toNat < OCT_PKO_TX_DESC_NUM)
    (hproducer : producer.toNat < OCT_PKO_TX_DESC_NUM)
    (hle : (index producer - index consumer).val ≤ rounds)
    : State.octTxDoneLoop port producer (rounds + 1) consumer s
        =
      State.octTxDoneLoop port producer rounds consumer s := by
  induction rounds generalizing consumer s with
  | zero =>
    have hzero : index producer - index consumer = 0 := Fin.ext (Nat.le_zero.mp hle)
    have heq := (index_inj hproducer hconsumer).mp (sub_eq_zero.mp hzero)
    rw [State.octTxDoneLoop, State.octTxDoneLoop, heq]
    simp
  | succ rounds ih =>
    rw [State.octTxDoneLoop, State.octTxDoneLoop.eq_def port producer (rounds + 1)]
    dsimp only
    split
    . next hne =>
      split
      . rfl
      . apply ih
        . exact toNat_mask_lt _
        . have hsub : index producer - index consumer ≠ 0 := by
            intro hzero
            exact hne ((index_inj hproducer hconsumer).mp (sub_eq_zero.mp hzero)).symm
          rw [index_succ, ← sub_sub, Fin.val_sub_one_of_ne_zero hsub]
          exact Nat.sub_le_of_le_add hle
    . rfl

theorem octTxDoneLoop_of_le {rounds : Nat} (hconsumer : consumer.toNat < OCT_PKO_TX_DESC_NUM)
    (hproducer : producer.toNat < OCT_PKO_TX_DESC_NUM) (hle : OCT_PKO_TX_DESC_NUM ≤ rounds)
    : State.octTxDoneLoop port producer rounds consumer s
        =
      State.octTxDoneLoop port producer OCT_PKO_TX_DESC_NUM consumer s := by
  induction rounds, hle using Nat.le_induction with
  | base => rfl
  | succ rounds hle ih =>
    rw [octTxDoneLoop_succ rounds hconsumer hproducer, ih]
    exact Nat.le_of_lt (Nat.lt_of_lt_of_le (Fin.isLt _) hle)

end Check

section Run

variable {s : State}

end Run

end SecFw.TxRing
