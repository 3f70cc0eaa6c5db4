import SecFw.Decode.FragTable
import SecFw.RingBuffer.Basic

/-!
This module contains the way of the packets through one core of the data plane: `Decode` with the
reassembly, the transmission, the timeout of fragments and the check for transmitted packets. A
ledger counts how often a descriptor or a packet buffer is given back.
-/

namespace SecFw.Packets

open HashChains Decode

abbrev OCT_PHY_PORT_MAX : Nat := 4
abbrev OCT_PKO_TX_DESC_NUM : Nat := 64

abbrev Packet : Type := Nat

structure PendTxDone where
  mem_ref : UInt8
  mb : Packet

structure TxDone where
  -- `tx_done_t`, an index is taken modulo the size of the ring
  consumer : Fin OCT_PKO_TX_DESC_NUM
  producer : Fin OCT_PKO_TX_DESC_NUM
  tx_entries : UInt16
  pend_tx_done : Fin OCT_PKO_TX_DESC_NUM → PendTxDone

def TxDone.pending (tx_done : TxDone) : List Packet :=
  RingBuffer.contents (fun k => (tx_done.pend_tx_done k).mb) tx_done.consumer tx_done.producer

structure Ledger where
  mbuf : Packet → Nat
  hw : Packet → Nat
  sw : Packet → Nat

structure State where
  -- what a core works on. Only the first `OCT_PHY_PORT_MAX` rings are in `tx_done`, and `origin`
  -- is the kind of buffer that a packet came with
  made : Nat
  mbuf : Packet → Mbuf
  origin : Packet → PktSpace
  table : FragTable (FragQueue Packet)
  tx_done : Nat → TxDone
  ledger : Ledger

structure Env where
  defrag : DefragEnv
  -- `FlowGetFlowFromHash` returns an item
  flow : Bool
  -- the hardware takes the packet
  send : Bool
  -- what the bytes behind the end of a reassembled packet are decoded to
  outside : Bool

namespace State

def init (mbuf : Packet → Mbuf) : State where
  made := 0
  mbuf := mbuf
  origin := fun _ => .PKTBUF_HW
  table := fun _ => []
  tx_done := fun _ => ⟨0, 0, 0, fun _ => ⟨0, 0⟩⟩
  ledger := ⟨fun _ => 0, fun _ => 0, fun _ => 0⟩

def setMbuf (s : State) (p : Packet) (mbuf : Mbuf) : State :=
  { s with mbuf := Function.update s.mbuf p mbuf }

def setBucket (s : State) (b : FragBucket) (chain : List (fcb_t (FragQueue Packet))) : State :=
  { s with table := Function.update s.table b chain }

def setTxDone (s : State) (port : Nat) (tx_done : TxDone) : State :=
  { s with tx_done := Function.update s.tx_done port tx_done }

def make (s : State) (mbuf : Mbuf) : State × Packet :=
  ({ s with
      made := s.made + 1
      mbuf := Function.update s.mbuf s.made mbuf
      origin := Function.update s.origin s.made mbuf.pkt_space }, s.made)

def mbufFree (s : State) (p : Packet) : State :=
  { s with ledger.mbuf := Function.update s.ledger.mbuf p (s.ledger.mbuf p + 1) }

def hwBack (s : State) (p : Packet) : State :=
  { s with ledger.hw := Function.update s.ledger.hw p (s.ledger.hw p + 1) }

def swBack (s : State) (p : Packet) : State :=
  { s with ledger.sw := Function.update s.ledger.sw p (s.ledger.sw p + 1) }

def packetDestroyData (s : State) (p : Packet) : State :=
  match (s.mbuf p).pkt_space with
  | .PKTBUF_HW => s.hwBack p
  | .PKTBUF_SW => s

def packetDestroyAll (s : State) (p : Packet) : State :=
  match (s.mbuf p).pkt_space with
  | .PKTBUF_HW => (s.hwBack p).mbufFree p
  | .PKTBUF_SW => (s.swBack p).mbufFree p

def packetHw2sw (s : State) (small : UInt64) (p : Packet) : Option State :=
  -- without a result for `SEC_NO`
  match (s.mbuf p).pkt_space with
  | .PKTBUF_SW => some s
  | .PKTBUF_HW => (Decode.packetHw2sw small (s.mbuf p)).map fun mbuf => (s.setMbuf p mbuf).hwBack p

def fragDefragFreefrags (s : State) (fragments : List Packet) : State :=
  -- the queue is emptied by the caller
  fragments.foldl packetDestroyAll s

def fragDefragBegin (s : State) (env : DefragEnv) (p : Packet) (hash : FragBucket)
    (focus : Focus (fcb_t (FragQueue Packet))) : State × Option Packet :=
  -- `Frag_defrag_begin` for the control block that a bucket is opened at
  match s.packetHw2sw env.small p with
  | none => (s.packetDestroyAll p, none)
  | some s =>
    let (queue, fate) := focus.entry.queue.process env.alloc s.mbuf p
    let s := s.setBucket hash (focus.set { focus.entry with queue := queue }).plug
    match fate with
    | .destroyed => (s.packetDestroyAll p, none)
    | .cached => (s, none)
    | .reassembled freed reasm_mb =>
      let (s, nmbuf) := (s.fragDefragFreefrags freed).make reasm_mb
      (s, some nmbuf)

def defrag (s : State) (env : DefragEnv) (p : Packet) : State × Option Packet :=
  let hash := ip4FragHashfn (s.mbuf p)
  match fragFindOrCreate FragQueue.empty (s.table hash) (s.mbuf p) env.now env.fcb_alloc with
  | none => (s.packetDestroyAll p, none)
  | some focus => (s.setBucket hash focus.plug).fragDefragBegin env p hash focus

def octPendTxDoneAdd (tdt : TxDone) (mb : Packet) : TxDone :=
  { tdt with
    pend_tx_done := Function.update tdt.pend_tx_done tdt.producer ⟨0xFF, mb⟩
    tx_entries := tdt.tx_entries + 1
    producer := tdt.producer + 1 }

def octPendTxDoneRemove (tdt : TxDone) : TxDone :=
  { tdt with
    producer := tdt.producer - 1
    tx_entries := tdt.tx_entries - 1 }

def octTxProcessMbuf (s : State) (p : Packet) (port : UInt8) (send : Bool) : State :=
  -- a sent hardware buffer is given back by the hardware
  if port.toNat > OCT_PHY_PORT_MAX then
    s.packetDestroyAll p
  else
    match (s.mbuf p).pkt_space with
    | .PKTBUF_HW =>
      if send then
        (s.hwBack p).mbufFree p
      else
        (s.packetDestroyData p).mbufFree p
    | .PKTBUF_SW =>
      let tx_done := s.tx_done port.toNat
      if tx_done.tx_entries.toNat < OCT_PKO_TX_DESC_NUM - 1 then
        let tx_done := octPendTxDoneAdd tx_done p
        if send then
          s.setTxDone port.toNat tx_done
        else
          (s.setTxDone port.toNat (octPendTxDoneRemove tx_done)).packetDestroyAll p
      else
        s.packetDestroyAll p

def flowHandlePacket (s : State) (env : Env) (p : Packet) : State :=
  -- `FlowHandlePacket` and `l7_deliver`
  if env.flow then
    s.octTxProcessMbuf p (s.mbuf p).input_port.toUInt8 env.send
  else
    s.packetDestroyAll p

def decodeDatagram (s : State) (env : Env) (p : Packet) : State :=
  match Decode.decodeDatagram (s.mbuf p) with
  | some (.flow mbuf) => (s.setMbuf p mbuf).flowHandlePacket env p
  | some _ => s.packetDestroyAll p
  | none => if env.outside then s.flowHandlePacket env p else s.packetDestroyAll p

def decode (s : State) (env : Env) (p : Packet) : State :=
  -- nothing outside of a received frame is read
  match Decode.decode (s.mbuf p) with
  | none => s
  | some .drop => s.packetDestroyAll p
  | some (.destroyed mbuf) => (s.setMbuf p mbuf).packetDestroyAll p
  | some (.flow mbuf) => (s.setMbuf p mbuf).flowHandlePacket env p
  | some (.defrag mbuf) =>
    match (s.setMbuf p mbuf).defrag env.defrag p with
    | (s, none) => s
    | (s, some nmbuf) => s.decodeDatagram env nmbuf

def timeoutBucket (FRAG_MAX_TIMEOUT current_cycle : UInt64) (trylock : FragBucket → Bool)
    (s : State) (i : FragBucket) : State :=
  if trylock i then
    let timeout := (s.table i).filter fun fcb => timedOut FRAG_MAX_TIMEOUT current_cycle fcb
    let s := s.setBucket i
      ((s.table i).filter fun fcb => ¬ timedOut FRAG_MAX_TIMEOUT current_cycle fcb)
    timeout.reverse.foldl (fun s tfcb => s.fragDefragFreefrags tfcb.queue.fragments) s
  else
    s

def fragDefragTimeout (FRAG_MAX_TIMEOUT current_cycle : UInt64) (trylock : FragBucket → Bool)
    (s : State) : State :=
  (List.finRange FRAG_BUCKET_NUM).foldl (timeoutBucket FRAG_MAX_TIMEOUT current_cycle trylock) s

def octTxDoneLoop (port : Nat) : Nat → State → State
  | 0, s => s
  | rounds + 1, s =>
    let tx_done := s.tx_done port
    if tx_done.consumer = tx_done.producer then
      s
    else
      let pend_tx_done := tx_done.pend_tx_done tx_done.consumer
      if pend_tx_done.mem_ref = 0xFF then
        s
      else
        octTxDoneLoop port rounds
          ((s.packetDestroyAll pend_tx_done.mb).setTxDone port { tx_done with
            consumer := tx_done.consumer + 1
            tx_entries := tx_done.tx_entries - 1 })

def octTxDoneCheck (s : State) : State :=
  (List.range OCT_PHY_PORT_MAX).foldl (fun s port =>
    if (s.tx_done port).tx_entries ≠ 0 then
      octTxDoneLoop port OCT_PKO_TX_DESC_NUM s
    else
      s) s

def txDone (s : State) (port : Nat) (k : Fin OCT_PKO_TX_DESC_NUM) : State :=
  let tx_done := s.tx_done port
  s.setTxDone port { tx_done with
    pend_tx_done := Function.update tx_done.pend_tx_done k
      { tx_done.pend_tx_done k with mem_ref := 0 } }

end State

inductive Call where
  -- `oct_rx_process_work` and `Decode`
  | decode (frame : List UInt8) (pkt_virt : UInt64) (input_port : UInt32) (env : Env)
  | fragDefragTimeout (current_cycle : UInt64) (trylock : FragBucket → Bool)
  | octTxDoneCheck
  | txDone (port : Nat) (k : Fin OCT_PKO_TX_DESC_NUM)

def Call.Valid : Call → Prop
  | .decode frame _ input_port _ => frame.length < 2 ^ 16 ∧ input_port.toNat < OCT_PHY_PORT_MAX
  | .txDone port _ => port < OCT_PHY_PORT_MAX
  | _ => True

def Call.run (FRAG_MAX_TIMEOUT : UInt64) (s : State) : Call → State
  | .decode frame pkt_virt input_port env =>
    let (s, m) := s.make (octRxProcessWork frame pkt_virt input_port)
    s.decode env m
  | .fragDefragTimeout current_cycle trylock =>
    s.fragDefragTimeout FRAG_MAX_TIMEOUT current_cycle trylock
  | .octTxDoneCheck => s.octTxDoneCheck
  | .txDone port k => s.txDone port k

/-- The states after the calls of any sequence. -/
inductive Reachable (FRAG_MAX_TIMEOUT : UInt64) : State → Prop where
  | init (mbuf : Packet → Mbuf) : Reachable FRAG_MAX_TIMEOUT (State.init mbuf)
  | call {s : State} (h : Reachable FRAG_MAX_TIMEOUT s) (call : Call) (hvalid : call.Valid)
      : Reachable FRAG_MAX_TIMEOUT (call.run FRAG_MAX_TIMEOUT s)

end SecFw.Packets
