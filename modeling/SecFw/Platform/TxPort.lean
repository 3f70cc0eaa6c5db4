import SecFw.Packets.Calls

/-!
This module contains the port that a packet is transmitted on. `l7_deliver` hands the input port of the
packet over in 8 bits, and the test against `OCT_PHY_PORT_MAX` lets a port through that is one too large.
-/

namespace SecFw.TxPort

open Packets

inductive TxStat where
  | port_err
  | hw_send_err
  | sw_desc_err
  | sw_send_err
  | send_over
  deriving DecidableEq, Repr

inductive TxEvent where
  | packetDestroyAll
  | packetDestroyData
  | mbufFree
  | stat (stat : TxStat)
  -- `cvmx_pko_get_base_queue` and `cvmx_pko_send_packet_prepare`
  | prepare (port : UInt8)
  | txDone (index : Nat)
  -- `cvmx_pko_send_packet_finish` or its sibling with three words
  | finish (port : UInt8) (send_status : Bool)
  deriving DecidableEq, Repr

def TxEvent.port : TxEvent → Option Nat
  | .prepare port => some port.toNat
  | .txDone index => some index
  | .finish port _ => some port.toNat
  | _ => none

def octTxProcessMbuf (s : State) (mbuf : Packet) (port : UInt8) (send : Bool)
    : State × List TxEvent :=
  -- `oct_tx_process_mbuf` with what it does in order, `send` says whether the hardware takes the
  -- packet
  if port.toNat > OCT_PHY_PORT_MAX then
    (s.packetDestroyAll mbuf, [.packetDestroyAll, .stat .port_err])
  else
    match (s.mbuf mbuf).pkt_space with
    | .PKTBUF_HW =>
      if send then
        ((s.hwBack mbuf).mbufFree mbuf,
          [.prepare port, .finish port true, .mbufFree, .stat .send_over])
      else
        ((s.packetDestroyData mbuf).mbufFree mbuf,
          [.prepare port, .finish port false, .stat .hw_send_err, .packetDestroyData, .mbufFree,
            .stat .send_over])
    | .PKTBUF_SW =>
      let tx_done := s.tx_done port.toNat
      if tx_done.tx_entries.toNat < OCT_PKO_TX_DESC_NUM - 1 then
        let tx_done := State.octPendTxDoneAdd tx_done mbuf
        if send then
          (s.setTxDone port.toNat tx_done,
            [.prepare port, .txDone port.toNat, .finish port true, .stat .send_over])
        else
          ((s.setTxDone port.toNat (State.octPendTxDoneRemove tx_done)).packetDestroyAll mbuf,
            [.prepare port, .txDone port.toNat, .finish port false, .packetDestroyAll,
              .stat .sw_send_err])
      else
        (s.packetDestroyAll mbuf,
          [.prepare port, .txDone port.toNat, .packetDestroyAll, .stat .sw_desc_err])

def l7Deliver (s : State) (m : Packet) (send : Bool) : State × List TxEvent :=
  -- the port is an `uint8_t` for the function that is called
  octTxProcessMbuf s m (s.mbuf m).input_port.toUInt8 send

def PortErr (events : List TxEvent) : Prop := events = [.packetDestroyAll, .stat .port_err]

structure ForPort (events : List TxEvent) (port : Nat) : Prop where
  prepared : ∃ e ∈ events, e.port = some port
  only : ∀ e ∈ events, ∀ q, e.port = some q → q = port

structure Queued (events : List TxEvent) (port : Nat) : Prop extends ForPort events port where
  sent : ∃ e : UInt8, e.toNat = port ∧ .finish e true ∈ events

/-- The packet is refused or goes to its input port, which has an element in `tx_done`. -/
def PortBounded (input_port : UInt32) (events : List TxEvent) : Prop :=
  PortErr events ∨ ForPort events input_port.toNat ∧ input_port.toNat < OCT_PHY_PORT_MAX

/-- The same with a packet that the hardware takes. -/
def QueuedBounded (input_port : UInt32) (events : List TxEvent) : Prop :=
  PortErr events ∨ Queued events input_port.toNat ∧ input_port.toNat < OCT_PHY_PORT_MAX

/-- The low 8 bits of the port are too large, or the port is a physical one. -/
def PortFits (input_port : UInt32) : Prop :=
  OCT_PHY_PORT_MAX < input_port.toUInt8.toNat ∨ input_port.toNat < OCT_PHY_PORT_MAX

/-- The ring of the port has room for a software buffer, and the hardware takes the packet. -/
def Accepted (s : State) (m : Packet) (send : Bool) : Prop :=
  send = true ∧ ((s.mbuf m).pkt_space = .PKTBUF_SW →
    (s.tx_done (s.mbuf m).input_port.toUInt8.toNat).tx_entries.toNat < OCT_PKO_TX_DESC_NUM - 1)

section Events

variable {s : State} {m : Packet} {port : UInt8} {send : Bool}

theorem state_octTxProcessMbuf
    : (octTxProcessMbuf s m port send).1 = s.octTxProcessMbuf m port send := by
  unfold octTxProcessMbuf State.octTxProcessMbuf
  split
  . rfl
  . cases (s.mbuf m).pkt_space with
    | PKTBUF_HW => cases send <;> rfl
    | PKTBUF_SW =>
      dsimp only
      split
      . cases send <;> rfl
      . rfl

theorem state_l7Deliver {env : Env} (hflow : env.flow = true)
    : (l7Deliver s m env.send).1 = s.flowHandlePacket env m := by
  rw [l7Deliver, state_octTxProcessMbuf, State.flowHandlePacket, if_pos hflow]

theorem portErr_of_gt (h : OCT_PHY_PORT_MAX < port.toNat)
    : PortErr (octTxProcessMbuf s m port send).2 := by
  rw [octTxProcessMbuf, if_pos h, PortErr]

theorem forPort_of_le (s : State) (m : Packet) (send : Bool) (h : port.toNat ≤ OCT_PHY_PORT_MAX)
    : ForPort (octTxProcessMbuf s m port send).2 port.toNat
      ∧ ¬ PortErr (octTxProcessMbuf s m port send).2 := by
  rw [octTxProcessMbuf, if_neg (Nat.not_lt.mpr h)]
  cases (s.mbuf m).pkt_space with
  | PKTBUF_HW =>
    cases send with
    | true => exact ⟨⟨by simp [TxEvent.port], by simp [TxEvent.port]⟩, by simp [PortErr]⟩
    | false => exact ⟨⟨by simp [TxEvent.port], by simp [TxEvent.port]⟩, by simp [PortErr]⟩
  | PKTBUF_SW =>
    dsimp only
    split
    . cases send with
      | true => exact ⟨⟨by simp [TxEvent.port], by simp [TxEvent.port]⟩, by simp [PortErr]⟩
      | false => exact ⟨⟨by simp [TxEvent.port], by simp [TxEvent.port]⟩, by simp [PortErr]⟩
    . exact ⟨⟨by simp [TxEvent.port], by simp [TxEvent.port]⟩, by simp [PortErr]⟩

theorem finish_mem_iff (h : port.toNat ≤ OCT_PHY_PORT_MAX) (e : UInt8)
    : .finish e true ∈ (octTxProcessMbuf s m port send).2
        ↔ e = port ∧ send = true ∧ ((s.mbuf m).pkt_space = .PKTBUF_SW
          → (s.tx_done port.toNat).tx_entries.toNat < OCT_PKO_TX_DESC_NUM - 1) := by
  rw [octTxProcessMbuf, if_neg (Nat.not_lt.mpr h)]
  cases (s.mbuf m).pkt_space with
  | PKTBUF_HW => cases send <;> simp
  | PKTBUF_SW =>
    dsimp only
    split
    . next hroom =>
      have hroom : (s.tx_done port.toNat).tx_entries.toNat < 63 := hroom
      cases send <;> simp [hroom]
    . next hfull =>
      have hfull : ¬ (s.tx_done port.toNat).tx_entries.toNat < 63 := hfull
      simp [hfull]

end Events

section Deliver

variable {s : State} {m : Packet} {send : Bool}

theorem toNat_narrow {input_port : UInt32} (h : input_port.toNat < OCT_PHY_PORT_MAX)
    : input_port.toUInt8.toNat = input_port.toNat := by
  rw [UInt32.toNat_toUInt8]
  exact Nat.mod_eq_of_lt (Nat.lt_trans h (by decide))

theorem portBounded_iff
    : PortBounded (s.mbuf m).input_port (l7Deliver s m send).2
        ↔ PortFits (s.mbuf m).input_port := by
  unfold PortBounded PortFits l7Deliver
  by_cases hgt : OCT_PHY_PORT_MAX < (s.mbuf m).input_port.toUInt8.toNat
  . exact iff_of_true (Or.inl (portErr_of_gt hgt)) (Or.inl hgt)
  . rcases forPort_of_le s m send (Nat.le_of_not_lt hgt) with ⟨hfor, herr⟩
    rw [or_iff_right herr, or_iff_right hgt]
    constructor
    . exact fun h => h.2
    . intro hlt
      exact ⟨toNat_narrow hlt ▸ hfor, hlt⟩

theorem queuedBounded_iff
    : QueuedBounded (s.mbuf m).input_port (l7Deliver s m send).2
        ↔ OCT_PHY_PORT_MAX < (s.mbuf m).input_port.toUInt8.toNat
          ∨ (s.mbuf m).input_port.toNat < OCT_PHY_PORT_MAX ∧ Accepted s m send := by
  unfold QueuedBounded l7Deliver
  by_cases hgt : OCT_PHY_PORT_MAX < (s.mbuf m).input_port.toUInt8.toNat
  . exact iff_of_true (Or.inl (portErr_of_gt hgt)) (Or.inl hgt)
  . have hle := Nat.le_of_not_lt hgt
    rcases forPort_of_le s m send hle with ⟨hfor, herr⟩
    rw [or_iff_right herr, or_iff_right hgt]
    constructor
    . rintro ⟨hqueued, hlt⟩
      rcases hqueued.sent with ⟨e, -, he⟩
      exact ⟨hlt, ((finish_mem_iff hle e).mp he).2⟩
    . rintro ⟨hlt, haccepted⟩
      refine ⟨⟨toNat_narrow hlt ▸ hfor, _, toNat_narrow hlt, ?_⟩, hlt⟩
      exact (finish_mem_iff hle _).mpr ⟨rfl, haccepted⟩

theorem flowHandlePacket_portBounded_iff {env : Env} (hflow : env.flow = true)
    : ∃ events, l7Deliver s m env.send = (s.flowHandlePacket env m, events)
        ∧ (PortBounded (s.mbuf m).input_port events ↔ PortFits (s.mbuf m).input_port) :=
  ⟨_, Prod.ext (state_l7Deliver hflow) rfl, portBounded_iff⟩

end Deliver

/--
A packet is refused or goes to the port that it came from, with an element in `tx_done`, exactly when
the port is a physical one or the low 8 bits of it are too large. It is taken then if and only if there
is room and the hardware takes it.
-/
theorem tx_port_bounded_iff (s : State) (m : Packet) (send : Bool)
    : (PortBounded (s.mbuf m).input_port (l7Deliver s m send).2 ↔ PortFits (s.mbuf m).input_port)
      ∧ (QueuedBounded (s.mbuf m).input_port (l7Deliver s m send).2
        ↔ OCT_PHY_PORT_MAX < (s.mbuf m).input_port.toUInt8.toNat
          ∨ (s.mbuf m).input_port.toNat < OCT_PHY_PORT_MAX ∧ Accepted s m send) :=
  ⟨portBounded_iff, queuedBounded_iff⟩

def received (input_port : UInt32) : State :=
  State.init fun _ => { Decode.octRxProcessWork [] 0x4000 input_port with pkt_space := .PKTBUF_SW }

theorem not_portBounded_received
    : (.txDone OCT_PHY_PORT_MAX ∈ (l7Deliver (received 4) 0 true).2
        ∧ ¬ PortBounded 4 (l7Deliver (received 4) 0 true).2)
      ∧ .finish 0 true ∈ (l7Deliver (received 256) 0 true).2
        ∧ ¬ PortBounded 256 (l7Deliver (received 256) 0 true).2 := by
  have hlast : ¬ PortFits ((received 4).mbuf 0).input_port := by
    rintro (h | h)
    . exact absurd h (by decide)
    . exact absurd h (by decide)
  have hnarrow : ¬ PortFits ((received 256).mbuf 0).input_port := by
    rintro (h | h)
    . exact absurd h (by decide)
    . exact absurd h (by decide)
  refine ⟨⟨?_, mt portBounded_iff.mp hlast⟩, ?_, mt portBounded_iff.mp hnarrow⟩
  . have hevents : (l7Deliver (received 4) 0 true).2
        = [.prepare 4, .txDone 4, .finish 4 true, .stat .send_over] := rfl
    rw [hevents]
    simp
  . have hevents : (l7Deliver (received 256) 0 true).2
        = [.prepare 0, .txDone 0, .finish 0 true, .stat .send_over] := rfl
    rw [hevents]
    simp

end SecFw.TxPort
