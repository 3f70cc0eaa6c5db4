import SecFw.Decode.Packet

/-!
This module contains what a core does with the work-queue entries that it is given: received packets
and the commands of the management plane. A ledger counts how often the entry and its packet are given
back or passed on.
-/

namespace SecFw.RxWork

open Decode

abbrev COMMAND_INVALID : UInt16 := 0x0
abbrev COMMAND_SHOW_BUILD_TIME : UInt16 := 0xA001
abbrev COMMAND_SHOW_PKT_STAT : UInt16 := 0xA002
abbrev COMMAND_SHOW_MEM_POOL : UInt16 := 0xA003
abbrev COMMAND_ACL_RULE_COMMIT : UInt16 := 0xA004

abbrev FROM_INPUT_PORT_GROUP : UInt8 := 0
abbrev TIMER_GROUP : UInt8 := 8
abbrev FROM_LINUX_GROUP : UInt8 := 13
abbrev TO_LINUX_GROUP : UInt8 := 14

abbrev ETH_P : UInt16 := 0x3322

abbrev RPC_ETHER_HDR_SIZE : Nat := 14
abbrev RPC_MSG_SIZE : Nat := 4

structure Work where
  -- `cvmx_wqe_t`, with `addr` and `size` of its packet pointer
  rcv_error : Bool
  bufs : UInt8
  addr : UInt64
  size : UInt16
  len : UInt16
  port : UInt32
  grp : UInt8
  deriving DecidableEq, Repr

structure Response where
  type : UInt16
  opcode : UInt16
  info_len : UInt16
  info_buf : List UInt8
  deriving DecidableEq, Repr

structure Env where
  -- what the functions get from outside, a pointer is an address and 0 is NULL: the translation of
  -- addresses, the result of `MBUF_ALLOC`, the bytes at an address and the texts of the commands
  cvmx_phys_to_ptr : UInt64 → UInt64
  mbuf_alloc : UInt64
  memory : UInt64 → List UInt8
  build_time : List UInt8
  pkt_stat : List UInt8
  mem_pool : List UInt8

structure Handled where
  freed_entry : Nat
  freed_packet : Nat
  to_linux : List (Work × Response)
  mbuf : Option Mbuf

namespace Handled

def kept : Handled := ⟨0, 0, [], none⟩

def entries (h : Handled) : Nat := h.freed_entry + h.to_linux.length

def packets (h : Handled) : Nat := h.freed_packet + h.to_linux.length + h.mbuf.toList.length

end Handled

def fpaFree (h : Handled) : Handled := { h with freed_entry := h.freed_entry + 1 }

def octPacketFree (h : Handled) : Handled :=
  fpaFree { h with freed_packet := h.freed_packet + 1 }

def octRxProcessWork (env : Env) (wq : Work) (h : Handled) : Option Handled :=
  -- `none` is a write through NULL
  if wq.rcv_error ∨ wq.bufs > 1 then
    some (octPacketFree h)
  else
    let pkt_virt := env.cvmx_phys_to_ptr wq.addr
    if pkt_virt = 0 then
      some h
    else if env.mbuf_alloc = 0 then
      none
    else
      let m := { Decode.octRxProcessWork (env.memory pkt_virt) pkt_virt wq.port with
        pkt_totallen := wq.len }
      some { fpaFree h with mbuf := some m }

def rpcOpcode (env : Env) (data : UInt64) : UInt16 :=
  UInt16.ofNat (Bytes.field (env.memory data) 0 2)

def octRxCommandGet (env : Env) (work : Work) : UInt16 :=
  if work.bufs ≠ 0 then
    let data := env.cvmx_phys_to_ptr work.addr
    if data = 0 then COMMAND_INVALID else rpcOpcode env data
  else
    COMMAND_INVALID

def octSendResponse (env : Env) (work : Work) (opcode : UInt16) (data : List UInt8) (h : Handled)
    : Option Handled :=
  -- the entry goes to Linux with its packet
  let resp := env.cvmx_phys_to_ptr work.addr
  if resp = 0 then
    none
  else
    let rpcmsg : Response := {
      type := ETH_P
      opcode := opcode
      info_len := UInt16.ofNat data.length
      info_buf := data
    }
    let size := UInt16.ofNat (RPC_ETHER_HDR_SIZE + RPC_MSG_SIZE + rpcmsg.info_len.toNat)
    let work := { work with
      size := size
      len := size
      port := 0
      grp := TO_LINUX_GROUP }
    some { h with to_linux := h.to_linux ++ [(work, rpcmsg)] }

def dpShowBuildTime (env : Env) (wq : Work) (data : UInt64) : Handled → Option Handled :=
  octSendResponse env wq (rpcOpcode env data) env.build_time

def dpShowPktStat (env : Env) (wq : Work) (data : UInt64) : Handled → Option Handled :=
  octSendResponse env wq (rpcOpcode env data) env.pkt_stat

def dpShowMemPool (env : Env) (wq : Work) (data : UInt64) : Handled → Option Handled :=
  octSendResponse env wq (rpcOpcode env data) env.mem_pool

def dpAclRuleCommit (env : Env) (wq : Work) (data : UInt64) : Handled → Option Handled :=
  octSendResponse env wq (rpcOpcode env data) env.build_time

def octRxProcessCommand (env : Env) (wq : Work) (h : Handled) : Option Handled :=
  -- the last command falls through to the text of the default
  let opcode := octRxCommandGet env wq
  if opcode = COMMAND_INVALID then
    some (octPacketFree h)
  else
    let data := env.cvmx_phys_to_ptr wq.addr
    if opcode = COMMAND_SHOW_BUILD_TIME then
      dpShowBuildTime env wq data h
    else if opcode = COMMAND_SHOW_PKT_STAT then
      dpShowPktStat env wq data h
    else if opcode = COMMAND_SHOW_MEM_POOL then
      dpShowMemPool env wq data h
    else if opcode = COMMAND_ACL_RULE_COMMIT then
      dpAclRuleCommit env wq data h
    else
      some h

def mainloop (env : Env) (work : Work) : Option Handled :=
  if FROM_INPUT_PORT_GROUP = work.grp then
    octRxProcessWork env work .kept
  else if TIMER_GROUP = work.grp then
    some .kept
  else if FROM_LINUX_GROUP = work.grp then
    octRxProcessCommand env work .kept
  else
    some .kept

/-- The entry and its packet are freed or passed on once. -/
def DisposedOnce (result : Option Handled) : Prop :=
  ∃ h, result = some h ∧ h.entries = 1 ∧ h.packets = 1

/-- A received packet has an error, or it has an address and there is a descriptor for it. -/
def WorkOk (env : Env) (wq : Work) : Prop :=
  (wq.rcv_error ∨ wq.bufs > 1) ∨ (env.cvmx_phys_to_ptr wq.addr ≠ 0 ∧ env.mbuf_alloc ≠ 0)

/-- A message from Linux is no message, or it has one of the opcodes. -/
def CommandOk (env : Env) (wq : Work) : Prop :=
  octRxCommandGet env wq ∈ [COMMAND_INVALID, COMMAND_SHOW_BUILD_TIME, COMMAND_SHOW_PKT_STAT,
    COMMAND_SHOW_MEM_POOL, COMMAND_ACL_RULE_COMMIT]

section Disposed

variable {env : Env} {wq : Work}

theorem disposedOnce_some {h : Handled} : DisposedOnce (some h) ↔ h.entries = 1 ∧ h.packets = 1 := by
  simp [DisposedOnce]

theorem not_disposedOnce_none : ¬ DisposedOnce none := by
  simp [DisposedOnce]

theorem disposedOnce_octPacketFree : DisposedOnce (some (octPacketFree .kept)) :=
  disposedOnce_some.mpr ⟨rfl, rfl⟩

theorem not_disposedOnce_kept : ¬ DisposedOnce (some .kept) := by
  rw [disposedOnce_some]
  simp [Handled.kept, Handled.entries]

theorem disposedOnce_octRxProcessWork
    : DisposedOnce (octRxProcessWork env wq .kept) ↔ WorkOk env wq := by
  unfold octRxProcessWork WorkOk
  split
  . next herror => exact iff_of_true disposedOnce_octPacketFree (Or.inl herror)
  next herror =>
  dsimp only
  split
  . next hnull =>
    apply iff_of_false not_disposedOnce_kept
    simp [herror, hnull]
  next hptr =>
  split
  . next halloc =>
    apply iff_of_false not_disposedOnce_none
    simp [herror, halloc]
  . next halloc => exact iff_of_true (disposedOnce_some.mpr ⟨rfl, rfl⟩) (Or.inr ⟨hptr, halloc⟩)

theorem disposedOnce_octSendResponse {opcode : UInt16} {data : List UInt8}
    (hvalid : octRxCommandGet env wq ≠ COMMAND_INVALID)
    : DisposedOnce (octSendResponse env wq opcode data .kept) := by
  have hptr : env.cvmx_phys_to_ptr wq.addr ≠ 0 := by
    intro hnull
    apply hvalid
    unfold octRxCommandGet
    simp [hnull]
  unfold octSendResponse
  dsimp only
  rw [if_neg hptr]
  exact disposedOnce_some.mpr ⟨rfl, rfl⟩

theorem disposedOnce_octRxProcessCommand
    : DisposedOnce (octRxProcessCommand env wq .kept) ↔ CommandOk env wq := by
  unfold octRxProcessCommand CommandOk
  dsimp only
  split
  . next hinvalid =>
    apply iff_of_true disposedOnce_octPacketFree
    simp [hinvalid]
  next hvalid =>
  split
  . next hopcode =>
    apply iff_of_true (disposedOnce_octSendResponse hvalid)
    simp [hopcode]
  next hbuild =>
  split
  . next hopcode =>
    apply iff_of_true (disposedOnce_octSendResponse hvalid)
    simp [hopcode]
  next hstat =>
  split
  . next hopcode =>
    apply iff_of_true (disposedOnce_octSendResponse hvalid)
    simp [hopcode]
  next hpool =>
  split
  . next hopcode =>
    apply iff_of_true (disposedOnce_octSendResponse hvalid)
    simp [hopcode]
  . next hcommit =>
    apply iff_of_false not_disposedOnce_kept
    simp [hvalid, hbuild, hstat, hpool, hcommit]

/--
An entry of the input ports is disposed of once exactly when it has an error or gets a descriptor, an
entry from Linux exactly when it is no message or its opcode is known.
-/
theorem work_disposed_once_iff (env : Env) (work : Work)
    : (work.grp = FROM_INPUT_PORT_GROUP → (DisposedOnce (mainloop env work) ↔ WorkOk env work))
      ∧ (work.grp = FROM_LINUX_GROUP → (DisposedOnce (mainloop env work) ↔ CommandOk env work)) := by
  constructor
  . intro hgrp
    unfold mainloop
    rw [if_pos hgrp.symm]
    exact disposedOnce_octRxProcessWork
  . intro hgrp
    unfold mainloop
    rw [hgrp, if_neg (by decide), if_neg (by decide), if_pos rfl]
    exact disposedOnce_octRxProcessCommand

end Disposed

def exhausted : Env where
  cvmx_phys_to_ptr addr := addr
  mbuf_alloc := 0
  memory _ := [0xA0, 0x05, 0, 0]
  build_time := []
  pkt_stat := []
  mem_pool := []

def packetAt (addr : UInt64) (grp : UInt8) : Work where
  rcv_error := false
  bufs := 1
  addr := addr
  size := 64
  len := 64
  port := 0
  grp := grp

def supplied : Env := { exhausted with
  mbuf_alloc := 8192
  memory _ := [0xA0, 0x01, 0, 0] }

theorem work_disposed_once_packetAt
    : DisposedOnce (mainloop supplied (packetAt 4096 FROM_INPUT_PORT_GROUP))
      ∧ DisposedOnce (mainloop supplied (packetAt 4096 FROM_LINUX_GROUP))
      ∧ ¬ DisposedOnce (mainloop exhausted (packetAt 4096 FROM_INPUT_PORT_GROUP)) := by
  refine ⟨?_, ?_, ?_⟩
  . apply ((work_disposed_once_iff supplied (packetAt 4096 FROM_INPUT_PORT_GROUP)).1 rfl).mpr
    exact Or.inr (by decide)
  . apply ((work_disposed_once_iff supplied (packetAt 4096 FROM_LINUX_GROUP)).2 rfl).mpr
    exact List.mem_cons_of_mem _ (List.mem_cons_self ..)
  . rw [(work_disposed_once_iff exhausted (packetAt 4096 FROM_INPUT_PORT_GROUP)).1 rfl]
    rintro (herror | hok)
    . exact absurd herror (by decide)
    . exact absurd hok.2 (by decide)

theorem work_lost
    : mainloop exhausted (packetAt 4096 FROM_INPUT_PORT_GROUP) = none
      ∧ (mainloop exhausted (packetAt 0 FROM_INPUT_PORT_GROUP)).map Handled.entries = some 0
      ∧ (mainloop exhausted (packetAt 4096 FROM_LINUX_GROUP)).map Handled.entries = some 0
      ∧ ¬ DisposedOnce (mainloop exhausted (packetAt 4096 FROM_INPUT_PORT_GROUP))
      ∧ ¬ DisposedOnce (mainloop exhausted (packetAt 0 FROM_INPUT_PORT_GROUP))
      ∧ ¬ DisposedOnce (mainloop exhausted (packetAt 4096 FROM_LINUX_GROUP)) :=
  ⟨rfl, rfl, rfl, not_disposedOnce_none, not_disposedOnce_kept, not_disposedOnce_kept⟩

end SecFw.RxWork
