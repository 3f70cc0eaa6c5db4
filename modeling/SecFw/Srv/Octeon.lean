import SecFw.Srv.Reply

/-!
This module contains the calls of the management plane to the data plane over the `pow0` interface,
from the frame that is received to the answer to the client. The length of the frame is used before it
is checked.
-/

namespace SecFw.Srv

abbrev MAX_RECV_LEN : Nat := 2048

abbrev LINK_HEADER_SIZE : Nat := 14

abbrev RPC_MSG_SIZE : Nat := 4

abbrev PARAMS_LIST_SIZE : Nat := 40 * RCP_MAX_DATA_BLOCK_PER_MESSAGE

def rpcMsg (opcode info_len : UInt16) : List UInt8 :=
  Bytes.bigEndian 2 opcode.toNat ++ Bytes.bigEndian 2 info_len.toNat

structure Frame where
  bytes : List UInt8
  length_le : bytes.length ≤ MAX_RECV_LEN

structure PowIo where
  -- what the system answers: whether `malloc` has memory, the result of `sendto` for the bytes
  -- that are sent, and the frame of `recvfrom` or none for the error
  malloc : Bool
  sendto : List UInt8 → Int
  recvfrom : Option Frame

def powSendFn (io : PowIo) (data : List UInt8) : Int :=
  let len := io.sendto data
  if len = -1 then -1 else if len < data.length then -1 else 0

structure PowRecv where
  ret : Int
  data : List UInt8
  size : UInt32

def memcpyInt (dst src : List UInt8) (n : Int) : Option (List UInt8) :=
  -- `memcpy` with the number of bytes as it is computed, a negative one is a huge one: `none`
  if n < 0 then none else some (memcpyAt dst 0 (src.take n.toNat))

def powRecvFn (io : PowIo) (data : List UInt8) (size : UInt32) : Option PowRecv :=
  if io.malloc then do
    let bytes :=
      match io.recvfrom with
      | some frame => frame.bytes
      | none => []
    let len : Int :=
      match io.recvfrom with
      | some frame => frame.bytes.length
      | none => -1
    let _data := bytes ++ List.replicate (MAX_RECV_LEN - bytes.length) 0
    let data ← memcpyInt data (_data.drop LINK_HEADER_SIZE) (len - 14)
    if len < 0 then
      some ⟨len, data, size⟩
    else
      some ⟨0, data, UInt32.ofInt (len - 14)⟩
  else
    some ⟨-1, data, size⟩

def powRpcSyncall2dp (io : PowIo) (send_buf res_buf : List UInt8) (res_len : UInt32)
    : Option PowRecv :=
  if powSendFn io send_buf < 0 then
    some ⟨-1, res_buf, res_len⟩
  else do
    let r ← powRecvFn io res_buf res_len
    if r.ret < 0 then
      some { r with ret := -1 }
    else
      some { r with ret := 0 }

def copyInfo (param_p : RcpMsgParams) (pos : Nat) (src : List UInt8) : Option RcpMsgParams :=
  if pos + src.length ≤ PARAMS_LIST_SIZE then
    let memory := memcpyAt param_p.infoBuf pos src
    some { param_p with params := Vector.ofFn fun i => ⟨Bytes.vector 40 memory (40 * i.val)⟩ }
  else
    none

structure RpcCall where
  ret : Int
  rcp_param_p : RcpMsgParams
  res : Option Replied
  interpreted : Nat

def octeonRpccall (io : PowIo) (recv_buf : Vector UInt8 MAX_RECV_LEN) (src : List UInt8)
    (param_p : RcpMsgParams) (cmdack : CmdType) (opcode : UInt16) : Option RpcCall := do
  -- `recv_buf` is what is on the stack
  let ptr := param_p.info_len.toNat
  let r ← powRpcSyncall2dp io (rpcMsg opcode 0) recv_buf.toList (UInt32.ofNat MAX_RECV_LEN)
  if r.ret < 0 then
    some ⟨-1, param_p, none, 0⟩
  else
    let info_len := UInt16.ofNat (Bytes.field r.data 2 2)
    if info_len.toNat + RPC_MSG_SIZE ≠ r.size.toNat then
      some ⟨-1, param_p, none, RPC_MSG_SIZE⟩
    else
      let param_p ← copyInfo param_p ptr ((r.data.drop RPC_MSG_SIZE).take info_len.toNat)
      let param_p ← copyInfo param_p (ptr + info_len.toNat) [0]
      let param_p := { param_p with info_len := param_p.info_len + info_len }
      let res := sendRcpRes cmdack src param_p 0
      some ⟨0, res.rcp_param_p, some res, RPC_MSG_SIZE + info_len.toNat⟩

def Frame.Complete (frame : Frame) : Prop :=
  ∃ link opcode info : List UInt8, ∃ info_len : UInt16,
    frame.bytes = link ++ opcode ++ Bytes.bigEndian 2 info_len.toNat ++ info
      ∧ link.length = LINK_HEADER_SIZE ∧ opcode.length = 2 ∧ info.length = info_len.toNat

def PowIo.received (io : PowIo) : Nat :=
  match io.recvfrom with
  | some frame => frame.bytes.length - LINK_HEADER_SIZE
  | none => 0

structure Validated (io : PowIo) (param_p : RcpMsgParams) (call : RpcCall) : Prop where
  interpreted : call.interpreted ≤ io.received
  replied : call.res ≠ none → ∃ frame, io.recvfrom = some frame ∧ frame.Complete
  refused : call.res = none → call.ret = -1 ∧ call.rcp_param_p = param_p

section Recv

variable {io : PowIo} {frame : Frame} {data : List UInt8} {size : UInt32}

theorem powRecvFn_error (hmalloc : io.malloc) (hrecv : io.recvfrom = none)
    : powRecvFn io data size = none := by
  simp [powRecvFn, hmalloc, hrecv, memcpyInt]

theorem powRecvFn_short (hmalloc : io.malloc) (hrecv : io.recvfrom = some frame)
    (hlen : frame.bytes.length < LINK_HEADER_SIZE) : powRecvFn io data size = none := by
  have hneg : (frame.bytes.length : Int) - 14 < 0 := by
    simp only [LINK_HEADER_SIZE] at hlen
    omega
  simp [powRecvFn, hmalloc, hrecv, memcpyInt, hneg]

theorem powRecvFn_frame (hmalloc : io.malloc) (hrecv : io.recvfrom = some frame)
    (hlen : LINK_HEADER_SIZE ≤ frame.bytes.length)
    : powRecvFn io data size
        =
      some ⟨0, memcpyAt data 0 (frame.bytes.drop LINK_HEADER_SIZE),
        UInt32.ofNat (frame.bytes.length - LINK_HEADER_SIZE)⟩ := by
  have hcount : (frame.bytes.length : Int) - 14 = (frame.bytes.length - LINK_HEADER_SIZE : Nat) := by
    simp only [LINK_HEADER_SIZE] at hlen ⊢
    omega
  have hpos : ¬ ((frame.bytes.length - LINK_HEADER_SIZE : Nat) : Int) < 0 := by omega
  have hsize : UInt32.ofInt ((frame.bytes.length - LINK_HEADER_SIZE : Nat) : Int)
      = UInt32.ofNat (frame.bytes.length - LINK_HEADER_SIZE) := by
    have hle := frame.length_le
    rw [UInt32.ofInt]
    congr 1
    simp only [MAX_RECV_LEN] at hle
    omega
  have hlen0 : ¬ (frame.bytes.length : Int) < 0 := by omega
  have hbytes : ((frame.bytes ++ List.replicate (MAX_RECV_LEN - frame.bytes.length) 0).drop
        LINK_HEADER_SIZE).take (frame.bytes.length - LINK_HEADER_SIZE)
      = frame.bytes.drop LINK_HEADER_SIZE := by
    rw [List.drop_append_of_le_length hlen, List.take_left']
    rw [List.length_drop]
  simp only [powRecvFn, hmalloc, hrecv, if_true, hcount, memcpyInt, if_neg hpos, Int.toNat_natCast,
    hbytes, Option.bind_eq_bind, Option.bind_some, if_neg hlen0, hsize]

end Recv

section Frame

variable {frame : Frame}

theorem Frame.complete_iff (hlen : LINK_HEADER_SIZE + RPC_MSG_SIZE ≤ frame.bytes.length)
    : frame.Complete
        ↔ Bytes.field (frame.bytes.drop LINK_HEADER_SIZE) 2 2 + RPC_MSG_SIZE
          = frame.bytes.length - LINK_HEADER_SIZE := by
  simp only [LINK_HEADER_SIZE, RPC_MSG_SIZE] at hlen ⊢
  constructor
  . rintro ⟨link, opcode, info, info_len, hbytes, hlink, hopcode, hinfo⟩
    have hdrop : frame.bytes.drop 14 = opcode ++ Bytes.bigEndian 2 info_len.toNat ++ info := by
      rw [hbytes, List.append_assoc, List.append_assoc, List.drop_left' hlink, List.append_assoc]
    have hfield : Bytes.field (frame.bytes.drop 14) 2 2 = info_len.toNat := by
      rw [Bytes.field, hdrop, List.append_assoc, List.drop_left' hopcode,
        List.take_left' (Bytes.length_bigEndian ..), Bytes.ofBigEndian_bigEndian info_len.toNat_lt]
    rw [hfield, hbytes]
    simp only [List.length_append, hlink, hopcode, hinfo, Bytes.length_bigEndian, LINK_HEADER_SIZE]
    omega
  . intro hfield
    have hlt : Bytes.field (frame.bytes.drop 14) 2 2 < 65536 := Bytes.field_lt _ 2 2
    have hroom : 2 + 2 ≤ (frame.bytes.drop 14).length := by
      rw [List.length_drop]
      omega
    refine ⟨frame.bytes.take 14, (frame.bytes.drop 14).take 2, (frame.bytes.drop 14).drop 4,
      UInt16.ofNat (Bytes.field (frame.bytes.drop 14) 2 2), ?_, ?_, ?_, ?_⟩
    . rw [Bytes.bigEndian_uint16_field hroom, List.append_assoc, List.append_assoc,
        Bytes.take_append_drop_drop, List.take_append_drop, List.take_append_drop]
    . rw [List.length_take, LINK_HEADER_SIZE]
      omega
    . rw [List.length_take, List.length_drop]
      omega
    . rw [List.length_drop, List.length_drop, UInt16.toNat_ofNat_of_lt' hlt]
      omega

end Frame

section Call

variable {io : PowIo} {recv_buf : Vector UInt8 MAX_RECV_LEN} {src : List UInt8}
  {param_p : RcpMsgParams} {cmdack : CmdType} {opcode : UInt16} {frame : Frame}

theorem copyInfo_eq_some (param_p : RcpMsgParams) {pos : Nat} {bytes : List UInt8}
    (h : pos + bytes.length ≤ PARAMS_LIST_SIZE)
    : ∃ p, copyInfo param_p pos bytes = some p ∧ p.info_len = param_p.info_len := by
  refine ⟨_, if_pos h, rfl⟩

theorem octeonRpccall_unsent (hsend : powSendFn io (rpcMsg opcode 0) < 0)
    : octeonRpccall io recv_buf src param_p cmdack opcode = some ⟨-1, param_p, none, 0⟩ := by
  simp [octeonRpccall, powRpcSyncall2dp, hsend]

theorem octeonRpccall_malloc (hsend : ¬ powSendFn io (rpcMsg opcode 0) < 0) (hmalloc : ¬ io.malloc)
    : octeonRpccall io recv_buf src param_p cmdack opcode = some ⟨-1, param_p, none, 0⟩ := by
  simp [octeonRpccall, powRpcSyncall2dp, hsend, powRecvFn, hmalloc]

theorem octeonRpccall_none (hsend : ¬ powSendFn io (rpcMsg opcode 0) < 0)
    (hrecv : ∀ data size, powRecvFn io data size = none)
    : octeonRpccall io recv_buf src param_p cmdack opcode = none := by
  simp [octeonRpccall, powRpcSyncall2dp, hsend, hrecv]

theorem octeonRpccall_frame (hsend : ¬ powSendFn io (rpcMsg opcode 0) < 0) (hmalloc : io.malloc)
    (hrecv : io.recvfrom = some frame) (hlen : LINK_HEADER_SIZE ≤ frame.bytes.length)
    (hroom : param_p.info_len.toNat + MAX_RECV_LEN ≤ PARAMS_LIST_SIZE) {data : List UInt8}
    (hdata : data = memcpyAt recv_buf.toList 0 (frame.bytes.drop LINK_HEADER_SIZE))
    : ∃ call, octeonRpccall io recv_buf src param_p cmdack opcode = some call
        ∧ (call = ⟨-1, param_p, none, RPC_MSG_SIZE⟩
            ∧ Bytes.field data 2 2 + RPC_MSG_SIZE ≠ frame.bytes.length - LINK_HEADER_SIZE
          ∨ call.res ≠ none ∧ call.interpreted = frame.bytes.length - LINK_HEADER_SIZE
            ∧ Bytes.field data 2 2 + RPC_MSG_SIZE = frame.bytes.length - LINK_HEADER_SIZE) := by
  have hle := frame.length_le
  have hlt : Bytes.field data 2 2 < 65536 := Bytes.field_lt data 2 2
  have hsize : (UInt32.ofNat (frame.bytes.length - LINK_HEADER_SIZE)).toNat
      = frame.bytes.length - LINK_HEADER_SIZE := by
    apply UInt32.toNat_ofNat_of_lt'
    simp only [MAX_RECV_LEN, UInt32.size] at hle ⊢
    omega
  have hret : ¬ (0 : Int) < 0 := by decide
  simp only [octeonRpccall, powRpcSyncall2dp, if_neg hsend, powRecvFn_frame hmalloc hrecv hlen,
    ← hdata, Option.bind_eq_bind, Option.bind_some, if_neg hret, hsize,
    UInt16.toNat_ofNat_of_lt' hlt]
  split
  . next hne => exact ⟨_, rfl, Or.inl ⟨rfl, hne⟩⟩
  . next heq =>
    rw [not_not] at heq
    simp only [MAX_RECV_LEN, LINK_HEADER_SIZE, RPC_MSG_SIZE] at hle heq hroom
    have hinfo : param_p.info_len.toNat
        + ((data.drop RPC_MSG_SIZE).take (Bytes.field data 2 2)).length ≤ PARAMS_LIST_SIZE := by
      have htake := List.length_take_le (Bytes.field data 2 2) (data.drop RPC_MSG_SIZE)
      omega
    rcases copyInfo_eq_some param_p hinfo with ⟨p1, hp1, -⟩
    have hend : param_p.info_len.toNat + Bytes.field data 2 2 + [(0 : UInt8)].length
        ≤ PARAMS_LIST_SIZE := by
      rw [List.length_singleton]
      omega
    rcases copyInfo_eq_some p1 hend with ⟨p2, hp2, -⟩
    rw [hp1, Option.bind_some, hp2, Option.bind_some]
    refine ⟨_, rfl, Or.inr ⟨Option.some_ne_none _, ?_, heq⟩⟩
    rw [Nat.add_comm]
    exact heq

theorem field_memcpyAt (dst : List UInt8) {bytes : List UInt8} (h : RPC_MSG_SIZE ≤ bytes.length)
    : Bytes.field (memcpyAt dst 0 bytes) 2 2 = Bytes.field bytes 2 2 := by
  simp only [RPC_MSG_SIZE] at h
  rw [Bytes.field, Bytes.field, memcpyAt, List.take_zero, List.nil_append,
    List.drop_append_of_le_length (by omega), List.take_append_of_le_length]
  rw [List.length_drop]
  omega

theorem received_eq (hrecv : io.recvfrom = some frame)
    : io.received = frame.bytes.length - LINK_HEADER_SIZE := by
  simp [PowIo.received, hrecv]

/-- `octeon_rpccall` does what it should for this answer of the system. -/
def Sound (io : PowIo) (recv_buf : Vector UInt8 MAX_RECV_LEN) (src : List UInt8)
    (param_p : RcpMsgParams) (cmdack : CmdType) (opcode : UInt16) : Prop :=
  ∃ call, octeonRpccall io recv_buf src param_p cmdack opcode = some call
    ∧ Validated io param_p call

theorem sound_of_message (hsend : ¬ powSendFn io (rpcMsg opcode 0) < 0) (hmalloc : io.malloc)
    (hrecv : io.recvfrom = some frame)
    (hlen : LINK_HEADER_SIZE + RPC_MSG_SIZE ≤ frame.bytes.length)
    (hroom : param_p.info_len.toNat + MAX_RECV_LEN ≤ PARAMS_LIST_SIZE)
    : Sound io recv_buf src param_p cmdack opcode := by
  have hheader : LINK_HEADER_SIZE ≤ frame.bytes.length := by omega
  have hmessage : RPC_MSG_SIZE ≤ (frame.bytes.drop LINK_HEADER_SIZE).length := by
    rw [List.length_drop]
    omega
  rcases octeonRpccall_frame hsend hmalloc hrecv hheader hroom rfl
    with ⟨call, hcall, ⟨rfl, -⟩ | ⟨hres, hinterpreted, hfield⟩⟩
  . refine ⟨_, hcall, ⟨?_, fun hres => absurd rfl hres, fun _ => ⟨rfl, rfl⟩⟩⟩
    rw [received_eq hrecv]
    dsimp only
    omega
  . refine ⟨call, hcall, ⟨?_, fun _ => ⟨frame, hrecv, ?_⟩, fun hnone => absurd hnone hres⟩⟩
    . rw [received_eq hrecv, hinterpreted]
    . rw [Frame.complete_iff hlen, ← hfield, field_memcpyAt _ hmessage]

theorem answered_iff_complete (hsend : ¬ powSendFn io (rpcMsg opcode 0) < 0) (hmalloc : io.malloc)
    (hrecv : io.recvfrom = some frame)
    (hlen : LINK_HEADER_SIZE + RPC_MSG_SIZE ≤ frame.bytes.length)
    (hroom : param_p.info_len.toNat + MAX_RECV_LEN ≤ PARAMS_LIST_SIZE)
    : ∃ call, octeonRpccall io recv_buf src param_p cmdack opcode = some call
        ∧ (call.res ≠ none ↔ frame.Complete) := by
  have hheader : LINK_HEADER_SIZE ≤ frame.bytes.length := by omega
  have hmessage : RPC_MSG_SIZE ≤ (frame.bytes.drop LINK_HEADER_SIZE).length := by
    rw [List.length_drop]
    omega
  rcases octeonRpccall_frame hsend hmalloc hrecv hheader hroom rfl
    with ⟨call, hcall, hcases⟩
  refine ⟨call, hcall, ?_⟩
  rw [Frame.complete_iff hlen, ← field_memcpyAt recv_buf.toList hmessage]
  rcases hcases with ⟨rfl, hne⟩ | ⟨hres, -, heq⟩
  . exact iff_of_false (fun hres => hres rfl) hne
  . exact iff_of_true hres heq

theorem not_sound_of_short (hsend : ¬ powSendFn io (rpcMsg opcode 0) < 0) (hmalloc : io.malloc)
    (hrecv : io.recvfrom = some frame)
    (hlen : frame.bytes.length < LINK_HEADER_SIZE + RPC_MSG_SIZE)
    (hroom : param_p.info_len.toNat + MAX_RECV_LEN ≤ PARAMS_LIST_SIZE)
    : ¬ Sound io recv_buf src param_p cmdack opcode := by
  rintro ⟨call, hcall, hvalidated⟩
  by_cases hheader : LINK_HEADER_SIZE ≤ frame.bytes.length
  . rcases octeonRpccall_frame hsend hmalloc hrecv hheader hroom rfl
      with ⟨call', hcall', hcases⟩
    rw [hcall, Option.some.injEq] at hcall'
    subst hcall'
    have hinterpreted := hvalidated.interpreted
    rw [received_eq hrecv] at hinterpreted
    rcases hcases with ⟨rfl, -⟩ | ⟨-, -, hfield⟩
    . simp only at hinterpreted
      omega
    . omega
  . rw [Nat.not_le] at hheader
    rw [octeonRpccall_none hsend fun _ _ => powRecvFn_short hmalloc hrecv hheader] at hcall
    contradiction

end Call

/-- A frame that is long enough for the link header and the header of a message. -/
def PowIo.LongEnough (io : PowIo) : Prop :=
  ∃ frame, io.recvfrom = some frame ∧ LINK_HEADER_SIZE + RPC_MSG_SIZE ≤ frame.bytes.length

/--
The answer of the data plane is validated before it is used exactly when nothing is received, for want
of a request or of memory, or when the frame is long enough for both headers. Parameters that were
cleared have room for everything that is received.
-/
theorem sound_iff (io : PowIo) (recv_buf : Vector UInt8 MAX_RECV_LEN) (src : List UInt8)
    (param_p : RcpMsgParams) (cmdack : CmdType) (opcode : UInt16)
    (hroom : param_p.info_len.toNat + MAX_RECV_LEN ≤ PARAMS_LIST_SIZE)
    : Sound io recv_buf src param_p cmdack opcode
        ↔
      powSendFn io (rpcMsg opcode 0) < 0 ∨ io.malloc = false ∨ io.LongEnough := by
  have hunsent {param_p : RcpMsgParams} : Validated io param_p ⟨-1, param_p, none, 0⟩ :=
    ⟨Nat.zero_le _, fun hres => absurd rfl hres, fun _ => ⟨rfl, rfl⟩⟩
  by_cases hsend : powSendFn io (rpcMsg opcode 0) < 0
  . exact iff_of_true ⟨_, octeonRpccall_unsent hsend, hunsent⟩ (Or.inl hsend)
  by_cases hmalloc : io.malloc
  . simp only [hsend, hmalloc, reduceCtorEq, false_or]
    cases hrecv : io.recvfrom with
    | none =>
      apply iff_of_false
      . rintro ⟨call, hcall, -⟩
        rw [octeonRpccall_none hsend fun _ _ => powRecvFn_error hmalloc hrecv] at hcall
        contradiction
      . rintro ⟨frame, hframe, -⟩
        rw [hrecv] at hframe
        contradiction
    | some frame =>
      constructor
      . intro hsound
        refine ⟨frame, hrecv, ?_⟩
        by_contra hlen
        exact not_sound_of_short hsend hmalloc hrecv (Nat.lt_of_not_le hlen) hroom hsound
      . rintro ⟨frame', hframe, hlen⟩
        exact sound_of_message hsend hmalloc hframe hlen hroom
  . refine iff_of_true ⟨_, octeonRpccall_malloc hsend hmalloc, hunsent⟩ (Or.inr (Or.inl ?_))
    exact Bool.eq_false_iff.mpr hmalloc

section Example

def PowIo.answering (recvfrom : Option Frame) : PowIo := ⟨true, fun data => data.length, recvfrom⟩

theorem sound_iff_cleared
    : Sound (.answering (some ⟨List.replicate 18 0, by decide⟩)) (Vector.replicate _ 0) []
          .cleared .SHOW_MEM_POOL_ACK 0xA003
        ↔
      powSendFn (.answering (some ⟨List.replicate 18 0, by decide⟩)) (rpcMsg 0xA003 0) < 0
        ∨ (PowIo.answering (some ⟨List.replicate 18 0, by decide⟩)).malloc = false
        ∨ (PowIo.answering (some ⟨List.replicate 18 0, by decide⟩)).LongEnough :=
  sound_iff _ _ _ _ _ _ (by decide)

theorem not_forall_sound
    : ¬ ∀ io, Sound io (Vector.replicate _ 0) [] .cleared .SHOW_MEM_POOL_ACK 0xA003 := by
  intro h
  have hsend : ¬ powSendFn (.answering none) (rpcMsg 0xA003 0) < 0 := by decide
  rcases h (.answering none) with ⟨call, hcall, -⟩
  rw [octeonRpccall_none hsend fun _ _ => powRecvFn_error rfl rfl] at hcall
  contradiction

end Example

end SecFw.Srv
