import SecFw.Common.AclRule

/-!
This module contains the messages between the command line client and the management plane: the
tables that say which header and which pack function belong to a command, the pack functions, and
the proof that a packed message is taken apart again by its receiver.
-/

namespace SecFw

open Bytes

abbrev MSG_VALID_FLAG : UInt8 := 0x88

abbrev MSG_TYPE_CLI_OCTEON : UInt8 := 0x1

abbrev BLOCK_TYPE_START : UInt8 := 0x00
abbrev BLOCK_IPV4_FIVE_TUPLE : UInt8 := 0x01
abbrev BLOCK_ACL_RULE_TUPLE : UInt8 := 0x02
abbrev BLOCK_RESULT_CODE : UInt8 := 0x3
abbrev BLOCK_ACL_RULE_ID : UInt8 := 0x4

abbrev MSG_CODE_SHOW_TEST_COMMAND : UInt16 := 0x101
abbrev MSG_CODE_SHOW_TEST_COMMAND_ACK : UInt16 := 0x102
abbrev MSG_CODE_SHOW_DP_BUILD_TIME : UInt16 := 0x103
abbrev MSG_CODE_SHOW_DP_BUILD_TIME_ACK : UInt16 := 0x104
abbrev MSG_CODE_SHOW_DP_PKT_STAT : UInt16 := 0x105
abbrev MSG_CODE_SHOW_DP_PKT_STAT_ACK : UInt16 := 0x106
abbrev MSG_CODE_SHOW_MEM_POOL : UInt16 := 0x107
abbrev MSG_CODE_SHOW_MEM_POOL_ACK : UInt16 := 0x108
abbrev MSG_CODE_SHOW_ACL_RULE : UInt16 := 0x109
abbrev MSG_CODE_SHOW_ACL_RULE_ACK : UInt16 := 0x10a
abbrev MSG_CODE_ADD_ACL_RULE : UInt16 := 0x10b
abbrev MSG_CODE_ADD_ACL_RULE_ACK : UInt16 := 0x10c
abbrev MSG_CODE_DEL_ACL_RULE : UInt16 := 0x10d
abbrev MSG_CODE_DEL_ACL_RULE_ACK : UInt16 := 0x10e
abbrev MSG_CODE_DEL_ACL_RULE_ID : UInt16 := 0x10f
abbrev MSG_CODE_DEL_ACL_RULE_ID_ACK : UInt16 := 0x110
abbrev MSG_CODE_DEL_ACL_RULE_ALL : UInt16 := 0x111
abbrev MSG_CODE_DEL_ACL_RULE_ALL_ACK : UInt16 := 0x112
abbrev MSG_CODE_COMMIT_ACL_RULE : UInt16 := 0x113
abbrev MSG_CODE_COMMIT_ACL_RULE_ACK : UInt16 := 0x114

inductive CmdType where
  | TEST_COMMAND
  | TEST_COMMAND_ACK
  | SHOW_DP_BUILD_TIME
  | SHOW_DP_BUILD_TIME_ACK
  | SHOW_DP_PKT_STAT
  | SHOW_DP_PKT_STAT_ACK
  | SHOW_MEM_POOL
  | SHOW_MEM_POOL_ACK
  | SHOW_ACL_RULE
  | SHOW_ACL_RULE_ACK
  | ADD_ACL_RULE
  | ADD_ACL_RULE_ACK
  | DEL_ACL_RULE
  | DEL_ACL_RULE_ACK
  | DEL_ACL_RULE_ID
  | DEL_ACL_RULE_ID_ACK
  | DEL_ACL_RULE_ALL
  | DEL_ACL_RULE_ALL_ACK
  | COMMIT_ACL_RULE
  | COMMIT_ACL_RULE_ACK
  | MAX_COMMAND_TYPE
  deriving DecidableEq, Repr

open CmdType

def CmdType.all : List CmdType :=
  [TEST_COMMAND, TEST_COMMAND_ACK, SHOW_DP_BUILD_TIME, SHOW_DP_BUILD_TIME_ACK, SHOW_DP_PKT_STAT,
    SHOW_DP_PKT_STAT_ACK, SHOW_MEM_POOL, SHOW_MEM_POOL_ACK, SHOW_ACL_RULE, SHOW_ACL_RULE_ACK,
    ADD_ACL_RULE, ADD_ACL_RULE_ACK, DEL_ACL_RULE, DEL_ACL_RULE_ACK, DEL_ACL_RULE_ID,
    DEL_ACL_RULE_ID_ACK, DEL_ACL_RULE_ALL, DEL_ACL_RULE_ALL_ACK, COMMIT_ACL_RULE,
    COMMIT_ACL_RULE_ACK, MAX_COMMAND_TYPE]

def cmdIsValid (cmd : CmdType) : Bool := cmd ≠ MAX_COMMAND_TYPE

structure MessageHead where
  flag : UInt8
  msg_type : UInt8
  msg_code : UInt16
  msg_id : UInt32
  more_flag : UInt8
  length : UInt8
  blocktype : UInt8
  data_block_num : UInt8
  deriving DecidableEq, Repr

abbrev MESSAGE_HEADER_LENGTH : Nat := 12

namespace MessageHead

def toBytes (h : MessageHead) : List UInt8 :=
  [h.flag, h.msg_type] ++ bigEndian 2 h.msg_code.toNat ++ bigEndian 4 h.msg_id.toNat
    ++ [h.more_flag, h.length, h.blocktype, h.data_block_num]

def ofBytes (bs : List UInt8) : MessageHead where
  flag := bs.getD 0 0
  msg_type := bs.getD 1 0
  msg_code := UInt16.ofNat (ofBigEndian ((bs.drop 2).take 2))
  msg_id := UInt32.ofNat (ofBigEndian ((bs.drop 4).take 4))
  more_flag := bs.getD 8 0
  length := bs.getD 9 0
  blocktype := bs.getD 10 0
  data_block_num := bs.getD 11 0

@[simp]
theorem length_toBytes (h : MessageHead) : h.toBytes.length = MESSAGE_HEADER_LENGTH := by
  simp [toBytes]

theorem ofBytes_toBytes (h : MessageHead) (rest : List UInt8) : ofBytes (h.toBytes ++ rest) = h := by
  have hcode : ((h.toBytes ++ rest).drop 2).take 2 = bigEndian 2 h.msg_code.toNat := by
    simp [toBytes, bigEndian]
  have hid : ((h.toBytes ++ rest).drop 4).take 4 = bigEndian 4 h.msg_id.toNat := by
    simp [toBytes, bigEndian]
  rw [ofBytes, hcode, hid, uint16_ofBigEndian_bigEndian, uint32_ofBigEndian_bigEndian]
  simp [toBytes, bigEndian]

theorem ofBytes_append {bs : List UInt8} (h : MESSAGE_HEADER_LENGTH ≤ bs.length) (rest : List UInt8)
    : ofBytes (bs ++ rest) = ofBytes bs := by
  have hlen : 12 ≤ bs.length := h
  have hbyte (k : Nat) (hk : k < 12) : (bs ++ rest).getD k 0 = bs.getD k 0 :=
    List.getD_append _ _ _ _ (by omega)
  have hfield (k n : Nat) (hk : k + n ≤ 12)
      : ((bs ++ rest).drop k).take n = (bs.drop k).take n := by
    rw [List.drop_append_of_le_length (by omega), List.take_append_of_le_length]
    rw [List.length_drop]
    omega
  simp only [ofBytes, hbyte 0 (by decide), hbyte 1 (by decide), hfield 2 2 (by decide),
    hfield 4 4 (by decide), hbyte 8 (by decide), hbyte 9 (by decide), hbyte 10 (by decide),
    hbyte 11 (by decide)]

end MessageHead

structure MsgHeaderInfo where
  flag : UInt8
  msg_type : UInt8
  msg_code : UInt16
  msg_block_type : UInt8
  deriving DecidableEq, Repr

def registerMsgHeader (flag : UInt8) (cmd : CmdType) (msg_type : UInt8) (msg_code : UInt16)
    (msg_block_type : UInt8) (cmd_msg_headers : CmdType → MsgHeaderInfo)
    : CmdType → MsgHeaderInfo :=
  if cmdIsValid cmd then
    Function.update cmd_msg_headers cmd ⟨flag, msg_type, msg_code, msg_block_type⟩
  else
    cmd_msg_headers

def initMsgHeader : CmdType → MsgHeaderInfo :=
  (fun _ => ⟨0, 0, 0, 0⟩)
  |> registerMsgHeader MSG_VALID_FLAG TEST_COMMAND MSG_TYPE_CLI_OCTEON
      MSG_CODE_SHOW_TEST_COMMAND BLOCK_TYPE_START
  |> registerMsgHeader MSG_VALID_FLAG TEST_COMMAND_ACK MSG_TYPE_CLI_OCTEON
      MSG_CODE_SHOW_TEST_COMMAND_ACK BLOCK_TYPE_START
  |> registerMsgHeader MSG_VALID_FLAG SHOW_DP_BUILD_TIME MSG_TYPE_CLI_OCTEON
      MSG_CODE_SHOW_DP_BUILD_TIME BLOCK_TYPE_START
  |> registerMsgHeader MSG_VALID_FLAG SHOW_DP_BUILD_TIME_ACK MSG_TYPE_CLI_OCTEON
      MSG_CODE_SHOW_DP_BUILD_TIME_ACK BLOCK_TYPE_START
  |> registerMsgHeader MSG_VALID_FLAG SHOW_DP_PKT_STAT MSG_TYPE_CLI_OCTEON
      MSG_CODE_SHOW_DP_PKT_STAT BLOCK_TYPE_START
  |> registerMsgHeader MSG_VALID_FLAG SHOW_DP_PKT_STAT_ACK MSG_TYPE_CLI_OCTEON
      MSG_CODE_SHOW_DP_PKT_STAT_ACK BLOCK_TYPE_START
  |> registerMsgHeader MSG_VALID_FLAG SHOW_MEM_POOL MSG_TYPE_CLI_OCTEON
      MSG_CODE_SHOW_MEM_POOL BLOCK_TYPE_START
  |> registerMsgHeader MSG_VALID_FLAG SHOW_MEM_POOL_ACK MSG_TYPE_CLI_OCTEON
      MSG_CODE_SHOW_MEM_POOL_ACK BLOCK_TYPE_START
  |> registerMsgHeader MSG_VALID_FLAG SHOW_ACL_RULE MSG_TYPE_CLI_OCTEON
      MSG_CODE_SHOW_ACL_RULE BLOCK_TYPE_START
  |> registerMsgHeader MSG_VALID_FLAG SHOW_ACL_RULE_ACK MSG_TYPE_CLI_OCTEON
      MSG_CODE_SHOW_ACL_RULE_ACK BLOCK_RESULT_CODE
  |> registerMsgHeader MSG_VALID_FLAG ADD_ACL_RULE MSG_TYPE_CLI_OCTEON
      MSG_CODE_ADD_ACL_RULE BLOCK_ACL_RULE_TUPLE
  |> registerMsgHeader MSG_VALID_FLAG ADD_ACL_RULE_ACK MSG_TYPE_CLI_OCTEON
      MSG_CODE_ADD_ACL_RULE_ACK BLOCK_RESULT_CODE
  |> registerMsgHeader MSG_VALID_FLAG DEL_ACL_RULE MSG_TYPE_CLI_OCTEON
      MSG_CODE_DEL_ACL_RULE BLOCK_ACL_RULE_TUPLE
  |> registerMsgHeader MSG_VALID_FLAG DEL_ACL_RULE_ACK MSG_TYPE_CLI_OCTEON
      MSG_CODE_DEL_ACL_RULE_ACK BLOCK_RESULT_CODE
  |> registerMsgHeader MSG_VALID_FLAG DEL_ACL_RULE_ID MSG_TYPE_CLI_OCTEON
      MSG_CODE_DEL_ACL_RULE_ID BLOCK_ACL_RULE_ID
  |> registerMsgHeader MSG_VALID_FLAG DEL_ACL_RULE_ID_ACK MSG_TYPE_CLI_OCTEON
      MSG_CODE_DEL_ACL_RULE_ID_ACK BLOCK_RESULT_CODE
  |> registerMsgHeader MSG_VALID_FLAG DEL_ACL_RULE_ALL MSG_TYPE_CLI_OCTEON
      MSG_CODE_DEL_ACL_RULE_ALL BLOCK_TYPE_START
  |> registerMsgHeader MSG_VALID_FLAG DEL_ACL_RULE_ALL_ACK MSG_TYPE_CLI_OCTEON
      MSG_CODE_DEL_ACL_RULE_ALL_ACK BLOCK_RESULT_CODE
  |> registerMsgHeader MSG_VALID_FLAG COMMIT_ACL_RULE MSG_TYPE_CLI_OCTEON
      MSG_CODE_COMMIT_ACL_RULE BLOCK_TYPE_START
  |> registerMsgHeader MSG_VALID_FLAG COMMIT_ACL_RULE_ACK MSG_TYPE_CLI_OCTEON
      MSG_CODE_COMMIT_ACL_RULE_ACK BLOCK_RESULT_CODE

def MsgHeaderInfo.matches (info : MsgHeaderInfo) (header_p : MessageHead) : Bool :=
  header_p.flag = info.flag && header_p.msg_type = info.msg_type
    && header_p.msg_code = info.msg_code && header_p.blocktype = info.msg_block_type

def getCmdType (header_p : MessageHead) : Option CmdType :=
  -- the first index whose header matches
  CmdType.all.find? fun i => (initMsgHeader i).matches header_p

def getDataBlockLength (block_type : UInt8) : Nat :=
  -- with the sizes of the packed structures
  if block_type = BLOCK_TYPE_START then 0
  else if block_type = BLOCK_IPV4_FIVE_TUPLE then 13
  else if block_type = BLOCK_ACL_RULE_TUPLE then 40
  else if block_type = BLOCK_RESULT_CODE then 4
  else if block_type = BLOCK_ACL_RULE_ID then 4
  else 0

structure RcpDataBlock where
  memory : Vector UInt8 40
  deriving DecidableEq, Repr

abbrev RCP_MAX_DATA_BLOCK_PER_MESSAGE : Nat := 255

structure RcpMsgParams where
  -- `rcp_msg_params_s`, `info_buf` shares its memory with `params`
  msg_id : UInt32
  more_flag : UInt8
  nparam : UInt8
  info_len : UInt16
  params : Vector RcpDataBlock RCP_MAX_DATA_BLOCK_PER_MESSAGE

def RcpMsgParams.blocks (param_p : RcpMsgParams) : List RcpDataBlock :=
  param_p.params.toList.take param_p.nparam.toNat

def RcpMsgParams.infoBuf (param_p : RcpMsgParams) : List UInt8 :=
  param_p.params.toList.flatMap fun block => block.memory.toList

def encapMsgHeader (cmd : CmdType) (param_p : RcpMsgParams) : MessageHead where
  -- the length counts units of 4 bytes
  flag := (initMsgHeader cmd).flag
  msg_type := (initMsgHeader cmd).msg_type
  msg_code := (initMsgHeader cmd).msg_code
  msg_id := param_p.msg_id
  more_flag := param_p.more_flag
  length := UInt8.ofNat ((param_p.nparam.toNat
    * getDataBlockLength (initMsgHeader cmd).msg_block_type + MESSAGE_HEADER_LENGTH) >>> 2)
  blocktype := (initMsgHeader cmd).msg_block_type
  data_block_num := param_p.nparam

structure Packed where
  sbuf : List UInt8
  len : Nat
  deriving DecidableEq

def packHeader (msg_header : MessageHead) : Packed := ⟨msg_header.toBytes, MESSAGE_HEADER_LENGTH⟩

def packBlock (block_length : Nat) (out : Packed) (block : RcpDataBlock) : Packed where
  sbuf := out.sbuf ++ block.memory.toList.take block_length
  len := out.len + block_length

def packBlocks (block_length : Nat) (cmd : CmdType) (lpara_p : RcpMsgParams) : Option Packed :=
  if cmdIsValid cmd then
    some (lpara_p.blocks.foldl (packBlock block_length) (packHeader (encapMsgHeader cmd lpara_p)))
  else
    none

def packAclRuleId (cmd : CmdType) (lpara_p : RcpMsgParams) : Option Packed :=
  -- a block is an `RCP_BLOCK_ACL_RULE_ID`
  packBlocks 4 cmd lpara_p

def packAclRule (cmd : CmdType) (lpara_p : RcpMsgParams) : Option Packed :=
  -- a block is an `RCP_BLOCK_ACL_RULE_TUPLE`
  packBlocks 40 cmd lpara_p

def packResultCode (cmd : CmdType) (lpara_p : RcpMsgParams) : Option Packed :=
  -- a block is an `RCP_BLOCK_RESULT`
  packBlocks 4 cmd lpara_p

def packNull (cmd : CmdType) (lpara_p : RcpMsgParams) : Option Packed :=
  if cmdIsValid cmd then some (packHeader (encapMsgHeader cmd lpara_p)) else none

def packShowInfo (cmd : CmdType) (lpara_p : RcpMsgParams) : Option Packed :=
  if cmdIsValid cmd then
    let msg_header := { encapMsgHeader cmd lpara_p with
      length := UInt8.ofNat ((MESSAGE_HEADER_LENGTH + lpara_p.info_len.toNat) >>> 2) }
    let out := packHeader msg_header
    some ⟨out.sbuf ++ lpara_p.infoBuf.take lpara_p.info_len.toNat,
      out.len + lpara_p.info_len.toNat⟩
  else
    none

inductive PackHandle where
  | pack_null
  | pack_show_info
  | pack_acl_rule
  | pack_acl_rule_id
  | pack_result_code
  deriving DecidableEq, Repr

open PackHandle

def PackHandle.pack : PackHandle → CmdType → RcpMsgParams → Option Packed
  | pack_null => packNull
  | pack_show_info => packShowInfo
  | pack_acl_rule => packAclRule
  | pack_acl_rule_id => packAclRuleId
  | pack_result_code => packResultCode

def PackHandle.blockSize : PackHandle → Nat
  | pack_null => 0
  | pack_show_info => 0
  | pack_acl_rule => 40
  | pack_acl_rule_id => 4
  | pack_result_code => 4

def registerMsgPackHandle (cmd : CmdType) (pack_handle : PackHandle)
    (cmd_msg_handles : CmdType → Option PackHandle) : CmdType → Option PackHandle :=
  if cmdIsValid cmd then
    Function.update cmd_msg_handles cmd (some pack_handle)
  else
    cmd_msg_handles

def initMsgPackHandle : CmdType → Option PackHandle :=
  (fun _ => none)
  |> registerMsgPackHandle TEST_COMMAND pack_null
  |> registerMsgPackHandle TEST_COMMAND_ACK pack_show_info
  |> registerMsgPackHandle SHOW_DP_BUILD_TIME pack_null
  |> registerMsgPackHandle SHOW_DP_BUILD_TIME_ACK pack_show_info
  |> registerMsgPackHandle SHOW_DP_PKT_STAT pack_null
  |> registerMsgPackHandle SHOW_DP_PKT_STAT_ACK pack_show_info
  |> registerMsgPackHandle SHOW_MEM_POOL pack_null
  |> registerMsgPackHandle SHOW_MEM_POOL_ACK pack_show_info
  |> registerMsgPackHandle SHOW_ACL_RULE pack_null
  |> registerMsgPackHandle SHOW_ACL_RULE_ACK pack_show_info
  |> registerMsgPackHandle ADD_ACL_RULE pack_acl_rule
  |> registerMsgPackHandle ADD_ACL_RULE_ACK pack_result_code
  |> registerMsgPackHandle DEL_ACL_RULE pack_acl_rule
  |> registerMsgPackHandle DEL_ACL_RULE_ACK pack_result_code
  |> registerMsgPackHandle DEL_ACL_RULE_ID pack_acl_rule_id
  |> registerMsgPackHandle DEL_ACL_RULE_ID_ACK pack_result_code
  |> registerMsgPackHandle DEL_ACL_RULE_ALL pack_null
  |> registerMsgPackHandle DEL_ACL_RULE_ALL_ACK pack_result_code
  |> registerMsgPackHandle COMMIT_ACL_RULE pack_null
  |> registerMsgPackHandle COMMIT_ACL_RULE_ACK pack_result_code

def packCmd (cmd : CmdType) (param_p : RcpMsgParams) : Option Packed := do
  -- `cmd_msg_handles[cmd].pack`, `none` is a command without a pack function
  let handle ← initMsgPackHandle cmd
  handle.pack cmd param_p

def RcpDataBlock.write (block : RcpDataBlock) (src : List UInt8) : RcpDataBlock where
  memory := Vector.ofFn fun i => src.getD i block.memory[i]

def RcpMsgParams.cleared : RcpMsgParams where
  msg_id := 0
  more_flag := 0
  nparam := 0
  info_len := 0
  params := .replicate RCP_MAX_DATA_BLOCK_PER_MESSAGE ⟨.replicate 40 0⟩

def RcpMsgParams.setParam (param_p : RcpMsgParams) (src : List UInt8) : RcpMsgParams where
  msg_id := param_p.msg_id
  more_flag := param_p.more_flag
  nparam := param_p.nparam
  info_len := param_p.info_len
  params := param_p.params.set 0 (param_p.params[0].write src)

section Tables

theorem getCmdType_encapMsgHeader {cmd : CmdType} (hvalid : cmdIsValid cmd) (param_p : RcpMsgParams)
    : getCmdType (encapMsgHeader cmd param_p) = some cmd := by
  cases cmd
  case MAX_COMMAND_TYPE => simp [cmdIsValid] at hvalid
  all_goals rfl

theorem cmdIsValid_of_registered {cmd : CmdType} {handle : PackHandle}
    (h : initMsgPackHandle cmd = some handle) : cmdIsValid cmd := by
  cases cmd
  case MAX_COMMAND_TYPE => simp [initMsgPackHandle, registerMsgPackHandle, cmdIsValid] at h
  all_goals rfl

theorem getDataBlockLength_of_registered {cmd : CmdType} {handle : PackHandle}
    (h : initMsgPackHandle cmd = some handle) (hinfo : handle ≠ pack_show_info)
    : getDataBlockLength (initMsgHeader cmd).msg_block_type = handle.blockSize := by
  cases cmd
  all_goals
    simp [initMsgPackHandle, registerMsgPackHandle, cmdIsValid] at h
    try subst h
    try contradiction
    try rfl

end Tables

section RoundTrip

variable {cmd : CmdType} {param_p : RcpMsgParams} {block_length : Nat}

theorem foldl_packBlock (blocks : List RcpDataBlock) (out : Packed)
    : blocks.foldl (packBlock block_length) out
        =
      ⟨out.sbuf ++ (blocks.map fun block => block.memory.toList.take block_length).flatten,
        out.len + blocks.length * block_length⟩ := by
  induction blocks generalizing out with
  | nil => simp
  | cons block blocks ih =>
    rw [List.foldl_cons, ih, packBlock]
    simp only [List.map_cons, List.flatten_cons, List.length_cons, List.append_assoc, Packed.mk.injEq,
      true_and]
    ring

theorem RcpMsgParams.length_blocks (param_p : RcpMsgParams)
    : param_p.blocks.length = param_p.nparam.toNat := by
  have := param_p.nparam.toNat_lt
  simp only [blocks, List.length_take, Vector.length_toList, RCP_MAX_DATA_BLOCK_PER_MESSAGE]
  omega

theorem RcpDataBlock.take_write (block : RcpDataBlock) {src : List UInt8} (h : src.length ≤ 40)
    : (block.write src).memory.toList.take src.length = src := by
  apply List.ext_getElem
  . rw [List.length_take, Vector.length_toList]
    exact Nat.min_eq_left h
  . intro i hi hsrc
    have hi : i < 40 := Nat.lt_of_lt_of_le hsrc h
    have hwrite : (block.write src).memory[i] = src.getD i block.memory[i] := by
      simp only [write, Vector.getElem_ofFn, Fin.getElem_fin]
    rw [List.getElem_take, Vector.getElem_toList, hwrite]
    exact List.getD_eq_getElem _ _ hsrc

theorem RcpMsgParams.blocks_of_one (h : param_p.nparam = 1) : param_p.blocks = [param_p.params[0]] := by
  have hlen : 0 < param_p.params.toList.length := by
    rw [Vector.length_toList]
    decide
  rw [blocks, h]
  have hcons := List.drop_eq_getElem_cons hlen
  rw [List.drop_zero] at hcons
  rw [hcons]
  rfl

theorem RcpMsgParams.blocks_setParam (src : List UInt8) (h : param_p.nparam = 1)
    : (param_p.setParam src).blocks = [param_p.params[0].write src] := by
  have hset : (param_p.setParam src).params[0] = param_p.params[0].write src := by
    rw [setParam, Vector.getElem_set_self]
  rw [← hset]
  exact blocks_of_one h

def wireBytes (block_length : Nat) (cmd : CmdType) (param_p : RcpMsgParams) : List UInt8 :=
  (encapMsgHeader cmd param_p).toBytes
    ++ (param_p.blocks.map fun block => block.memory.toList.take block_length).flatten

theorem packBlocks_eq (hvalid : cmdIsValid cmd)
    : packBlocks block_length cmd param_p
        =
      some ⟨wireBytes block_length cmd param_p,
        MESSAGE_HEADER_LENGTH + param_p.nparam.toNat * block_length⟩ := by
  rw [packBlocks, if_pos hvalid, foldl_packBlock, param_p.length_blocks]
  rfl

theorem PackHandle.pack_eq {handle : PackHandle} (hvalid : cmdIsValid cmd)
    (hinfo : handle ≠ pack_show_info) (hnull : handle = pack_null → param_p.nparam = 0)
    : handle.pack cmd param_p
        =
      some ⟨wireBytes handle.blockSize cmd param_p,
        MESSAGE_HEADER_LENGTH + param_p.nparam.toNat * handle.blockSize⟩ := by
  cases handle with
  | pack_null =>
    have hblocks : param_p.blocks = [] := by
      simp [RcpMsgParams.blocks, hnull rfl]
    simp [pack, packNull, if_pos hvalid, packHeader, wireBytes, hblocks, blockSize]
  | pack_show_info => contradiction
  | pack_acl_rule => exact packBlocks_eq hvalid
  | pack_acl_rule_id => exact packBlocks_eq hvalid
  | pack_result_code => exact packBlocks_eq hvalid

theorem packCmd_setParam {handle : PackHandle} {src : List UInt8}
    (hregistered : initMsgPackHandle cmd = some handle) (hinfo : handle ≠ pack_show_info)
    (hnull : handle ≠ pack_null) (hone : param_p.nparam = 1) (hsrc : src.length = handle.blockSize)
    : packCmd cmd (param_p.setParam src)
        =
      some ⟨(encapMsgHeader cmd param_p).toBytes ++ src, MESSAGE_HEADER_LENGTH + src.length⟩ := by
  have hle : src.length ≤ 40 := by
    rw [hsrc]
    cases handle <;> decide
  have hvalid := cmdIsValid_of_registered hregistered
  have hnull' : handle = pack_null → (param_p.setParam src).nparam = 0 := fun h => absurd h hnull
  have hpack := PackHandle.pack_eq hvalid hinfo hnull'
  have hnparam : (param_p.setParam src).nparam.toNat = 1 := congrArg UInt8.toNat hone
  have hheader : encapMsgHeader cmd (param_p.setParam src) = encapMsgHeader cmd param_p := rfl
  rw [packCmd, hregistered, Option.bind_eq_bind, Option.bind_some, hpack, wireBytes,
    RcpMsgParams.blocks_setParam src hone, hnparam, hheader, ← hsrc, List.map_singleton,
    List.flatten_singleton, RcpDataBlock.take_write _ hle, Nat.one_mul]

theorem length_taken_block (hblock : block_length ≤ 40)
    : ∀ b ∈ param_p.blocks.map fun block => block.memory.toList.take block_length,
        b.length = block_length := by
  intro b hb
  rcases List.mem_map.mp hb with ⟨block, -, rfl⟩
  simpa using hblock

theorem length_wireBytes (hblock : block_length ≤ 40)
    : (wireBytes block_length cmd param_p).length
        =
      MESSAGE_HEADER_LENGTH + param_p.nparam.toNat * block_length := by
  have hsum : ((param_p.blocks.map fun block => block.memory.toList.take block_length).map
      List.length) = List.replicate param_p.nparam.toNat block_length := by
    rw [List.eq_replicate_iff]
    refine ⟨by simp [param_p.length_blocks], ?_⟩
    intro n hn
    rcases List.mem_map.mp hn with ⟨b, hb, rfl⟩
    exact length_taken_block hblock b hb
  rw [wireBytes, List.length_append, MessageHead.length_toBytes, List.length_flatten, hsum,
    List.sum_replicate, smul_eq_mul]

theorem block_wireBytes (hblock : block_length ≤ 40) {k : Nat} {block : RcpDataBlock}
    (hk : param_p.blocks[k]? = some block)
    : ((wireBytes block_length cmd param_p).drop (MESSAGE_HEADER_LENGTH + k * block_length)).take
        block_length
        =
      block.memory.toList.take block_length := by
  rw [wireBytes, ← List.drop_drop, List.drop_left' (MessageHead.length_toBytes _)]
  apply take_drop_flatten (length_taken_block hblock)
  rw [List.getElem?_map, hk, Option.map_some]

theorem length_encapMsgHeader
    (hlength : getDataBlockLength (initMsgHeader cmd).msg_block_type = block_length)
    (hdvd : 4 ∣ block_length)
    (hsize : MESSAGE_HEADER_LENGTH + param_p.nparam.toNat * block_length ≤ 1020)
    : (encapMsgHeader cmd param_p).length.toNat <<< 2
        =
      MESSAGE_HEADER_LENGTH + param_p.nparam.toNat * block_length := by
  rcases hdvd with ⟨words, rfl⟩
  have hmul : param_p.nparam.toNat * (4 * words) = 4 * (param_p.nparam.toNat * words) := by ring
  simp only [encapMsgHeader, hlength, hmul, MESSAGE_HEADER_LENGTH, Nat.shiftLeft_eq,
    Nat.shiftRight_eq_div_pow, UInt8.toNat_ofNat'] at hsize ⊢
  omega

/-- What the receiver of a message with blocks of the given size gets out of it. -/
structure Recovered (cmd : CmdType) (param_p : RcpMsgParams) (block_size : Nat) (out : Packed)
    : Prop where
  len_eq : out.len = MESSAGE_HEADER_LENGTH + param_p.nparam.toNat * block_size
  length : out.sbuf.length = out.len
  total_len : out.len = (MessageHead.ofBytes out.sbuf).length.toNat <<< 2
  cmd_eq : getCmdType (MessageHead.ofBytes out.sbuf) = some cmd
  msg_id : (MessageHead.ofBytes out.sbuf).msg_id = param_p.msg_id
  more_flag : (MessageHead.ofBytes out.sbuf).more_flag = param_p.more_flag
  data_block_num : (MessageHead.ofBytes out.sbuf).data_block_num = param_p.nparam
  block : ∀ k : Fin RCP_MAX_DATA_BLOCK_PER_MESSAGE, k < param_p.nparam.toNat
    → (out.sbuf.drop (MESSAGE_HEADER_LENGTH + k * block_size)).take block_size
      = param_p.params[k].memory.toList.take block_size

theorem RcpMsgParams.getElem?_blocks (param_p : RcpMsgParams) {k : Fin RCP_MAX_DATA_BLOCK_PER_MESSAGE}
    (hk : k < param_p.nparam.toNat) : param_p.blocks[k.val]? = some param_p.params[k] := by
  rw [blocks, List.getElem?_take_of_lt hk, Vector.getElem?_toList]
  exact Vector.getElem?_eq_getElem k.isLt

theorem recovered_wireBytes (hvalid : cmdIsValid cmd)
    (hlength : getDataBlockLength (initMsgHeader cmd).msg_block_type = block_length)
    (hdvd : 4 ∣ block_length) (hblock : block_length ≤ 40)
    (hsize : MESSAGE_HEADER_LENGTH + param_p.nparam.toNat * block_length ≤ 1020)
    : Recovered cmd param_p block_length ⟨wireBytes block_length cmd param_p,
        MESSAGE_HEADER_LENGTH + param_p.nparam.toNat * block_length⟩ := by
  have hhead : MessageHead.ofBytes (wireBytes block_length cmd param_p) = encapMsgHeader cmd param_p :=
    MessageHead.ofBytes_toBytes _ _
  constructor
  case len_eq => rfl
  case length => exact length_wireBytes hblock
  case block => exact fun k hk => block_wireBytes hblock (param_p.getElem?_blocks hk)
  all_goals simp only [hhead]
  case total_len => exact (length_encapMsgHeader hlength hdvd hsize).symm
  case cmd_eq => exact getCmdType_encapMsgHeader hvalid param_p
  case msg_id => rfl
  case more_flag => rfl
  case data_block_num => rfl

/-- A packed message of at most 1020 bytes is taken apart again by its receiver. -/
theorem pack_recovered (cmd : CmdType) (handle : PackHandle) (param_p : RcpMsgParams)
    (hregistered : initMsgPackHandle cmd = some handle) (hinfo : handle ≠ pack_show_info)
    (hnull : handle = pack_null → param_p.nparam = 0)
    (hsize : MESSAGE_HEADER_LENGTH + param_p.nparam.toNat * handle.blockSize ≤ 1020)
    : ∃ out, handle.pack cmd param_p = some out ∧ Recovered cmd param_p handle.blockSize out := by
  have hvalid := cmdIsValid_of_registered hregistered
  refine ⟨_, PackHandle.pack_eq hvalid hinfo hnull, ?_⟩
  apply recovered_wireBytes hvalid (getDataBlockLength_of_registered hregistered hinfo)
  . cases handle <;> decide
  . cases handle <;> decide
  . exact hsize

theorem pack_recovered_addAclRule
    : ∃ out, packAclRule ADD_ACL_RULE
          ⟨7, 1, 2, 0, (Vector.replicate _ ⟨.replicate 40 5⟩).set 1 ⟨.replicate 40 6⟩⟩ = some out
        ∧ Recovered ADD_ACL_RULE
          ⟨7, 1, 2, 0, (Vector.replicate _ ⟨.replicate 40 5⟩).set 1 ⟨.replicate 40 6⟩⟩ 40 out :=
  pack_recovered ADD_ACL_RULE pack_acl_rule _ rfl (by decide) (fun h => absurd h (by decide)) (by decide)

end RoundTrip

end SecFw
