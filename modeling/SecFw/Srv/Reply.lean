import SecFw.Srv.Request

/-!
This module contains the answers of the management plane. It is said for which messages the length in
the header is the truth, and which result codes a client finds where it looks for them.
-/

namespace SecFw.Srv

open CmdType PackHandle

abbrev MAX_INFO_BUF_SIZE : Nat := 1000
abbrev BUFSIZE : Nat := 2048

def paramToPkt (cmd : CmdType) (src : List UInt8) (param_p : RcpMsgParams) : Option Packed :=
  -- the answer has the id of the request. `none` is the error of `__cmd_is_valid`
  if cmdIsValid cmd then
    packCmd cmd { param_p with msg_id := (MessageHead.ofBytes src).msg_id }
  else
    none

def alignShow (param_p : RcpMsgParams) : RcpMsgParams :=
  let align_show := param_p.info_len % 4
  if align_show ≠ 0 then
    { param_p with info_len := param_p.info_len + (4 - align_show) }
  else
    param_p

structure Replied where
  sent : Option Packed
  rcp_param_p : RcpMsgParams

def sendRcpRes (cmd_ack : CmdType) (src : List UInt8) (param_p : RcpMsgParams) (more_flag : UInt8)
    : Replied :=
  let rcp_param_p := alignShow { param_p with more_flag := more_flag }
  match paramToPkt cmd_ack src rcp_param_p with
  | none => ⟨none, rcp_param_p⟩
  | some out => ⟨some out, .cleared⟩

/-- The header of a message counts the bytes that are reported. -/
def Truthful (out : Packed) : Prop := (MessageHead.ofBytes out.sbuf).length.toNat * 4 = out.len

/-- The number of blocks, or of bytes of information, that the length of a header can tell. -/
def LengthFits (handle : PackHandle) (param_p : RcpMsgParams) : Prop :=
  match handle with
  | pack_null => True
  | pack_show_info => 4 ∣ param_p.info_len.toNat
  | pack_acl_rule => param_p.nparam.toNat ≤ 25
  | pack_acl_rule_id => param_p.nparam.toNat ≤ 252
  | pack_result_code => param_p.nparam.toNat ≤ 252

section Length

variable {cmd : CmdType} {param_p : RcpMsgParams} {handle : PackHandle}

theorem toNat_units {n : Nat} (h : 4 ∣ n)
    : (UInt8.ofNat (n >>> 2)).toNat * 4 = n ↔ n < 1024 := by
  rw [UInt8.toNat_ofNat', Nat.shiftRight_eq_div_pow]
  omega

theorem toNat_units_small {n : Nat} (h : n < 1024)
    : (UInt8.ofNat (n >>> 2)).toNat * 4 = n ↔ 4 ∣ n := by
  rw [UInt8.toNat_ofNat', Nat.shiftRight_eq_div_pow]
  omega

theorem lengthFits_iff (hinfo : handle ≠ pack_show_info)
    : LengthFits handle param_p
        ↔ MESSAGE_HEADER_LENGTH + param_p.nparam.toNat * handle.blockSize < 1024 := by
  cases handle with
  | pack_show_info => contradiction
  | pack_null =>
    simp only [LengthFits, blockSize, MESSAGE_HEADER_LENGTH, true_iff]
    omega
  | _ =>
    simp only [LengthFits, blockSize, MESSAGE_HEADER_LENGTH]
    omega

theorem truthful_blocks (hvalid : cmdIsValid cmd) (hinfo : handle ≠ pack_show_info)
    (hlength : getDataBlockLength (initMsgHeader cmd).msg_block_type = handle.blockSize)
    : ∃ out, packBlocks handle.blockSize cmd param_p = some out
        ∧ (Truthful out ↔ LengthFits handle param_p) := by
  refine ⟨_, packBlocks_eq hvalid, ?_⟩
  have hunits : 4 ∣ MESSAGE_HEADER_LENGTH + param_p.nparam.toNat * handle.blockSize := by
    apply Nat.dvd_add
    . decide
    . apply Nat.dvd_mul_left_of_dvd
      cases handle <;> decide
  rw [lengthFits_iff hinfo, ← toNat_units hunits, Truthful, wireBytes, MessageHead.ofBytes_toBytes,
    encapMsgHeader, hlength, Nat.add_comm]

theorem truthful_null (param_p : RcpMsgParams) (hvalid : cmdIsValid cmd)
    (hlength : getDataBlockLength (initMsgHeader cmd).msg_block_type = 0)
    : ∃ out, packNull cmd param_p = some out ∧ Truthful out := by
  refine ⟨_, if_pos hvalid, ?_⟩
  have hhead := MessageHead.ofBytes_toBytes (encapMsgHeader cmd param_p) []
  rw [List.append_nil] at hhead
  rw [Truthful, packHeader, hhead, encapMsgHeader, hlength, Nat.mul_zero]
  rfl

theorem truthful_showInfo (hvalid : cmdIsValid cmd)
    (hinfo : param_p.info_len.toNat ≤ MAX_INFO_BUF_SIZE)
    : ∃ out, packShowInfo cmd param_p = some out
        ∧ (Truthful out ↔ 4 ∣ param_p.info_len.toNat) := by
  refine ⟨_, if_pos hvalid, ?_⟩
  have hlt : MESSAGE_HEADER_LENGTH + param_p.info_len.toNat < 1024 := by
    simp only [MESSAGE_HEADER_LENGTH, MAX_INFO_BUF_SIZE] at hinfo ⊢
    omega
  have hdvd : 4 ∣ param_p.info_len.toNat ↔ 4 ∣ MESSAGE_HEADER_LENGTH + param_p.info_len.toNat := by
    simp only [MESSAGE_HEADER_LENGTH]
    omega
  rw [hdvd, ← toNat_units_small hlt, Truthful, packHeader, MessageHead.ofBytes_toBytes]

theorem exists_registered (hvalid : cmdIsValid cmd) : ∃ handle, initMsgPackHandle cmd = some handle := by
  cases cmd
  case MAX_COMMAND_TYPE => contradiction
  all_goals exact ⟨_, rfl⟩

theorem truthful_pack (param_p : RcpMsgParams)
    (hregistered : initMsgPackHandle cmd = some handle)
    (hinfo : param_p.info_len.toNat ≤ MAX_INFO_BUF_SIZE)
    : ∃ out, packCmd cmd param_p = some out ∧ (Truthful out ↔ LengthFits handle param_p) := by
  have hvalid := cmdIsValid_of_registered hregistered
  have hlength := getDataBlockLength_of_registered hregistered
  rw [packCmd, hregistered, Option.bind_eq_bind, Option.bind_some]
  cases handle with
  | pack_null =>
    rcases truthful_null param_p hvalid (hlength (by decide)) with ⟨out, hout, htruth⟩
    exact ⟨out, hout, iff_of_true htruth trivial⟩
  | pack_show_info => exact truthful_showInfo hvalid hinfo
  | pack_acl_rule => exact truthful_blocks hvalid (by decide) (hlength (by decide))
  | pack_acl_rule_id => exact truthful_blocks hvalid (by decide) (hlength (by decide))
  | pack_result_code => exact truthful_blocks hvalid (by decide) (hlength (by decide))

theorem toNat_info_len_alignShow (hinfo : param_p.info_len.toNat ≤ MAX_INFO_BUF_SIZE)
    : 4 ∣ (alignShow param_p).info_len.toNat
      ∧ (alignShow param_p).info_len.toNat ≤ MAX_INFO_BUF_SIZE := by
  simp only [MAX_INFO_BUF_SIZE] at hinfo ⊢
  unfold alignShow
  dsimp only
  split
  . next hrest =>
    rw [ne_eq, ← UInt16.toNat_inj, UInt16.toNat_mod] at hrest
    have hrest : ¬ param_p.info_len.toNat % 4 = 0 := hrest
    have hmod : (param_p.info_len % 4).toNat = param_p.info_len.toNat % 4 := UInt16.toNat_mod _ _
    have hpad : (4 - param_p.info_len % 4).toNat = 4 - param_p.info_len.toNat % 4 := by
      rw [UInt16.toNat_sub_of_le, hmod]
      . rfl
      . rw [UInt16.le_iff_toNat_le, hmod]
        exact (Nat.mod_lt _ (by decide)).le
    rw [UInt16.toNat_add, hpad]
    omega
  . next hrest =>
    rw [ne_eq, not_not, ← UInt16.toNat_inj, UInt16.toNat_mod] at hrest
    exact ⟨Nat.dvd_of_mod_eq_zero hrest, hinfo⟩

theorem alignShow_of_dvd (h : param_p.info_len % 4 = 0) : alignShow param_p = param_p := by
  unfold alignShow
  rw [h]
  rfl

theorem nparam_alignShow (param_p : RcpMsgParams)
    : (alignShow param_p).nparam = param_p.nparam := by
  unfold alignShow
  dsimp only
  split
  . rfl
  . rfl

theorem sent_sendRcpRes (hvalid : cmdIsValid cmd) (src : List UInt8) (more_flag : UInt8)
    : (sendRcpRes cmd src param_p more_flag).sent
        =
      packCmd cmd { alignShow { param_p with more_flag := more_flag } with
        msg_id := (MessageHead.ofBytes src).msg_id } := by
  unfold sendRcpRes paramToPkt
  dsimp only
  rw [if_pos hvalid]
  split
  . next hnone => rw [hnone]
  . next hsome => rw [hsome]

/--
The length in the header is the truth exactly for so many blocks as a byte of 4-byte units can tell
and for information of whole units, which an answer always has.
-/
theorem length_truthful_iff (cmd : CmdType) (param_p : RcpMsgParams) (src : List UInt8)
    (more_flag : UInt8) (hvalid : cmdIsValid cmd)
    (hinfo : param_p.info_len.toNat ≤ MAX_INFO_BUF_SIZE)
    : ∃ handle, initMsgPackHandle cmd = some handle
        ∧ (∃ out, packCmd cmd param_p = some out ∧ (Truthful out ↔ LengthFits handle param_p))
        ∧ ∃ out, (sendRcpRes cmd src param_p more_flag).sent = some out
          ∧ (Truthful out ↔ handle = pack_show_info ∨ LengthFits handle param_p) := by
  rcases exists_registered hvalid with ⟨handle, hregistered⟩
  refine ⟨handle, hregistered, truthful_pack param_p hregistered hinfo, ?_⟩
  have hinfo : { param_p with more_flag := more_flag }.info_len.toNat ≤ MAX_INFO_BUF_SIZE := hinfo
  rcases toNat_info_len_alignShow hinfo with ⟨hdvd, hle⟩
  have hnparam := nparam_alignShow { param_p with more_flag := more_flag }
  rcases truthful_pack { alignShow { param_p with more_flag := more_flag } with
    msg_id := (MessageHead.ofBytes src).msg_id } hregistered hle with ⟨out, hout, htruth⟩
  refine ⟨out, ?_, htruth.trans ?_⟩
  . rw [sent_sendRcpRes hvalid, hout]
  . cases handle with
    | pack_show_info => exact iff_of_true hdvd (Or.inl rfl)
    | _ => simp [LengthFits, hnparam]

theorem length_truthful_iff_blocks
    : ∃ handle, initMsgPackHandle ADD_ACL_RULE = some handle
        ∧ (∃ out, packCmd ADD_ACL_RULE { RcpMsgParams.cleared with nparam := 25 } = some out
          ∧ (Truthful out ↔ LengthFits handle { RcpMsgParams.cleared with nparam := 25 }))
        ∧ ∃ out, (sendRcpRes ADD_ACL_RULE [] { RcpMsgParams.cleared with nparam := 25 } 0).sent
            = some out
          ∧ (Truthful out
            ↔ handle = pack_show_info ∨ LengthFits handle { RcpMsgParams.cleared with nparam := 25 }) :=
  length_truthful_iff ADD_ACL_RULE _ [] 0 rfl (by decide)

theorem length_26_blocks
    : ∃ out, packCmd ADD_ACL_RULE { RcpMsgParams.cleared with nparam := 26 } = some out
        ∧ out.len = 1052 ∧ (MessageHead.ofBytes out.sbuf).length = 7 ∧ ¬ Truthful out := by
  have hblocks : packCmd ADD_ACL_RULE { RcpMsgParams.cleared with nparam := 26 }
      = packBlocks 40 ADD_ACL_RULE { RcpMsgParams.cleared with nparam := 26 } := rfl
  have hpack := hblocks.trans (packBlocks_eq rfl)
  have hlength : (MessageHead.ofBytes (wireBytes 40 ADD_ACL_RULE
      { RcpMsgParams.cleared with nparam := 26 })).length = 7 := by
    rw [wireBytes, MessageHead.ofBytes_toBytes]
    rfl
  refine ⟨_, hpack, rfl, hlength, ?_⟩
  rw [Truthful, hlength]
  decide

end Length

section ResultCode

def cmdAck : CmdType → Option CmdType
  | SHOW_ACL_RULE => some SHOW_ACL_RULE_ACK
  | ADD_ACL_RULE => some ADD_ACL_RULE_ACK
  | DEL_ACL_RULE => some DEL_ACL_RULE_ACK
  | DEL_ACL_RULE_ID => some DEL_ACL_RULE_ID_ACK
  | DEL_ACL_RULE_ALL => some DEL_ACL_RULE_ALL_ACK
  | COMMIT_ACL_RULE => some COMMIT_ACL_RULE_ACK
  | _ => none

def resultParams (result_code : UInt32) : RcpMsgParams :=
  { RcpMsgParams.cleared.setParam (Bytes.bigEndian 4 result_code.toNat) with nparam := 1 }

def ruleReply (cmd_ack : CmdType) (msg : List UInt8) (result_code : UInt32) : Option Packed :=
  (sendRcpRes cmd_ack msg (resultParams result_code) 0).sent

def recvBuf (reply : Packed) : List UInt8 :=
  -- `recv_buf` of the client, it is cleared before the answer is received
  reply.sbuf ++ List.replicate (BUFSIZE - reply.len) 0

def cliResultCode (recv_buf : List UInt8) : UInt32 :=
  UInt32.ofNat (Bytes.field recv_buf MESSAGE_HEADER_LENGTH 4)

variable {cmd cmd_ack : CmdType} {msg : List UInt8} {result_code : UInt32}

theorem cliResultCode_append {header : List UInt8} (hlen : header.length = MESSAGE_HEADER_LENGTH)
    (rest : List UInt8)
    : cliResultCode (header ++ Bytes.bigEndian 4 result_code.toNat ++ rest) = result_code := by
  rw [cliResultCode, Bytes.field, List.append_assoc, List.drop_left' hlen,
    List.take_left' (Bytes.length_bigEndian 4 _), Bytes.uint32_ofBigEndian_bigEndian]

theorem ruleReply_eq (hvalid : cmdIsValid cmd_ack)
    : ruleReply cmd_ack msg result_code
        =
      packCmd cmd_ack ({ RcpMsgParams.cleared with
        nparam := 1
        msg_id := (MessageHead.ofBytes msg).msg_id }.setParam
          (Bytes.bigEndian 4 result_code.toNat)) := by
  rw [ruleReply, sent_sendRcpRes hvalid, alignShow_of_dvd rfl]
  rfl

theorem ruleReply_resultCode (msg : List UInt8) (result_code : UInt32)
    (hregistered : initMsgPackHandle cmd_ack = some pack_result_code)
    : ∃ reply, ruleReply cmd_ack msg result_code = some reply
        ∧ cliResultCode (recvBuf reply) = result_code := by
  have hvalid := cmdIsValid_of_registered hregistered
  have hlen : (Bytes.bigEndian 4 result_code.toNat).length = pack_result_code.blockSize :=
    Bytes.length_bigEndian 4 _
  rw [ruleReply_eq hvalid, packCmd_setParam hregistered (by decide) (by decide) rfl hlen]
  refine ⟨_, rfl, ?_⟩
  apply cliResultCode_append
  apply MessageHead.length_toBytes

theorem packShowInfo_header {param_p : RcpMsgParams} (hvalid : cmdIsValid cmd)
    (hinfo : param_p.info_len = 0)
    : ∃ header : MessageHead,
        packShowInfo cmd param_p = some ⟨header.toBytes, MESSAGE_HEADER_LENGTH⟩ := by
  unfold packShowInfo
  rw [if_pos hvalid, hinfo]
  dsimp only [packHeader]
  rw [UInt16.toNat_zero, List.take_zero, List.append_nil]
  exact ⟨_, rfl⟩

theorem cliResultCode_header (header : MessageHead)
    : cliResultCode (recvBuf ⟨header.toBytes, MESSAGE_HEADER_LENGTH⟩) = 0 := by
  have hzero : Bytes.bigEndian 4 (0 : UInt32).toNat = List.replicate 4 0 := rfl
  have hzeros : List.replicate (BUFSIZE - MESSAGE_HEADER_LENGTH) (0 : UInt8)
      = Bytes.bigEndian 4 (0 : UInt32).toNat
        ++ List.replicate (BUFSIZE - MESSAGE_HEADER_LENGTH - 4) 0 := by
    rw [hzero, List.replicate_append_replicate]
    congr 1
  rw [recvBuf, hzeros, ← List.append_assoc]
  apply cliResultCode_append
  apply MessageHead.length_toBytes

theorem ruleReply_showInfo (msg : List UInt8) (result_code : UInt32)
    (hregistered : initMsgPackHandle cmd_ack = some pack_show_info)
    : ∃ reply, ruleReply cmd_ack msg result_code = some reply
        ∧ cliResultCode (recvBuf reply) = 0 := by
  have hvalid := cmdIsValid_of_registered hregistered
  rw [ruleReply_eq hvalid, packCmd, hregistered, Option.bind_eq_bind, Option.bind_some,
    PackHandle.pack]
  have hshow (param_p : RcpMsgParams) (hinfo : param_p.info_len = 0)
      : ∃ reply, packShowInfo cmd_ack param_p = some reply ∧ cliResultCode (recvBuf reply) = 0 := by
    rcases packShowInfo_header hvalid hinfo with ⟨header, hpack⟩
    exact ⟨_, hpack, cliResultCode_header header⟩
  apply hshow
  rfl

/-- A request to show the rules whose handler stores that the file cannot be opened. -/
def FileError (cmd : CmdType) (fopen : Bool) : Prop := cmd = SHOW_ACL_RULE ∧ fopen = false

theorem exists_result_code {fopen : Bool} {rule_list : RuleList} {h : Handled}
    (hcmd : command msg = some cmd) (hack : cmdAck cmd = some cmd_ack)
    (hhandled : mgmtProcessCmd fopen msg rule_list = some h)
    : ∃ result_code, h.result_code = some result_code
        ∧ (cmd = SHOW_ACL_RULE
          → result_code = if fopen then RCP_RESULT_OK else RCP_RESULT_FILE_ERR) := by
  rw [mgmtProcessCmd, hcmd] at hhandled
  cases cmd
  case SHOW_ACL_RULE =>
    cases hhandled
    exact ⟨_, rfl, fun _ => rfl⟩
  case DEL_ACL_RULE_ID =>
    simp only [ruleDelAclRuleId, Option.bind_eq_bind, Option.bind_eq_some_iff] at hhandled
    rcases hhandled with ⟨res, -, hres⟩
    cases hres
    refine ⟨_, rfl, ?_⟩
    intro hshow
    contradiction
  case ADD_ACL_RULE | DEL_ACL_RULE | DEL_ACL_RULE_ALL | COMMIT_ACL_RULE =>
    cases hhandled
    refine ⟨_, rfl, ?_⟩
    intro hshow
    contradiction
  all_goals contradiction

theorem cmdAck_registered (hack : cmdAck cmd = some cmd_ack)
    : initMsgPackHandle cmd_ack
        =
      some (if cmd = SHOW_ACL_RULE then pack_show_info else pack_result_code) := by
  cases cmd
  all_goals
    cases hack
    try rfl

/--
The client reads the result code that the handler of its request stored, except that the error to open
the file is read as success.
-/
theorem result_code_reaches_client_iff (fopen : Bool) (msg : List UInt8) (rule_list : RuleList)
    (cmd cmd_ack : CmdType) (h : Handled) (hcmd : command msg = some cmd)
    (hack : cmdAck cmd = some cmd_ack) (hhandled : mgmtProcessCmd fopen msg rule_list = some h)
    : ∃ result_code reply, h.result_code = some result_code
        ∧ ruleReply cmd_ack msg result_code = some reply
        ∧ (cliResultCode (recvBuf reply) = result_code ↔ ¬ FileError cmd fopen) := by
  rcases exists_result_code hcmd hack hhandled with ⟨result_code, hcode, hshow⟩
  have hregistered := cmdAck_registered hack
  by_cases hcmd_show : cmd = SHOW_ACL_RULE
  . rw [if_pos hcmd_show] at hregistered
    rcases ruleReply_showInfo msg result_code hregistered with
      ⟨reply, hreply, hread⟩
    refine ⟨result_code, reply, hcode, hreply, ?_⟩
    rw [hread, hshow hcmd_show, FileError]
    cases fopen with
    | true => simp [RCP_RESULT_OK]
    | false => simp [RCP_RESULT_FILE_ERR, hcmd_show]
  . rw [if_neg hcmd_show] at hregistered
    rcases ruleReply_resultCode msg result_code hregistered with
      ⟨reply, hreply, hread⟩
    refine ⟨result_code, reply, hcode, hreply, iff_of_true hread ?_⟩
    intro hfile
    exact hcmd_show hfile.1

def showRequest : List UInt8 := (encapMsgHeader SHOW_ACL_RULE .cleared).toBytes

theorem command_showRequest : command showRequest = some SHOW_ACL_RULE := by
  have h := MessageHead.ofBytes_toBytes (encapMsgHeader SHOW_ACL_RULE .cleared) []
  rw [List.append_nil] at h
  rw [command, showRequest, h]
  exact getCmdType_encapMsgHeader rfl _

theorem mgmtProcessCmd_showRequest (fopen : Bool) (rule_list : RuleList)
    : mgmtProcessCmd fopen showRequest rule_list = some (ruleShowAclRule fopen rule_list) := by
  rw [mgmtProcessCmd, command_showRequest]

theorem result_code_reaches_client_showRequest
    : ∃ result_code reply, (ruleShowAclRule true ruleListInit).result_code = some result_code
        ∧ ruleReply SHOW_ACL_RULE_ACK showRequest result_code = some reply
        ∧ (cliResultCode (recvBuf reply) = result_code ↔ ¬ FileError SHOW_ACL_RULE true) :=
  result_code_reaches_client_iff true showRequest ruleListInit SHOW_ACL_RULE SHOW_ACL_RULE_ACK _
    command_showRequest rfl (mgmtProcessCmd_showRequest true ruleListInit)

theorem file_error_lost
    : mgmtProcessCmd false showRequest ruleListInit
          = some ⟨ruleListInit, some RCP_RESULT_FILE_ERR⟩
      ∧ ∃ reply, ruleReply SHOW_ACL_RULE_ACK showRequest RCP_RESULT_FILE_ERR = some reply
          ∧ cliResultCode (recvBuf reply) = RCP_RESULT_OK
          ∧ cliResultCode (recvBuf reply) ≠ RCP_RESULT_FILE_ERR := by
  constructor
  . exact mgmtProcessCmd_showRequest false ruleListInit
  . have hregistered : initMsgPackHandle SHOW_ACL_RULE_ACK = some pack_show_info := rfl
    rcases ruleReply_showInfo showRequest RCP_RESULT_FILE_ERR hregistered with ⟨reply, hreply, hread⟩
    refine ⟨reply, hreply, hread, ?_⟩
    rw [hread]
    decide

end ResultCode

end SecFw.Srv
