import SecFw.Srv.Framing
import SecFw.Srv.Rule

/-!
This module contains the handling of the requests that the management plane receives. The handlers
take their block out of the receive buffer whatever the length of the request is, so that a request
that is shorter than its block is completed by the bytes of an earlier one.
-/

namespace SecFw.Srv

abbrev RCP_RESULT_OK : UInt32 := 0
abbrev RCP_RESULT_RULE_FULL : UInt32 := 1
abbrev RCP_RESULT_RULE_EXIST : UInt32 := 2
abbrev RCP_RESULT_RULE_NOT_EXIST : UInt32 := 3
abbrev RCP_RESULT_FILE_ERR : UInt32 := 6

open CmdType

structure RCP_BLOCK_ACL_RULE_ID where
  rule_id : UInt32
  deriving DecidableEq, Repr

def RCP_BLOCK_ACL_RULE_ID.ofBytes (bs : List UInt8) : RCP_BLOCK_ACL_RULE_ID where
  rule_id := UInt32.ofNat (Bytes.field bs 0 4)

def ruleDelByBlock (rule_list : RuleList) (id : RCP_BLOCK_ACL_RULE_ID) : Option (RuleList × Int) :=
  -- `Rule_del_by_id` for any index, `none` is an access outside of the rule list
  if RULE_ENTRY_MAX = rule_list.rule_entry_free then
    some (rule_list, RULE_NOT_EXIST)
  else if h : id.rule_id.toNat < RULE_ENTRY_MAX then
    some (ruleDelById rule_list ⟨id.rule_id.toNat, h⟩)
  else
    none

structure Handled where
  -- what a handler leaves behind, the result code is `none` where the answer has no such block
  rule_list : RuleList
  result_code : Option UInt32

def command (msg : List UInt8) : Option CmdType := getCmdType (MessageHead.ofBytes msg)

def body (msg : List UInt8) : List UInt8 := msg.drop MESSAGE_HEADER_LENGTH

def ruleAddAclRule (msg : List UInt8) (rule_list : RuleList) : Handled :=
  let blocks := RCP_BLOCK_ACL_RULE_TUPLE.ofBytes (body msg)
  let (rule_list, ret) := ruleAdd rule_list blocks
  let result_code :=
    if RULE_OK = ret then RCP_RESULT_OK
    else if RULE_FULL = ret then RCP_RESULT_RULE_FULL
    else if RULE_EXIST = ret then RCP_RESULT_RULE_EXIST
    else 0
  ⟨rule_list, some result_code⟩

def ruleDelAclRule (msg : List UInt8) (rule_list : RuleList) : Handled :=
  let blocks := RCP_BLOCK_ACL_RULE_TUPLE.ofBytes (body msg)
  let (rule_list, ret) := ruleDel rule_list blocks
  let result_code :=
    if RULE_OK = ret then RCP_RESULT_OK
    else if RULE_NOT_EXIST = ret then RCP_RESULT_RULE_NOT_EXIST
    else 0
  ⟨rule_list, some result_code⟩

def ruleDelAclRuleId (msg : List UInt8) (rule_list : RuleList) : Option Handled := do
  let blocks := RCP_BLOCK_ACL_RULE_ID.ofBytes (body msg)
  let (rule_list, ret) ← ruleDelByBlock rule_list blocks
  let result_code :=
    if RULE_OK = ret then RCP_RESULT_OK
    else if RULE_NOT_EXIST = ret then RCP_RESULT_RULE_NOT_EXIST
    else 0
  some ⟨rule_list, some result_code⟩

def ruleDelAclRuleAll (rule_list : RuleList) : Handled :=
  ⟨(ruleDelAll rule_list).1, some RCP_RESULT_OK⟩

def ruleCommitAclRule (rule_list : RuleList) : Handled := ⟨rule_list, some RCP_RESULT_OK⟩

def ruleShowAclRule (fopen : Bool) (rule_list : RuleList) : Handled :=
  -- the argument says whether the file could be opened
  ⟨rule_list, some (if fopen then RCP_RESULT_OK else RCP_RESULT_FILE_ERR)⟩

def mgmtProcessCmd (fopen : Bool) (msg : List UInt8) (rule_list : RuleList) : Option Handled :=
  -- `mgmt_process_cmd` with the handlers of `init_cmd_process_handle`. The `octeon_` handlers only
  -- answer with a text from the data plane
  match command msg with
  | some SHOW_ACL_RULE => some (ruleShowAclRule fopen rule_list)
  | some ADD_ACL_RULE => some (ruleAddAclRule msg rule_list)
  | some DEL_ACL_RULE => some (ruleDelAclRule msg rule_list)
  | some DEL_ACL_RULE_ID => ruleDelAclRuleId msg rule_list
  | some DEL_ACL_RULE_ALL => some (ruleDelAclRuleAll rule_list)
  | some COMMIT_ACL_RULE => some (ruleCommitAclRule rule_list)
  | _ => some ⟨rule_list, none⟩

def handleRequest (fopen : Bool) (rule_list : RuleList) (sock : Segmented UInt8) (buf_r : Buffer)
    : Option Handled := do
  -- `server_run` for one request, it is handled in the receive buffer
  let r ← recvTcpClientPacket sock buf_r
  if r.ret = 0 then
    mgmtProcessCmd fopen r.rbuf.bytes rule_list
  else
    some ⟨rule_list, none⟩

def blockLength (cmd : CmdType) : Nat :=
  if cmd = ADD_ACL_RULE ∨ cmd = DEL_ACL_RULE ∨ cmd = DEL_ACL_RULE_ID then
    getDataBlockLength (initMsgHeader cmd).msg_block_type
  else
    0

/-- The body of the request is shorter than the block of its command. -/
def Short (req : List UInt8) : Prop :=
  ∃ cmd, command req = some cmd ∧ (body req).length < blockLength cmd

/--
A request acts on its own bytes only: its effect and its result code do not depend on the buffer, and
without a whole block it has no effect.
-/
structure ActsOnOwnBytes (fopen : Bool) (rule_list : RuleList) (sock : Segmented UInt8)
    (req : List UInt8) : Prop where
  same : ∀ buf1 buf2, handleRequest fopen rule_list sock buf1 = handleRequest fopen rule_list sock buf2
  short : Short req → ∀ buf_r,
    (handleRequest fopen rule_list sock buf_r).map Handled.rule_list = some rule_list

/-- Nothing that could stand behind the body makes the command change the rules. -/
def Harmless (rule_list : RuleList) (req : List UInt8) : Prop :=
  match command req with
  | some ADD_ACL_RULE => rule_list.slots.Full
  | some DEL_ACL_RULE => ∀ rule ∈ rule_list.slots.contents, ¬ body req <+: rule.toBytes
  | some DEL_ACL_RULE_ID => ∀ i, rule_list.slots i = none
  | _ => True

section Bytes

variable {req rest : List UInt8}

theorem command_append (h : WellFormed req) (rest : List UInt8)
    : command (req ++ rest) = command req := by
  rw [command, MessageHead.ofBytes_append h.header, command]

theorem body_append (h : WellFormed req) (rest : List UInt8)
    : body (req ++ rest) = body req ++ rest :=
  List.drop_append_of_le_length h.header

theorem length_eq_body (h : WellFormed req)
    : req.length = MESSAGE_HEADER_LENGTH + (body req).length := by
  rw [body, List.length_drop]
  exact (Nat.add_sub_cancel' h.header).symm

theorem length_body_mod (h : WellFormed req) : (body req).length % 4 = 0 := by
  have hlen := h.total_len
  rw [length_eq_body h, Nat.shiftLeft_eq, MESSAGE_HEADER_LENGTH] at hlen
  omega

theorem tuple_ofBytes_append {bs : List UInt8} (h : 40 ≤ bs.length) (rest : List UInt8)
    : RCP_BLOCK_ACL_RULE_TUPLE.ofBytes (bs ++ rest) = RCP_BLOCK_ACL_RULE_TUPLE.ofBytes bs := by
  apply RCP_BLOCK_ACL_RULE_TUPLE.toBytes_injective
  rw [RCP_BLOCK_ACL_RULE_TUPLE.toBytes_ofBytes h, RCP_BLOCK_ACL_RULE_TUPLE.toBytes_ofBytes,
    List.take_append_of_le_length h]
  rw [List.length_append]
  omega

theorem ruleId_ofBytes_append {bs : List UInt8} (h : 4 ≤ bs.length) (rest : List UInt8)
    : RCP_BLOCK_ACL_RULE_ID.ofBytes (bs ++ rest) = RCP_BLOCK_ACL_RULE_ID.ofBytes bs := by
  rw [RCP_BLOCK_ACL_RULE_ID.ofBytes, Bytes.field, List.drop_zero, List.take_append_of_le_length h]
  rfl

theorem ruleId_ofBytes_bigEndian (id : UInt32)
    : RCP_BLOCK_ACL_RULE_ID.ofBytes (Bytes.bigEndian 4 id.toNat ++ rest) = ⟨id⟩ := by
  have hlen : (Bytes.bigEndian 4 id.toNat).length = 4 := Bytes.length_bigEndian 4 _
  rw [RCP_BLOCK_ACL_RULE_ID.ofBytes, Bytes.field, List.drop_zero, List.take_left' hlen,
    Bytes.uint32_ofBigEndian_bigEndian]

theorem exists_buffer (n : Nat) (tail : List UInt8) (h : n + tail.length ≤ BUF_R_SIZE)
    : ∃ buf_r : Buffer, ∃ rest, buf_r.bytes.drop n = tail ++ rest := by
  have hlen : (List.replicate n (0 : UInt8) ++ (tail
      ++ List.replicate (BUF_R_SIZE - n - tail.length) 0)).length = BUF_R_SIZE := by
    rw [List.length_append, List.length_append, List.length_replicate, List.length_replicate]
    omega
  exact ⟨⟨_, hlen⟩, _, List.drop_left' List.length_replicate⟩

end Bytes

section Handlers

variable {rule_list : RuleList} {msg : List UInt8} {i : Fin RULE_ENTRY_MAX}

theorem insert_ne_self {rule : RCP_BLOCK_ACL_RULE_TUPLE} (h : rule_list.slots i = none)
    : rule_list.slots ≠ rule_list.slots.insert i rule := by
  intro heq
  have hi : rule_list.slots i = some rule := by rw [heq, Slots.insert_self]
  rw [h] at hi
  contradiction

theorem remove_ne_self {rule : RCP_BLOCK_ACL_RULE_TUPLE} (h : rule_list.slots i = some rule)
    : rule_list.slots ≠ rule_list.slots.remove i := by
  intro heq
  have hi : rule_list.slots i = none := by rw [heq, Slots.remove_self]
  rw [h] at hi
  contradiction

theorem ruleAddAclRule_full (h : Consistent rule_list) (hfull : rule_list.slots.Full)
    : ruleAddAclRule msg rule_list = ⟨rule_list, some RCP_RESULT_RULE_FULL⟩ := by
  rw [ruleAddAclRule, ruleAdd, if_pos (h.free_eq_zero.mpr hfull)]
  rfl

theorem ruleAdd_new {rule : RCP_BLOCK_ACL_RULE_TUPLE} (h : Consistent rule_list)
    (hfull : ¬ rule_list.slots.Full) (hmem : rule ∉ rule_list.slots.contents)
    : (ruleAdd rule_list rule).1 ≠ rule_list := by
  have hspec : CallSpec rule_list (.add rule) (ruleAdd rule_list rule) := h.callSpec (.add rule)
  intro heq
  generalize ruleAdd rule_list rule = res at hspec heq
  cases hspec with
  | addFull hfull' => exact hfull hfull'
  | addExist _ hmem' => exact hmem hmem'
  | @addOk _ rule_list' _ hfree _ hslots =>
    have hsame : rule_list' = rule_list := heq
    rw [hsame] at hslots
    exact insert_ne_self hfree hslots

theorem ruleDel_absent {rule : RCP_BLOCK_ACL_RULE_TUPLE} (h : Consistent rule_list)
    (hmem : rule ∉ rule_list.slots.contents)
    : ruleDel rule_list rule = (rule_list, RULE_NOT_EXIST) := by
  have hspec : CallSpec rule_list (.del rule) (ruleDel rule_list rule) := h.callSpec (.del rule)
  generalize ruleDel rule_list rule = res at hspec
  cases hspec with
  | @delOk _ _ i hused _ => exact absurd (Slots.mem_contents.mpr ⟨i, hused⟩) hmem
  | delNotExist _ => rfl

theorem ruleDel_stored {rule : RCP_BLOCK_ACL_RULE_TUPLE} (h : Consistent rule_list)
    (hmem : rule ∈ rule_list.slots.contents) : (ruleDel rule_list rule).1 ≠ rule_list := by
  have hspec : CallSpec rule_list (.del rule) (ruleDel rule_list rule) := h.callSpec (.del rule)
  intro heq
  generalize ruleDel rule_list rule = res at hspec heq
  cases hspec with
  | @delOk _ rule_list' _ hused hslots =>
    have hsame : rule_list' = rule_list := heq
    rw [hsame] at hslots
    exact remove_ne_self hused hslots
  | delNotExist hmem' => exact hmem' hmem

theorem rule_list_ruleAddAclRule
    : (ruleAddAclRule msg rule_list).rule_list
        = (ruleAdd rule_list (RCP_BLOCK_ACL_RULE_TUPLE.ofBytes (body msg))).1 := by
  rw [ruleAddAclRule]

theorem rule_list_ruleDelAclRule
    : (ruleDelAclRule msg rule_list).rule_list
        = (ruleDel rule_list (RCP_BLOCK_ACL_RULE_TUPLE.ofBytes (body msg))).1 := by
  rw [ruleDelAclRule]

theorem ruleDelAclRule_absent (h : Consistent rule_list)
    (hmem : RCP_BLOCK_ACL_RULE_TUPLE.ofBytes (body msg) ∉ rule_list.slots.contents)
    : ruleDelAclRule msg rule_list = ⟨rule_list, some RCP_RESULT_RULE_NOT_EXIST⟩ := by
  rw [ruleDelAclRule, ruleDel_absent h hmem]
  rfl

theorem ruleDelAclRuleId_empty (h : Consistent rule_list) (hempty : ∀ i, rule_list.slots i = none)
    : ruleDelAclRuleId msg rule_list = some ⟨rule_list, some RCP_RESULT_RULE_NOT_EXIST⟩ := by
  rw [ruleDelAclRuleId, ruleDelByBlock, if_pos (h.free_eq_max.mpr hempty).symm]
  rfl

theorem ruleDelAclRuleId_used {rule : RCP_BLOCK_ACL_RULE_TUPLE} (h : Consistent rule_list)
    (hid : (RCP_BLOCK_ACL_RULE_ID.ofBytes (body msg)).rule_id.toNat = i.val)
    (hused : rule_list.slots i = some rule)
    : (ruleDelAclRuleId msg rule_list).map Handled.rule_list = some (freeEntry rule_list i) := by
  have hfree : ¬ RULE_ENTRY_MAX = rule_list.rule_entry_free := by
    intro hmax
    rw [h.free_eq_max.mp hmax.symm i] at hused
    contradiction
  have hstatus := Ne.symm (RuleList.slots_eq_some.mp hused).1
  have hlt : (RCP_BLOCK_ACL_RULE_ID.ofBytes (body msg)).rule_id.toNat < RULE_ENTRY_MAX :=
    hid ▸ i.isLt
  have hindex : (⟨_, hlt⟩ : Fin RULE_ENTRY_MAX) = i := Fin.ext hid
  rw [ruleDelAclRuleId, ruleDelByBlock, if_neg hfree, dif_pos hlt, hindex, ruleDelById,
    if_neg hfree, if_neg hstatus]
  rfl

end Handlers

section Request

variable {rule_list : RuleList} {sock : Segmented UInt8} {req : List UInt8} {fopen : Bool}

theorem handleRequest_whole (h : WellFormed req) (hs : ∀ seg ∈ sock, seg ≠ [])
    (hwhole : ReadsWhole sock req) (buf_r : Buffer)
    : handleRequest fopen rule_list sock buf_r
        = mgmtProcessCmd fopen (req ++ buf_r.bytes.drop req.length) rule_list := by
  rcases recv_whole h hs hwhole.header hwhole.body buf_r with ⟨r, hrecv, hret, -, -, hbytes⟩
  rw [handleRequest, hrecv, Option.bind_eq_bind, Option.bind_some, if_pos hret, hbytes]

theorem mgmtProcessCmd_append (h : WellFormed req) (hshort : ¬ Short req) (rest : List UInt8)
    : mgmtProcessCmd fopen (req ++ rest) rule_list = mgmtProcessCmd fopen req rule_list := by
  have hcommand := command_append h rest
  have hbody := body_append h rest
  have hlong (cmd : CmdType) (hcmd : command req = some cmd)
      : blockLength cmd ≤ (body req).length :=
    Nat.le_of_not_lt fun hlt => hshort ⟨cmd, hcmd, hlt⟩
  rw [mgmtProcessCmd, mgmtProcessCmd, hcommand]
  cases hcmd : command req with
  | none => rfl
  | some cmd =>
    cases cmd
    case ADD_ACL_RULE =>
      have htuple := tuple_ofBytes_append (hlong _ hcmd) rest
      simp only [ruleAddAclRule, hbody, htuple]
    case DEL_ACL_RULE =>
      have htuple := tuple_ofBytes_append (hlong _ hcmd) rest
      simp only [ruleDelAclRule, hbody, htuple]
    case DEL_ACL_RULE_ID =>
      have hid := ruleId_ofBytes_append (hlong _ hcmd) rest
      simp only [ruleDelAclRuleId, hbody, hid]
    all_goals rfl

theorem exists_tail_absent (rule_list : RuleList) {b : List UInt8} (hb : b.length + 4 ≤ 40)
    : ∃ tail : List UInt8, b.length + tail.length = 40 ∧ ∀ rest,
        RCP_BLOCK_ACL_RULE_TUPLE.ofBytes (b ++ (tail ++ rest)) ∉ rule_list.slots.contents := by
  let tail (k : UInt32) := Bytes.bigEndian 4 k.toNat ++ List.replicate (36 - b.length) 0
  have hlen (k : UInt32) : b.length + (tail k).length = 40 := by
    rw [List.length_append, Bytes.length_bigEndian, List.length_replicate]
    omega
  have htuple (k : UInt32) (rest : List UInt8)
      : (RCP_BLOCK_ACL_RULE_TUPLE.ofBytes (b ++ (tail k ++ rest))).toBytes = b ++ tail k := by
    have h40 : (b ++ tail k).length = 40 := by rw [List.length_append, hlen]
    rw [RCP_BLOCK_ACL_RULE_TUPLE.toBytes_ofBytes, ← List.append_assoc, List.take_left' h40]
    rw [← List.append_assoc, List.length_append, h40]
    exact Nat.le_add_right _ _
  by_contra hstored
  push Not at hstored
  have hslot (k : Fin (RULE_ENTRY_MAX + 1)) : ∃ i : Fin RULE_ENTRY_MAX, ∃ rule,
      rule_list.slots i = some rule ∧ rule.toBytes = b ++ tail (UInt32.ofNat k.val) := by
    rcases hstored (tail (UInt32.ofNat k.val)) (hlen _) with ⟨rest, i, hi⟩
    exact ⟨i, _, hi, htuple _ rest⟩
  choose slot rule hslot hbytes using hslot
  have hinj : Function.Injective slot := by
    intro j k hjk
    have hrule : rule j = rule k := by
      have hj := hslot j
      rw [hjk, hslot k, Option.some.injEq] at hj
      exact hj.symm
    have hword := hbytes j
    rw [hrule, hbytes k, List.append_cancel_left_eq] at hword
    have hword := (List.append_inj' hword rfl).1
    have hj := j.isLt
    have hk := k.isLt
    have heq := Bytes.bigEndian_injective (UInt32.toNat_lt _) (UInt32.toNat_lt _) hword
    rw [UInt32.toNat_ofNat_of_lt', UInt32.toNat_ofNat_of_lt'] at heq
    . exact Fin.ext heq.symm
    all_goals
      simp only [RULE_ENTRY_MAX, UInt32.size] at hj hk ⊢
      omega
  have := Fintype.card_le_of_injective slot hinj
  rw [Fintype.card_fin, Fintype.card_fin] at this
  omega

theorem mgmtProcessCmd_harmless (fopen : Bool) (hcons : Consistent rule_list) (h : WellFormed req)
    (hshort : Short req) (hharmless : Harmless rule_list req)
    : ∃ result_code, ∀ rest, 40 ≤ (body req ++ rest).length
        → mgmtProcessCmd fopen (req ++ rest) rule_list = some ⟨rule_list, result_code⟩ := by
  rcases hshort with ⟨cmd, hcmd, hlt⟩
  have hcommand (rest : List UInt8) := (command_append h rest).trans hcmd
  simp only [Harmless, hcmd] at hharmless
  cases cmd
  case ADD_ACL_RULE =>
    refine ⟨some RCP_RESULT_RULE_FULL, fun rest _ => ?_⟩
    rw [mgmtProcessCmd, hcommand]
    exact congrArg some (ruleAddAclRule_full hcons hharmless)
  case DEL_ACL_RULE =>
    refine ⟨some RCP_RESULT_RULE_NOT_EXIST, fun rest hrest => ?_⟩
    rw [mgmtProcessCmd, hcommand]
    apply congrArg some
    apply ruleDelAclRule_absent hcons
    intro hmem
    apply hharmless _ hmem
    rw [body_append h, RCP_BLOCK_ACL_RULE_TUPLE.toBytes_ofBytes hrest]
    have hle : (body req).length ≤ 40 := hlt.le
    rw [List.take_append, List.take_of_length_le hle]
    exact List.prefix_append ..
  case DEL_ACL_RULE_ID =>
    refine ⟨some RCP_RESULT_RULE_NOT_EXIST, fun rest _ => ?_⟩
    rw [mgmtProcessCmd, hcommand]
    exact ruleDelAclRuleId_empty hcons hharmless
  all_goals exact absurd hlt (Nat.not_lt_zero _)

theorem exists_mgmtProcessCmd_ne (fopen : Bool) (hcons : Consistent rule_list) (h : WellFormed req)
    (hshort : Short req) (hharmless : ¬ Harmless rule_list req)
    : ∃ tail : List UInt8, (body req).length + tail.length ≤ 40 ∧ ∀ rest,
        (mgmtProcessCmd fopen (req ++ (tail ++ rest)) rule_list).map Handled.rule_list
          ≠ some rule_list := by
  rcases hshort with ⟨cmd, hcmd, hlt⟩
  have hcommand (rest : List UInt8) := (command_append h rest).trans hcmd
  have hmod := length_body_mod h
  simp only [Harmless, hcmd] at hharmless
  cases cmd
  case ADD_ACL_RULE =>
    have hlt : (body req).length < 40 := hlt
    rcases exists_tail_absent rule_list (b := body req) (by omega) with
      ⟨tail, hlen, habsent⟩
    refine ⟨tail, hlen.le, fun rest => ?_⟩
    rw [mgmtProcessCmd, hcommand, Option.map_some, ne_eq, Option.some.injEq,
      rule_list_ruleAddAclRule, body_append h]
    exact ruleAdd_new hcons hharmless (habsent rest)
  case DEL_ACL_RULE =>
    push Not at hharmless
    rcases hharmless with ⟨rule, hmem, tail, htail⟩
    have hlen := congrArg List.length htail
    rw [List.length_append, RCP_BLOCK_ACL_RULE_TUPLE.length_toBytes] at hlen
    refine ⟨tail, hlen.le, fun rest => ?_⟩
    rw [mgmtProcessCmd, hcommand, Option.map_some, ne_eq, Option.some.injEq,
      rule_list_ruleDelAclRule, body_append h, ← List.append_assoc, htail,
      RCP_BLOCK_ACL_RULE_TUPLE.ofBytes_toBytes]
    exact ruleDel_stored hcons hmem
  case DEL_ACL_RULE_ID =>
    push Not at hharmless
    rcases hharmless with ⟨i, hi⟩
    rcases Option.ne_none_iff_exists'.mp hi with ⟨rule, hused⟩
    have hlt : (body req).length < 4 := hlt
    have hnil : body req = [] := List.length_eq_zero_iff.mp (by omega)
    refine ⟨Bytes.bigEndian 4 (UInt32.ofNat i.val).toNat, ?_, fun rest => ?_⟩
    . rw [hnil, Bytes.length_bigEndian]
      decide
    . have hid : (RCP_BLOCK_ACL_RULE_ID.ofBytes (body (req
          ++ (Bytes.bigEndian 4 (UInt32.ofNat i.val).toNat ++ rest)))).rule_id.toNat = i.val := by
        have hlt := i.isLt
        rw [body_append h, hnil, List.nil_append, ruleId_ofBytes_bigEndian,
          UInt32.toNat_ofNat_of_lt']
        simp only [RULE_ENTRY_MAX, UInt32.size] at hlt ⊢
        omega
      rw [mgmtProcessCmd, hcommand]
      simp only
      rw [ruleDelAclRuleId_used hcons hid hused, ne_eq, Option.some.injEq]
      intro heq
      apply remove_ne_self hused
      rw [← slots_freeEntry, heq]
  all_goals exact absurd hlt (Nat.not_lt_zero _)

/--
A received request acts on its own bytes exactly when it brings the whole block of its command, or
the rules are such that no block that starts with its body could change them.
-/
theorem actsOnOwnBytes_iff (fopen : Bool) (hcons : Consistent rule_list) (h : WellFormed req)
    (hs : ∀ seg ∈ sock, seg ≠ []) (hwhole : ReadsWhole sock req)
    : ActsOnOwnBytes fopen rule_list sock req ↔ (Short req → Harmless rule_list req) := by
  have hreqlen := length_eq_body h
  constructor
  . intro hacts hshort
    by_contra hharmless
    rcases exists_mgmtProcessCmd_ne fopen hcons h hshort hharmless with
      ⟨tail, htail, hne⟩
    rcases exists_buffer req.length tail
      (by simp only [MESSAGE_HEADER_LENGTH, BUF_R_SIZE] at hreqlen ⊢; omega) with ⟨buf_r, rest, hbuf⟩
    apply hne rest
    rw [← hbuf, ← handleRequest_whole h hs hwhole]
    exact hacts.short hshort buf_r
  . intro hharmless
    by_cases hshort : Short req
    . rcases mgmtProcessCmd_harmless fopen hcons h hshort (hharmless hshort) with
        ⟨result_code, hcode⟩
      have hhandle (buf_r : Buffer)
          : handleRequest fopen rule_list sock buf_r = some ⟨rule_list, result_code⟩ := by
        rw [handleRequest_whole h hs hwhole]
        apply hcode
        rw [List.length_append, List.length_drop, buf_r.length_eq]
        have := h.length_le
        simp only [MESSAGE_HEADER_LENGTH, BUF_R_SIZE] at hreqlen this ⊢
        omega
      refine ⟨fun buf1 buf2 => ?_, fun _ buf_r => ?_⟩
      . rw [hhandle, hhandle]
      . rw [hhandle, Option.map_some]
    . refine ⟨fun buf1 buf2 => ?_, fun h => absurd h hshort⟩
      rw [handleRequest_whole h hs hwhole, handleRequest_whole h hs hwhole,
        mgmtProcessCmd_append h hshort, mgmtProcessCmd_append h hshort]

end Request

section AddRequest

def addRequest : List UInt8 := [0x88, 0x1, 0x01, 0x0b, 0, 0, 0, 1, 0, 3, 0x02, 0]

theorem wellFormed_addRequest : WellFormed addRequest := ⟨by decide, by decide⟩

theorem command_addRequest : command addRequest = some ADD_ACL_RULE := by decide

theorem short_addRequest : Short addRequest := ⟨ADD_ACL_RULE, command_addRequest, by decide⟩

theorem readsWhole_addRequest : ReadsWhole [addRequest] addRequest := ⟨by decide, by decide⟩

theorem actsOnOwnBytes_iff_addRequest
    : ActsOnOwnBytes true ruleListInit [addRequest] addRequest
        ↔ (Short addRequest → Harmless ruleListInit addRequest) :=
  actsOnOwnBytes_iff true Consistent.init wellFormed_addRequest (by decide) readsWhole_addRequest

theorem not_actsOnOwnBytes_addRequest
    : WellFormed addRequest ∧ ReadsWhole [addRequest] addRequest ∧ Short addRequest
        ∧ ¬ ActsOnOwnBytes true ruleListInit [addRequest] addRequest := by
  refine ⟨wellFormed_addRequest, readsWhole_addRequest, short_addRequest, ?_⟩
  intro hacts
  have hsame := hacts.short short_addRequest ⟨List.replicate BUF_R_SIZE 0, List.length_replicate⟩
  rw [handleRequest_whole wellFormed_addRequest (by decide) readsWhole_addRequest, mgmtProcessCmd,
    command_append wellFormed_addRequest, command_addRequest, Option.map_some, Option.some.injEq,
    rule_list_ruleAddAclRule] at hsame
  refine ruleAdd_new Consistent.init ?_ ?_ hsame
  . intro hfull
    exact hfull 0 (congrFun slots_ruleListInit 0)
  . rw [slots_ruleListInit, Slots.contents_empty]
    exact Set.notMem_empty _

end AddRequest

end SecFw.Srv
