import SecFw.Srv.Request

/-!
This module contains the rule commands of the command line client. What they accept is packed into
one block, a rule that was added by a request is taken away by the request to delete it, and an id
that the client lets through need not be an index of the rule list.
-/

namespace SecFw.Client

open CmdType PackHandle EntryStatus Srv

abbrev ACL_RULE_ACTION_FW : UInt16 := 0
abbrev ACL_RULE_ACTION_DROP : UInt16 := 1

structure RuleArgs where
  smac : Vector UInt8 6
  dmac : Vector UInt8 6
  sip : UInt32
  sip_mask : UInt32
  dip : UInt32
  dip_mask : UInt32
  sport_start : UInt32
  sport_end : UInt32
  dport_start : UInt32
  dport_end : UInt32
  proto_start : UInt32
  proto_end : UInt32
  action : String
  deriving DecidableEq, Repr

structure Called where
  g_msg_id : UInt32
  sent : Except String (Option Packed)

def cparserCmdAddRule (g_msg_id : UInt32) (args : RuleArgs) : Called :=
  -- `cparser_cmd_add_rule_..._action`, the fields are only looked at after the last check
  let cmd := ADD_ACL_RULE
  let rcp_para := { RcpMsgParams.cleared with
    nparam := 1
    more_flag := 0
    msg_id := g_msg_id }
  let g_msg_id := g_msg_id + 1
  if args.sip = 0 ∧ args.sip_mask ≠ 0 then
    ⟨g_msg_id, .error "sip mask invalid\n"⟩
  else if args.sip ≠ 0 ∧ args.sip_mask > 32 then
    ⟨g_msg_id, .error "sip mask invalid\n"⟩
  else if args.dip = 0 ∧ args.dip_mask ≠ 0 then
    ⟨g_msg_id, .error "dip mask invalid\n"⟩
  else if args.dip ≠ 0 ∧ args.dip_mask > 32 then
    ⟨g_msg_id, .error "dip mask invalid\n"⟩
  else if args.sport_start > args.sport_end ∨ args.sport_end > 0xffff then
    ⟨g_msg_id, .error "sport invalid\n"⟩
  else if args.dport_start > args.dport_end ∨ args.dport_end > 0xffff then
    ⟨g_msg_id, .error "dport invalid\n"⟩
  else if args.proto_start > args.proto_end ∨ args.proto_end > 0xff then
    ⟨g_msg_id, .error "dport invalid\n"⟩
  else
    let tuple := { zeroTuple with
      smac := args.smac
      dmac := args.dmac
      sip := args.sip
      sip_mask := args.sip_mask
      dip := args.dip
      dip_mask := args.dip_mask
      sport_start := args.sport_start.toUInt16
      sport_end := args.sport_end.toUInt16
      dport_start := args.dport_start.toUInt16
      dport_end := args.dport_end.toUInt16
      protocol_start := args.proto_start.toUInt8
      protocol_end := args.proto_end.toUInt8 }
    let tuple :=
      if args.action = "fw" then { tuple with action := ACL_RULE_ACTION_FW }
      else if args.action = "drop" then { tuple with action := ACL_RULE_ACTION_DROP }
      else tuple
    ⟨g_msg_id, .ok (packCmd cmd (rcp_para.setParam tuple.toBytes))⟩

def cparserCmdDeleteRule (g_msg_id : UInt32) (args : RuleArgs) : Called :=
  let cmd := DEL_ACL_RULE
  let rcp_para := { RcpMsgParams.cleared with
    nparam := 1
    more_flag := 0
    msg_id := g_msg_id }
  let g_msg_id := g_msg_id + 1
  if args.sip = 0 ∧ args.sip_mask ≠ 0 then
    ⟨g_msg_id, .error "sip mask invalid\n"⟩
  else if args.sip ≠ 0 ∧ args.sip_mask > 32 then
    ⟨g_msg_id, .error "sip mask invalid\n"⟩
  else if args.dip = 0 ∧ args.dip_mask ≠ 0 then
    ⟨g_msg_id, .error "dip mask invalid\n"⟩
  else if args.dip ≠ 0 ∧ args.dip_mask > 32 then
    ⟨g_msg_id, .error "dip mask invalid\n"⟩
  else if args.sport_start > args.sport_end ∨ args.sport_end > 0xffff then
    ⟨g_msg_id, .error "sport invalid\n"⟩
  else if args.dport_start > args.dport_end ∨ args.dport_end > 0xffff then
    ⟨g_msg_id, .error "dport invalid\n"⟩
  else if args.proto_start > args.proto_end ∨ args.proto_end > 0xff then
    ⟨g_msg_id, .error "dport invalid\n"⟩
  else
    let tuple := { zeroTuple with
      smac := args.smac
      dmac := args.dmac
      sip := args.sip
      sip_mask := args.sip_mask
      dip := args.dip
      dip_mask := args.dip_mask
      sport_start := args.sport_start.toUInt16
      sport_end := args.sport_end.toUInt16
      dport_start := args.dport_start.toUInt16
      dport_end := args.dport_end.toUInt16
      protocol_start := args.proto_start.toUInt8
      protocol_end := args.proto_end.toUInt8 }
    let tuple :=
      if args.action = "fw" then { tuple with action := ACL_RULE_ACTION_FW }
      else if args.action = "drop" then { tuple with action := ACL_RULE_ACTION_DROP }
      else tuple
    ⟨g_msg_id, .ok (packCmd cmd (rcp_para.setParam tuple.toBytes))⟩

def cparserCmdDeleteRuleId (g_msg_id : UInt32) (id : UInt32) : Called :=
  if id > 100000 then
    ⟨g_msg_id, .error "rule id invalid.\n"⟩
  else
    let cmd := DEL_ACL_RULE_ID
    let rcp_para := { RcpMsgParams.cleared with
      nparam := 1
      more_flag := 0
      msg_id := g_msg_id }
    let g_msg_id := g_msg_id + 1
    ⟨g_msg_id, .ok (packCmd cmd (rcp_para.setParam (Bytes.bigEndian 4 id.toNat)))⟩

structure RuleArgs.Valid (args : RuleArgs) : Prop where
  sip_mask : args.sip = 0 → args.sip_mask = 0
  sip_mask_le : args.sip ≠ 0 → args.sip_mask ≤ 32
  dip_mask : args.dip = 0 → args.dip_mask = 0
  dip_mask_le : args.dip ≠ 0 → args.dip_mask ≤ 32
  sport : args.sport_start ≤ args.sport_end ∧ args.sport_end ≤ 0xffff
  dport : args.dport_start ≤ args.dport_end ∧ args.dport_end ≤ 0xffff
  proto : args.proto_start ≤ args.proto_end ∧ args.proto_end ≤ 0xff

def RuleArgs.tuple (args : RuleArgs) : RCP_BLOCK_ACL_RULE_TUPLE where
  smac := args.smac
  dmac := args.dmac
  sip := args.sip
  sip_mask := args.sip_mask
  dip := args.dip
  dip_mask := args.dip_mask
  sport_start := args.sport_start.toUInt16
  sport_end := args.sport_end.toUInt16
  dport_start := args.dport_start.toUInt16
  dport_end := args.dport_end.toUInt16
  protocol_start := args.proto_start.toUInt8
  protocol_end := args.proto_end.toUInt8
  action :=
    if args.action = "fw" then ACL_RULE_ACTION_FW
    else if args.action = "drop" then ACL_RULE_ACTION_DROP
    else 0

def oneParam (g_msg_id : UInt32) : RcpMsgParams :=
  { RcpMsgParams.cleared with
    nparam := 1
    more_flag := 0
    msg_id := g_msg_id }

/--
The request to delete has the block of the request to add, and on every rule list where the first one
adds a rule the second one takes it away again. What the requests left in the receive buffer does not
matter.
-/
structure Undoes (added deleted : Packed) : Prop where
  added_command : command added.sbuf = some ADD_ACL_RULE
  deleted_command : command deleted.sbuf = some DEL_ACL_RULE
  body_eq : body deleted.sbuf = body added.sbuf
  length_body : (body added.sbuf).length = 40
  undone : ∀ calls rest1 rest2 rule_list1,
    ruleAdd (runCalls calls) (RCP_BLOCK_ACL_RULE_TUPLE.ofBytes (body (added.sbuf ++ rest1)))
        = (rule_list1, RULE_OK)
      → ∃ rule_list2,
          ruleDel rule_list1 (RCP_BLOCK_ACL_RULE_TUPLE.ofBytes (body (deleted.sbuf ++ rest2)))
              = (rule_list2, RULE_OK)
            ∧ Undone (runCalls calls) rule_list2

section Requests

variable {g_msg_id : UInt32} {args : RuleArgs} {out : Option Packed} {cmd : CmdType}
  {src rest : List UInt8}

def request (cmd : CmdType) (g_msg_id : UInt32) (src : List UInt8) : Packed :=
  ⟨(encapMsgHeader cmd (oneParam g_msg_id)).toBytes ++ src, MESSAGE_HEADER_LENGTH + src.length⟩

theorem command_request (g_msg_id : UInt32) (src : List UInt8) (hvalid : cmdIsValid cmd) (rest : List UInt8)
    : command ((request cmd g_msg_id src).sbuf ++ rest) = some cmd := by
  rw [command, request, List.append_assoc, MessageHead.ofBytes_toBytes]
  exact getCmdType_encapMsgHeader hvalid _

theorem body_request (cmd : CmdType) (g_msg_id : UInt32) (src rest : List UInt8)
    : body ((request cmd g_msg_id src).sbuf ++ rest) = src ++ rest := by
  rw [body, request, List.append_assoc]
  exact List.drop_left' (MessageHead.length_toBytes _)

theorem RuleArgs.tuple_eq (args : RuleArgs)
    : args.tuple
        =
      if args.action = "fw" then { args.tuple with action := ACL_RULE_ACTION_FW }
      else if args.action = "drop" then { args.tuple with action := ACL_RULE_ACTION_DROP }
      else { args.tuple with action := zeroTuple.action } := by
  unfold tuple
  split
  . rfl
  . split
    . rfl
    . rfl

theorem packCmd_request (cmd : CmdType) (g_msg_id : UInt32) {handle : PackHandle}
    (hregistered : initMsgPackHandle cmd = some handle) (hinfo : handle ≠ pack_show_info)
    (hnull : handle ≠ pack_null) (hsrc : src.length = handle.blockSize)
    : packCmd cmd ((oneParam g_msg_id).setParam src) = some (request cmd g_msg_id src) :=
  packCmd_setParam hregistered hinfo hnull rfl hsrc

theorem Called.sent_of_check {p : Prop} [Decidable p] {id : UInt32} {text : String} {rest : Called}
    (h : (if p then ⟨id, .error text⟩ else rest : Called).sent = .ok out)
    : ¬p ∧ rest.sent = .ok out := by
  split at h
  . contradiction
  . next hp => exact ⟨hp, h⟩

theorem sent_addRule (h : (cparserCmdAddRule g_msg_id args).sent = .ok out)
    : args.Valid ∧ out = some (request ADD_ACL_RULE g_msg_id args.tuple.toBytes) := by
  unfold cparserCmdAddRule at h
  dsimp only at h
  rcases Called.sent_of_check h with ⟨hsip, h⟩
  rcases Called.sent_of_check h with ⟨hsip_mask, h⟩
  rcases Called.sent_of_check h with ⟨hdip, h⟩
  rcases Called.sent_of_check h with ⟨hdip_mask, h⟩
  rcases Called.sent_of_check h with ⟨hsport, h⟩
  rcases Called.sent_of_check h with ⟨hdport, h⟩
  rcases Called.sent_of_check h with ⟨hproto, h⟩
  simp only [not_and, not_not, UInt32.not_lt] at hsip hsip_mask hdip hdip_mask
  simp only [not_or, UInt32.not_lt] at hsport hdport hproto
  constructor
  . exact ⟨hsip, hsip_mask, hdip, hdip_mask, hsport, hdport, hproto⟩
  . rw [Except.ok.injEq] at h
    rw [← h]
    have hpack := packCmd_request ADD_ACL_RULE g_msg_id rfl (by decide) (by decide)
      args.tuple.length_toBytes
    rw [args.tuple_eq] at hpack ⊢
    exact hpack

theorem not_out_of_range {first last max : UInt32} (h : first ≤ last ∧ last ≤ max)
    : ¬ (first > last ∨ last > max) := by
  rw [not_or]
  exact ⟨UInt32.not_lt.mpr h.1, UInt32.not_lt.mpr h.2⟩

theorem sent_deleteRule (h : args.Valid)
    : (cparserCmdDeleteRule g_msg_id args).sent
        =
      .ok (some (request DEL_ACL_RULE g_msg_id args.tuple.toBytes)) := by
  have hpack := packCmd_request DEL_ACL_RULE g_msg_id rfl (by decide) (by decide)
    args.tuple.length_toBytes
  have hsip : ¬(args.sip = 0 ∧ args.sip_mask ≠ 0) := fun hsip => hsip.2 (h.sip_mask hsip.1)
  have hsip_mask : ¬(args.sip ≠ 0 ∧ args.sip_mask > 32) :=
    fun hsip => UInt32.not_le.mpr hsip.2 (h.sip_mask_le hsip.1)
  have hdip : ¬(args.dip = 0 ∧ args.dip_mask ≠ 0) := fun hdip => hdip.2 (h.dip_mask hdip.1)
  have hdip_mask : ¬(args.dip ≠ 0 ∧ args.dip_mask > 32) :=
    fun hdip => UInt32.not_le.mpr hdip.2 (h.dip_mask_le hdip.1)
  unfold cparserCmdDeleteRule
  dsimp only
  rw [if_neg hsip, if_neg hsip_mask, if_neg hdip, if_neg hdip_mask,
    if_neg (not_out_of_range h.sport), if_neg (not_out_of_range h.dport),
    if_neg (not_out_of_range h.proto), ← hpack, args.tuple_eq]
  rfl

theorem undoes_request (add_id delete_id : UInt32) (rule : RCP_BLOCK_ACL_RULE_TUPLE)
    : Undoes (request ADD_ACL_RULE add_id rule.toBytes)
        (request DEL_ACL_RULE delete_id rule.toBytes) := by
  have hbody (cmd : CmdType) (id : UInt32) : body (request cmd id rule.toBytes).sbuf = rule.toBytes := by
    have := body_request cmd id rule.toBytes []
    rwa [List.append_nil, List.append_nil] at this
  have hcommand (cmd : CmdType) (id : UInt32) (hvalid : cmdIsValid cmd)
      : command (request cmd id rule.toBytes).sbuf = some cmd := by
    have := command_request id rule.toBytes hvalid []
    rwa [List.append_nil] at this
  constructor
  case added_command => exact hcommand _ _ rfl
  case deleted_command => exact hcommand _ _ rfl
  case body_eq => rw [hbody, hbody]
  case length_body => rw [hbody, rule.length_toBytes]
  case undone =>
    intro calls rest1 rest2 rule_list1 hadd
    rw [body_request, RCP_BLOCK_ACL_RULE_TUPLE.ofBytes_toBytes] at hadd
    rw [body_request, RCP_BLOCK_ACL_RULE_TUPLE.ofBytes_toBytes]
    exact (consistent_runCalls calls).undone hadd

/-- Every vector that is accepted to add a rule is accepted to delete it, which undoes the add. -/
theorem delete_undoes_add (add_id delete_id : UInt32) (args : RuleArgs) (out : Option Packed)
    (haccepted : (cparserCmdAddRule add_id args).sent = .ok out)
    : ∃ added deleted, out = some added
        ∧ (cparserCmdDeleteRule delete_id args).sent = .ok (some deleted)
        ∧ Undoes added deleted := by
  rcases sent_addRule haccepted with ⟨hvalid, hout⟩
  refine ⟨_, _, hout, sent_deleteRule hvalid, ?_⟩
  apply undoes_request

end Requests

def webArgs : RuleArgs where
  smac := .replicate 6 0
  dmac := .replicate 6 0
  sip := 0x0a000001
  sip_mask := 24
  dip := 0
  dip_mask := 0
  sport_start := 0
  sport_end := 0xffff
  dport_start := 80
  dport_end := 80
  proto_start := 6
  proto_end := 6
  action := "drop"

theorem delete_undoes_add_webArgs
    : ∃ added deleted, some (request ADD_ACL_RULE 1 webArgs.tuple.toBytes) = some added
        ∧ (cparserCmdDeleteRule 2 webArgs).sent = .ok (some deleted)
        ∧ Undoes added deleted :=
  delete_undoes_add 1 2 webArgs _ rfl

section RuleId

inductive WireCall where
  | add (rule : RCP_BLOCK_ACL_RULE_TUPLE)
  | del (rule : RCP_BLOCK_ACL_RULE_TUPLE)
  | delById (id : RCP_BLOCK_ACL_RULE_ID)
  | delAll

def WireCall.run (rule_list : RuleList) : WireCall → Option (RuleList × Int)
  | add rule => some (ruleAdd rule_list rule)
  | del rule => some (ruleDel rule_list rule)
  | delById id => ruleDelByBlock rule_list id
  | delAll => some (ruleDelAll rule_list)

def runWireCalls (calls : List WireCall) : Option RuleList :=
  calls.foldlM (fun rule_list call => (call.run rule_list).map Prod.fst) ruleListInit

/-- What every id may do. -/
structure DelByIdSafe (rule_list : RuleList) (id : RCP_BLOCK_ACL_RULE_ID) : Prop where
  inside : ruleDelByBlock rule_list id ≠ none
  outside : RULE_ENTRY_MAX ≤ id.rule_id.toNat
    → ruleDelByBlock rule_list id = some (rule_list, RULE_NOT_EXIST)

/-- The id is an index or there is no rule. -/
def IndexOrEmpty (rule_list : RuleList) (id : RCP_BLOCK_ACL_RULE_ID) : Prop :=
  id.rule_id.toNat < RULE_ENTRY_MAX ∨ ∀ i, rule_list.slots i = none

variable {rule_list : RuleList} {id : RCP_BLOCK_ACL_RULE_ID}

theorem ruleDelByBlock_eq_none (h : Consistent rule_list)
    : ruleDelByBlock rule_list id = none ↔ ¬ IndexOrEmpty rule_list id := by
  unfold ruleDelByBlock IndexOrEmpty
  rw [← h.free_eq_max]
  split
  . next hmax =>
    constructor
    . intro hnone
      contradiction
    . intro hnot
      exact absurd (Or.inr hmax.symm) hnot
  next hmax =>
  split
  . next hlt =>
    constructor
    . intro hnone
      contradiction
    . intro hnot
      exact absurd (Or.inl hlt) hnot
  . next hlt =>
    constructor
    . rintro - (h1 | h2)
      . exact hlt h1
      . exact hmax h2.symm
    . intro _
      rfl

theorem delByIdSafe_iff (h : Consistent rule_list)
    : DelByIdSafe rule_list id ↔ IndexOrEmpty rule_list id := by
  constructor
  . intro hsafe
    by_contra hnot
    exact hsafe.inside ((ruleDelByBlock_eq_none h).mpr hnot)
  . intro hindex
    constructor
    . intro hnone
      exact (ruleDelByBlock_eq_none h).mp hnone hindex
    . intro hle
      rcases hindex with hlt | hempty
      . exact absurd hlt (Nat.not_lt.mpr hle)
      . unfold ruleDelByBlock
        rw [if_pos (h.free_eq_max.mpr hempty).symm]

theorem consistent_run {call : WireCall} {res : RuleList × Int} (h : Consistent rule_list)
    (hrun : call.run rule_list = some res) : Consistent res.1 := by
  cases call with
  | add rule =>
    cases hrun
    exact h.run (.add rule)
  | del rule =>
    cases hrun
    exact h.run (.del rule)
  | delById id =>
    unfold WireCall.run ruleDelByBlock at hrun
    dsimp only at hrun
    split at hrun
    . cases hrun
      exact h
    split at hrun
    . cases hrun
      exact h.run (.delById _)
    . contradiction
  | delAll =>
    cases hrun
    exact h.run .delAll

theorem run_ne_none (h : Consistent rule_list) (call : WireCall)
    : call.run rule_list ≠ none ↔ ∀ id, call = .delById id → IndexOrEmpty rule_list id := by
  cases call with
  | delById id =>
    unfold WireCall.run
    rw [ne_eq, ruleDelByBlock_eq_none h, not_not]
    constructor
    . intro hindex id' heq
      cases heq
      exact hindex
    . intro hall
      exact hall id rfl
  | _ => simp [WireCall.run]

/-- Every id of a run is an index or comes when there is no rule. -/
def IndicesOrEmpty (rule_list : RuleList) : List WireCall → Prop
  | [] => True
  | call :: calls =>
    (∀ id, call = .delById id → IndexOrEmpty rule_list id)
      ∧ ∀ res, call.run rule_list = some res → IndicesOrEmpty res.1 calls

theorem foldlM_run (h : Consistent rule_list) (calls : List WireCall)
    : (IndicesOrEmpty rule_list calls
          ↔ ∃ rule_list',
            calls.foldlM (fun rule_list call => (call.run rule_list).map Prod.fst) rule_list
              = some rule_list')
        ∧ ∀ rule_list',
          calls.foldlM (fun rule_list call => (call.run rule_list).map Prod.fst) rule_list
              = some rule_list'
            → Consistent rule_list' := by
  induction calls generalizing rule_list with
  | nil =>
    constructor
    . simp [IndicesOrEmpty]
    . intro rule_list' heq
      cases heq
      exact h
  | cons call calls ih =>
    rw [List.foldlM_cons, IndicesOrEmpty, ← run_ne_none h]
    cases hrun : call.run rule_list with
    | none => simp
    | some res =>
      have hres := ih (consistent_run h hrun)
      simpa using hres

theorem sent_deleteRuleId {g_msg_id id : UInt32} {out : Option Packed}
    (h : (cparserCmdDeleteRuleId g_msg_id id).sent = .ok out)
    : id.toNat ≤ RULE_ENTRY_MAX
      ∧ out = some (request DEL_ACL_RULE_ID g_msg_id (Bytes.bigEndian 4 id.toNat)) := by
  unfold cparserCmdDeleteRuleId at h
  split at h
  . contradiction
  next hid =>
  constructor
  . exact UInt32.not_lt.mp hid
  . have hpack := packCmd_request DEL_ACL_RULE_ID g_msg_id rfl (by decide)
      (by decide) (Bytes.length_bigEndian 4 id.toNat)
    cases h
    exact hpack

theorem cli_outside_iff {g_msg_id id : UInt32} {out : Packed} (h : Consistent rule_list)
    (hsent : (cparserCmdDeleteRuleId g_msg_id id).sent = .ok (some out)) (rest : List UInt8)
    : ruleDelAclRuleId (out.sbuf ++ rest) rule_list = none
        ↔ id.toNat = RULE_ENTRY_MAX ∧ ∃ i, rule_list.slots i ≠ none := by
  rcases sent_deleteRuleId hsent with ⟨hle, hout⟩
  cases hout
  have hblock : ruleDelAclRuleId ((request DEL_ACL_RULE_ID g_msg_id
      (Bytes.bigEndian 4 id.toNat)).sbuf ++ rest) rule_list = none
        ↔ ruleDelByBlock rule_list ⟨id⟩ = none := by
    rw [ruleDelAclRuleId, body_request, ruleId_ofBytes_bigEndian]
    cases ruleDelByBlock rule_list ⟨id⟩ with
    | none => simp
    | some res => simp
  rw [hblock, ruleDelByBlock_eq_none h, IndexOrEmpty, not_or, not_forall, Nat.not_lt]
  constructor
  . rintro ⟨hge, hrule⟩
    exact ⟨Nat.le_antisymm hle hge, hrule⟩
  . rintro ⟨heq, hrule⟩
    exact ⟨heq.ge, hrule⟩

/--
A run stays inside of the rule list exactly when each of its ids is an index or comes when there is no
rule. In every state of such a run the same condition decides about every id that can arrive, and of
the ids that the client lets through only the greatest one fails it.
-/
theorem delById_safe (calls : List WireCall)
    : (IndicesOrEmpty ruleListInit calls ↔ ∃ rule_list, runWireCalls calls = some rule_list)
      ∧ ∀ rule_list, runWireCalls calls = some rule_list
        → (∀ id, DelByIdSafe rule_list id ↔ IndexOrEmpty rule_list id)
          ∧ ∀ g_msg_id id out rest, (cparserCmdDeleteRuleId g_msg_id id).sent = .ok (some out)
            → (ruleDelAclRuleId (out.sbuf ++ rest) rule_list = none
                ↔ id.toNat = RULE_ENTRY_MAX ∧ ∃ i, rule_list.slots i ≠ none) := by
  rcases foldlM_run Consistent.init calls with ⟨hindices, hconsistent⟩
  constructor
  . exact hindices
  . intro rule_list hrun
    have h := hconsistent rule_list hrun
    constructor
    . intro id
      exact delByIdSafe_iff h
    . intro g_msg_id id out rest hsent
      exact cli_outside_iff h hsent rest

theorem exists_used_of_add (h : Consistent rule_list) (hempty : rule_list.slots = fun _ => none)
    (rule : RCP_BLOCK_ACL_RULE_TUPLE) : ∃ i, (ruleAdd rule_list rule).1.slots i ≠ none := by
  have hspec : CallSpec rule_list (.add rule) (ruleAdd rule_list rule) := h.callSpec (.add rule)
  generalize ruleAdd rule_list rule = res at hspec
  cases hspec with
  | addFull hfull =>
    have hfree : rule_list.slots ⟨0, by decide⟩ = none := by rw [hempty]
    exact absurd hfree (hfull _)
  | addExist _ hmem =>
    rw [hempty, Slots.contents_empty] at hmem
    exact absurd hmem (Set.notMem_empty _)
  | @addOk _ _ i _ _ hslots =>
    refine ⟨i, ?_⟩
    simp [hslots]

theorem foldlM_add (h : Consistent rule_list) (hempty : rule_list.slots = fun _ => none)
    (rule : RCP_BLOCK_ACL_RULE_TUPLE)
    : ∃ rule_list',
        [WireCall.add rule].foldlM (fun rule_list call => (call.run rule_list).map Prod.fst) rule_list
            = some rule_list'
          ∧ Consistent rule_list' ∧ ∃ i, rule_list'.slots i ≠ none :=
  ⟨_, rfl, h.run (.add rule), exists_used_of_add h hempty rule⟩

theorem exists_oneRule
    : ∃ rule_list, runWireCalls [.add zeroTuple] = some rule_list ∧ Consistent rule_list
        ∧ ∃ i, rule_list.slots i ≠ none := by
  unfold runWireCalls
  apply foldlM_add Consistent.init slots_ruleListInit

theorem sent_lastId
    : (cparserCmdDeleteRuleId 1 100000).sent
        =
      .ok (some (request DEL_ACL_RULE_ID 1 (Bytes.bigEndian 4 100000))) := by
  have hpack := packCmd_request DEL_ACL_RULE_ID 1 rfl (by decide)
    (by decide) (Bytes.length_bigEndian 4 100000)
  exact congrArg Except.ok hpack

theorem delById_safe_oneRule
    : ∃ rule_list, runWireCalls [.add zeroTuple] = some rule_list
        ∧ (∀ id, DelByIdSafe rule_list id ↔ IndexOrEmpty rule_list id)
        ∧ (ruleDelAclRuleId ((request DEL_ACL_RULE_ID 1 (Bytes.bigEndian 4 100000)).sbuf ++ [])
            rule_list = none
          ↔ (100000 : UInt32).toNat = RULE_ENTRY_MAX ∧ ∃ i, rule_list.slots i ≠ none) := by
  rcases exists_oneRule with ⟨rule_list, hrun, -, -⟩
  have h := (delById_safe [.add zeroTuple]).2 rule_list hrun
  exact ⟨rule_list, hrun, h.1, h.2 1 100000 _ [] sent_lastId⟩

theorem delById_oneRule_outside
    : ∃ rule_list, runWireCalls [.add zeroTuple] = some rule_list
        ∧ (cparserCmdDeleteRuleId 1 100000).sent
          = .ok (some (request DEL_ACL_RULE_ID 1 (Bytes.bigEndian 4 100000)))
        ∧ ruleDelAclRuleId (request DEL_ACL_RULE_ID 1 (Bytes.bigEndian 4 100000)).sbuf rule_list = none
        ∧ ¬ DelByIdSafe rule_list ⟨100000⟩ := by
  rcases exists_oneRule with ⟨rule_list, hrun, hcons, hstored⟩
  have hnone := (cli_outside_iff hcons sent_lastId []).mpr ⟨by decide, hstored⟩
  rw [List.append_nil] at hnone
  refine ⟨rule_list, hrun, sent_lastId, hnone, ?_⟩
  rw [delByIdSafe_iff hcons, IndexOrEmpty, not_or, not_forall]
  exact ⟨by decide, hstored⟩

end RuleId

end SecFw.Client
