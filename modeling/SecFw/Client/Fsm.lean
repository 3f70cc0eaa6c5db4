import SecFw.Client.History
import SecFw.Client.Words

/-!
This module contains the state machine that parses the command line while it is typed. The erase
character undoes the character before it.
-/

namespace SecFw.Client

abbrev CPARSER_MAX_TOKEN_SIZE : Nat := 256

abbrev CPARSER_MAX_NUM_TOKENS : Nat := 32

inductive CparserState where
  | WHITESPACE
  | TOKEN
  | ERROR
  deriving DecidableEq, Repr

structure CparserToken where
  -- `cparser_token_t`, `buf` are its first `token_len` characters
  begin_ptr : Int
  buf : List Char
  parent : Option CparserNode
  node : Option CparserNode

structure CparserCfg where
  -- `cparser_cfg_t` without the functions for input and output
  root : CparserNode
  ch_complete : Char
  ch_erase : Char
  ch_del : Char
  ch_help : Char
  prompt : List Char

def parserConfig (root : CparserNode) : CparserCfg where
  root := root
  ch_complete := '\t'
  ch_erase := '\x08'
  ch_del := '\x7f'
  ch_help := '?'
  prompt := "CLI>".toList

structure ParserFsm where
  cur_node : CparserNode
  state : CparserState
  token_tos : Nat
  current_pos : Nat
  last_good : Int
  tokens : Nat → CparserToken

def nodeUsable (is_privileged_mode : Bool) (node : CparserNode) : Bool :=
  is_privileged_mode || NodeFlag.HIDDEN ∉ node.flags

structure MatchResult where
  num_matches : Nat
  found : Option CparserNode
  is_complete : Bool

def matchAsserts (node : CparserNode) (token : List Char) : Bool :=
  match node.type with
  | .ROOT => false
  | .LIST => !node.paramList.isEmpty
  | .UINT | .UINT64 | .INT | .INT64 | .HEX | .HEX64 | .FLOAT => !token.isEmpty
  | _ => true

def matchChild (is_privileged_mode : Bool) (token : List Char) (r : MatchResult) (child : CparserNode)
    : Option MatchResult :=
  if !nodeUsable is_privileged_mode child then
    some r
  else if !matchAsserts child token then
    none
  else
    match cparserMatchFnTbl child token with
    | none => some r
    | some local_is_complete =>
      let num_matches := r.num_matches + 1
      if r.found.isNone then
        some ⟨num_matches, some child, local_is_complete⟩
      else if !r.is_complete && local_is_complete then
        some ⟨num_matches, some child, local_is_complete⟩
      else
        some { r with num_matches := num_matches }

def cparserMatch (is_privileged_mode : Bool) (token : List Char) (parent : CparserNode) : Option MatchResult := do
  -- `none` when an assertion of a match function fails
  let r ← parent.children.foldlM (matchChild is_privileged_mode token) ⟨0, none, false⟩
  -- `SHORTEST_UNIQUE_KEYWORD`
  if r.num_matches = 1 ∧ r.found.any (·.type == .KEYWORD) then
    some { r with is_complete := true }
  else
    some r

namespace ParserFsm

def curToken (p : ParserFsm) : CparserToken := p.tokens p.token_tos

def setToken (p : ParserFsm) (n : Nat) (token : CparserToken) : ParserFsm :=
  { p with tokens := Function.update p.tokens n token }

end ParserFsm

def blankToken : CparserToken where
  begin_ptr := -1
  buf := []
  parent := none
  node := none

def cparserFsmReset (root : CparserNode) : ParserFsm where
  -- `cparser_fsm_reset` with `cparser_token_stack_reset`
  cur_node := root
  state := .WHITESPACE
  token_tos := 0
  current_pos := 0
  last_good := -1
  tokens := fun _ => blankToken

structure StateResult where
  fsm : ParserFsm
  state : CparserState
  ch_processed : Bool

section States

variable (is_privileged_mode : Bool) (p : ParserFsm) (ch : Char)

def cparserWsErase : StateResult :=
  if p.current_pos > 0 then
    let p := { p with current_pos := p.current_pos - 1 }
    let token := p.tokens (p.token_tos - 1)
    if 0 < p.token_tos ∧ (p.current_pos : Int) ≤ token.begin_ptr + token.buf.length then
      let p := { p with cur_node := token.parent.getD p.cur_node }
      let p := p.setToken (p.token_tos - 1) { token with parent := none }
      let p := p.setToken p.token_tos blankToken
      ⟨{ p with token_tos := p.token_tos - 1 }, .TOKEN, true⟩
    else
      ⟨p, .WHITESPACE, true⟩
  else
    ⟨p, .WHITESPACE, false⟩

def cparserWsSpace : StateResult := ⟨p, .WHITESPACE, true⟩

def cparserWsChar : Option StateResult := do
  let found ← cparserMatch is_privileged_mode [ch] p.cur_node
  if found.num_matches = 0 then
    some ⟨p, .ERROR, true⟩
  else
    let token := p.curToken
    some ⟨p.setToken p.token_tos { token with begin_ptr := p.current_pos, buf := token.buf ++ [ch] }, .TOKEN, true⟩

def cparserTokErase : StateResult :=
  let token := p.curToken
  let token := { token with buf := token.buf.dropLast }
  let p := { p with current_pos := p.current_pos - 1 }
  if token.buf = [] then
    ⟨p.setToken p.token_tos { token with begin_ptr := -1 }, .WHITESPACE, true⟩
  else
    ⟨p.setToken p.token_tos token, .TOKEN, true⟩

def cparserTokSpace : Option StateResult := do
  -- `none` when an assertion fails
  let token := p.curToken
  let found ← cparserMatch is_privileged_mode token.buf p.cur_node
  if 1 ≤ found.num_matches ∧ found.is_complete then
    let p := p.setToken p.token_tos { token with parent := some p.cur_node, node := found.found }
    let p := { p with token_tos := p.token_tos + 1 }
    let token := p.curToken
    if p.token_tos < CPARSER_MAX_NUM_TOKENS ∧ token.begin_ptr = -1 ∧ token.buf = [] ∧ token.parent.isNone then
      some ⟨{ p with cur_node := found.found.getD p.cur_node }, .WHITESPACE, true⟩
    else
      none
  else
    some ⟨p, .ERROR, true⟩

def cparserTokChar : Option StateResult := do
  let token := p.curToken
  if token.buf.length < CPARSER_MAX_TOKEN_SIZE then
    let found ← cparserMatch is_privileged_mode (token.buf ++ [ch]) p.cur_node
    if found.num_matches = 0 then
      some ⟨p.setToken p.token_tos { token with buf := (token.buf ++ [ch]).dropLast }, .ERROR, true⟩
    else
      some ⟨p.setToken p.token_tos { token with buf := token.buf ++ [ch] }, .TOKEN, true⟩
  else
    some ⟨p, .ERROR, true⟩

def cparserErrErase : Option StateResult :=
  -- `none` when its assertion fails
  if p.current_pos = 0 then
    none
  else
    let p := { p with current_pos := p.current_pos - 1 }
    if p.last_good + 1 = (p.current_pos : Int) then
      let token := p.curToken
      if (p.current_pos : Int) ≤ token.begin_ptr + token.buf.length then
        some ⟨p, .TOKEN, true⟩
      else
        some ⟨p, .WHITESPACE, true⟩
    else
      some ⟨p, .ERROR, true⟩

def cparserErrSpace : StateResult := ⟨p, .ERROR, true⟩

def cparserErrChar : StateResult := ⟨p, .ERROR, true⟩

end States

inductive InputType where
  | erase
  | space
  | char
  deriving DecidableEq

def cparserStateFuncTbl (is_privileged_mode : Bool) (p : ParserFsm) (ch : Char) : InputType → Option StateResult
  | .erase =>
    match p.state with
    | .WHITESPACE => some (cparserWsErase p)
    | .TOKEN => some (cparserTokErase p)
    | .ERROR => cparserErrErase p
  | .space =>
    match p.state with
    | .WHITESPACE => some (cparserWsSpace p)
    | .TOKEN => cparserTokSpace is_privileged_mode p
    | .ERROR => some (cparserErrSpace p)
  | .char =>
    match p.state with
    | .WHITESPACE => cparserWsChar is_privileged_mode p ch
    | .TOKEN => cparserTokChar is_privileged_mode p ch
    | .ERROR => some (cparserErrChar p)

def Erases (cfg : CparserCfg) (ch : Char) : Prop := cfg.ch_erase = ch ∨ cfg.ch_del = ch

instance (cfg : CparserCfg) (ch : Char) : Decidable (Erases cfg ch) := inferInstanceAs (Decidable (_ ∨ _))

def inputType (cfg : CparserCfg) (ch : Char) : InputType :=
  if Erases cfg ch then .erase else if ch = ' ' then .space else .char

abbrev BEL : Char := '\x07'

def StateResult.finish (r : StateResult) (type : InputType) : ParserFsm :=
  let p := { r.fsm with state := r.state }
  if r.ch_processed then
    let p := if type ≠ .erase then { p with current_pos := p.current_pos + 1 } else p
    if p.state ≠ .ERROR then { p with last_good := p.current_pos - 1 } else p
  else
    p

def cparserFsmInput (cfg : CparserCfg) (is_privileged_mode : Bool) (p : ParserFsm) (ch : Char)
    : Option (ParserFsm × List Char) :=
  -- `cparser_fsm_input` without `CPARSER_FLAGS_DEBUG`, with what it prints, `none` when an
  -- assertion fails
  let type := inputType cfg ch
  if type = .erase ∧ p.current_pos = 0 then
    none
  else if type ≠ .erase ∧ p.current_pos ≥ CPARSER_MAX_LINE_SIZE - 1 then
    some (p, [BEL])
  else
    (cparserStateFuncTbl is_privileged_mode p ch type).map fun r => (r.finish type, [])

def inputFsm (cfg : CparserCfg) (is_privileged_mode : Bool) (p : ParserFsm) (ch : Char) : Option ParserFsm :=
  (cparserFsmInput cfg is_privileged_mode p ch).map Prod.fst

def feed (cfg : CparserCfg) (is_privileged_mode : Bool) (p : ParserFsm) (text : List Char) : Option ParserFsm :=
  text.foldlM (inputFsm cfg is_privileged_mode) p

section Input

variable {cfg : CparserCfg} {priv : Bool} {p q : ParserFsm} {ch : Char} {text : List Char}
  {token parent : CparserToken} {n : Nat}

def CparserToken.end_ptr (token : CparserToken) : Int := token.begin_ptr + token.buf.length

structure FsmInv (p : ParserFsm) : Prop where
  above : ∀ n, p.token_tos < n → p.tokens n = blankToken
  below : p.state = .WHITESPACE → 0 < p.token_tos → (p.tokens (p.token_tos - 1)).end_ptr < p.current_pos
  whitespace : p.state = .WHITESPACE → p.curToken = blankToken
  token_end : p.state = .TOKEN → p.curToken.end_ptr = p.current_pos
  token_open : p.state = .TOKEN → p.curToken.parent = none ∧ p.curToken.node = none ∧ p.curToken.buf ≠ []
  good : p.state ≠ .ERROR → p.last_good = p.current_pos - 1
  error : p.state = .ERROR → p.last_good + 1 < p.current_pos

@[simp]
theorem setToken_curToken (p : ParserFsm) (token : CparserToken)
    : (p.setToken p.token_tos token).curToken = token := by
  simp [ParserFsm.setToken, ParserFsm.curToken]

theorem fsmInv_reset (root : CparserNode) : FsmInv (cparserFsmReset root) := by
  constructor
  case above => exact fun n _ => rfl
  case below => exact fun _ h => absurd h (Nat.lt_irrefl 0)
  case whitespace => exact fun _ => rfl
  case token_end => exact nofun
  case token_open => exact nofun
  case good => exact fun _ => rfl
  case error => exact nofun

def ParserFsm.mask (p : ParserFsm) : ParserFsm :=
  p.setToken p.token_tos { p.curToken with node := none }

def StateResult.mask (r : StateResult) : StateResult := { r with fsm := r.fsm.mask }

@[simp]
theorem mask_curToken (p : ParserFsm) : p.mask.curToken = { p.curToken with node := none } := by
  simp [ParserFsm.mask, ParserFsm.setToken, ParserFsm.curToken]

@[simp]
theorem mask_mask (p : ParserFsm) : p.mask.mask = p.mask := by
  simp [ParserFsm.mask, ParserFsm.setToken, ParserFsm.curToken]

theorem mask_finish (r : StateResult) (type : InputType) : (r.finish type).mask = r.mask.finish type := by
  unfold StateResult.finish StateResult.mask
  dsimp only
  split
  . split
    . split
      . rfl
      . rfl
    . split
      . rfl
      . rfl
  . rfl

theorem mask_cparserWsErase : (cparserWsErase p.mask).mask = (cparserWsErase p).mask := by
  unfold cparserWsErase
  by_cases hpos : p.current_pos > 0
  . by_cases htos : 0 < p.token_tos
    . have hne : p.token_tos - 1 ≠ p.token_tos := by omega
      by_cases hend : (p.current_pos : Int)
          ≤ (p.tokens (p.token_tos - 1)).begin_ptr + (p.tokens (p.token_tos - 1)).buf.length + 1
      . have hcomm (a b : CparserToken) : Function.update (Function.update p.tokens p.token_tos a) (p.token_tos - 1) b
            = Function.update (Function.update p.tokens (p.token_tos - 1) b) p.token_tos a :=
          Function.update_comm hne.symm _ _ _
        simp [StateResult.mask, ParserFsm.mask, ParserFsm.setToken, ParserFsm.curToken, hpos, htos, hend, hne, hcomm]
      . simp [StateResult.mask, ParserFsm.mask, ParserFsm.setToken, ParserFsm.curToken, hpos, htos, hend, hne]
    . simp [StateResult.mask, ParserFsm.mask, ParserFsm.setToken, ParserFsm.curToken, hpos, htos]
  . simp [StateResult.mask, ParserFsm.mask, ParserFsm.setToken, ParserFsm.curToken, hpos]

theorem mask_cparserWsChar
    : (cparserWsChar priv p.mask ch).map StateResult.mask = (cparserWsChar priv p ch).map StateResult.mask := by
  have hcur : p.mask.cur_node = p.cur_node := rfl
  unfold cparserWsChar
  rw [hcur]
  cases cparserMatch priv [ch] p.cur_node with
  | none => rfl
  | some found =>
    by_cases h : found.num_matches = 0
    . simp [StateResult.mask, ParserFsm.mask, ParserFsm.setToken, ParserFsm.curToken, h]
    . simp [StateResult.mask, ParserFsm.mask, ParserFsm.setToken, ParserFsm.curToken, h]

theorem mask_cparserTokErase : (cparserTokErase p.mask).mask = (cparserTokErase p).mask := by
  unfold cparserTokErase
  by_cases h : (p.tokens p.token_tos).buf.dropLast = []
  . simp [StateResult.mask, ParserFsm.mask, ParserFsm.setToken, ParserFsm.curToken, h]
  . simp [StateResult.mask, ParserFsm.mask, ParserFsm.setToken, ParserFsm.curToken, h]

theorem mask_cparserTokSpace
    : (cparserTokSpace priv p.mask).map StateResult.mask = (cparserTokSpace priv p).map StateResult.mask := by
  have hcur : p.mask.cur_node = p.cur_node := rfl
  have hbuf : p.mask.curToken.buf = p.curToken.buf := by rw [mask_curToken]
  unfold cparserTokSpace
  dsimp only
  rw [hcur, hbuf]
  cases cparserMatch priv p.curToken.buf p.cur_node with
  | none => rfl
  | some found =>
    by_cases h : 1 ≤ found.num_matches ∧ found.is_complete
    . simp [StateResult.mask, ParserFsm.mask, ParserFsm.setToken, ParserFsm.curToken, h]
    . simp [StateResult.mask, ParserFsm.mask, ParserFsm.setToken, ParserFsm.curToken, h]

theorem mask_cparserTokChar
    : (cparserTokChar priv p.mask ch).map StateResult.mask = (cparserTokChar priv p ch).map StateResult.mask := by
  have hcur : p.mask.cur_node = p.cur_node := rfl
  have hbuf : p.mask.curToken.buf = p.curToken.buf := by rw [mask_curToken]
  unfold cparserTokChar
  dsimp only
  rw [hcur, hbuf]
  by_cases hlen : p.curToken.buf.length < CPARSER_MAX_TOKEN_SIZE
  . rw [if_pos hlen, if_pos hlen]
    cases cparserMatch priv (p.curToken.buf ++ [ch]) p.cur_node with
    | none => rfl
    | some found =>
      by_cases h : found.num_matches = 0
      . simp [StateResult.mask, ParserFsm.mask, ParserFsm.setToken, ParserFsm.curToken, h]
      . simp [StateResult.mask, ParserFsm.mask, ParserFsm.setToken, ParserFsm.curToken, h]
  . rw [if_neg hlen, if_neg hlen]
    simp [StateResult.mask, ParserFsm.mask, ParserFsm.setToken, ParserFsm.curToken]

theorem mask_cparserErrErase
    : (cparserErrErase p.mask).map StateResult.mask = (cparserErrErase p).map StateResult.mask := by
  unfold cparserErrErase
  by_cases hpos : p.current_pos = 0
  . simp [ParserFsm.mask, ParserFsm.setToken, hpos]
  . by_cases hgood : p.last_good + 1 = ((p.current_pos - 1 : Nat) : Int)
    . by_cases hend : ((p.current_pos - 1 : Nat) : Int)
          ≤ (p.tokens p.token_tos).begin_ptr + (p.tokens p.token_tos).buf.length
      . simp [StateResult.mask, ParserFsm.mask, ParserFsm.setToken, ParserFsm.curToken, hpos, hgood, hend]
      . simp [StateResult.mask, ParserFsm.mask, ParserFsm.setToken, ParserFsm.curToken, hpos, hgood, hend]
    . simp [StateResult.mask, ParserFsm.mask, ParserFsm.setToken, ParserFsm.curToken, hpos, hgood]

theorem mask_stateFuncTbl (type : InputType)
    : (cparserStateFuncTbl priv p.mask ch type).map StateResult.mask
        =
      (cparserStateFuncTbl priv p ch type).map StateResult.mask := by
  have hstate : p.mask.state = p.state := rfl
  unfold cparserStateFuncTbl
  rw [hstate]
  cases type with
  | erase =>
    cases p.state with
    | WHITESPACE => exact congrArg some mask_cparserWsErase
    | TOKEN => exact congrArg some mask_cparserTokErase
    | ERROR => exact mask_cparserErrErase
  | space =>
    cases p.state with
    | WHITESPACE => exact congrArg (fun p => some (StateResult.mk p .WHITESPACE true)) (mask_mask p)
    | TOKEN => exact mask_cparserTokSpace
    | ERROR => exact congrArg (fun p => some (StateResult.mk p .ERROR true)) (mask_mask p)
  | char =>
    cases p.state with
    | WHITESPACE => exact mask_cparserWsChar
    | TOKEN => exact mask_cparserTokChar
    | ERROR => exact congrArg (fun p => some (StateResult.mk p .ERROR true)) (mask_mask p)

theorem inputFsm_eq (herase : inputType cfg ch = .erase → p.current_pos ≠ 0)
    (hroom : inputType cfg ch ≠ .erase → p.current_pos < CPARSER_MAX_LINE_SIZE - 1)
    : inputFsm cfg priv p ch
        =
      (cparserStateFuncTbl priv p ch (inputType cfg ch)).map (·.finish (inputType cfg ch)) := by
  unfold inputFsm cparserFsmInput
  dsimp only
  rw [if_neg (fun h => herase h.1 h.2), if_neg (fun h => Nat.not_le.mpr (hroom h.1) h.2), Option.map_map]
  rfl

theorem inputFsm_erase_empty (herase : inputType cfg ch = .erase) (hpos : p.current_pos = 0)
    : inputFsm cfg priv p ch = none := by
  unfold inputFsm cparserFsmInput
  dsimp only
  rw [if_pos ⟨herase, hpos⟩]
  rfl

theorem inputFsm_full (htype : inputType cfg ch ≠ .erase) (hfull : CPARSER_MAX_LINE_SIZE - 1 ≤ p.current_pos)
    : inputFsm cfg priv p ch = some p := by
  unfold inputFsm cparserFsmInput
  dsimp only
  rw [if_neg (fun h => htype h.1), if_pos ⟨htype, hfull⟩]
  rfl

theorem mask_input
    : (inputFsm cfg priv p.mask ch).map ParserFsm.mask = (inputFsm cfg priv p ch).map ParserFsm.mask := by
  have hpos : p.mask.current_pos = p.current_pos := rfl
  by_cases htype : inputType cfg ch = .erase
  . by_cases hzero : p.current_pos = 0
    . rw [inputFsm_erase_empty htype hzero, inputFsm_erase_empty htype (hpos.trans hzero)]
    . rw [inputFsm_eq (fun _ => hzero) (absurd htype), inputFsm_eq (fun _ => hpos ▸ hzero) (absurd htype)]
      simpa [Function.comp_def, mask_finish]
        using congrArg (Option.map (·.finish (inputType cfg ch))) (mask_stateFuncTbl (inputType cfg ch))
  . by_cases hfull : CPARSER_MAX_LINE_SIZE - 1 ≤ p.current_pos
    . rw [inputFsm_full htype hfull, inputFsm_full htype (hpos ▸ hfull)]
      exact congrArg some (mask_mask p)
    . rw [inputFsm_eq (absurd · htype) (fun _ => Nat.lt_of_not_le hfull),
        inputFsm_eq (absurd · htype) (fun _ => Nat.lt_of_not_le (hpos ▸ hfull))]
      simpa [Function.comp_def, mask_finish]
        using congrArg (Option.map (·.finish (inputType cfg ch))) (mask_stateFuncTbl (inputType cfg ch))

theorem mask_input_congr (h : p.mask = q.mask)
    : (inputFsm cfg priv p ch).map ParserFsm.mask = (inputFsm cfg priv q ch).map ParserFsm.mask := by
  rw [← mask_input, h, mask_input]

theorem input_of_room (h : ¬Erases cfg ch) (hroom : p.current_pos < CPARSER_MAX_LINE_SIZE - 1)
    : inputFsm cfg priv p ch
        =
      (cparserStateFuncTbl priv p ch (inputType cfg ch)).map (·.finish (inputType cfg ch)) := by
  apply inputFsm_eq
  . intro htype
    unfold inputType at htype
    rw [if_neg h] at htype
    split at htype
    . contradiction
    . contradiction
  . exact fun _ => hroom

theorem input_of_erases {e : Char} (h : Erases cfg e) (hpos : p.current_pos ≠ 0)
    : inputFsm cfg priv p e = (cparserStateFuncTbl priv p e .erase).map (·.finish .erase) := by
  have htype : inputType cfg e = .erase := if_pos h
  rw [inputFsm_eq (fun _ => hpos) (absurd htype), htype]

end Input

section Match

variable {priv : Bool} {token : List Char} {parent child m : CparserNode} {r : MatchResult}
  {children : List CparserNode}

def candidates (priv : Bool) (token : List Char) (children : List CparserNode)
    : List (CparserNode × Bool) :=
  children.filterMap fun child =>
    if nodeUsable priv child then (cparserMatchFnTbl child token).map (child, ·) else none

def best (cands : List (CparserNode × Bool)) : Option CparserNode :=
  ((cands.find? (·.2)).or cands.head?).map Prod.fst

def soleKeyword : List (CparserNode × Bool) → Option (CparserNode × Bool)
  | [cand] => if cand.1.type == .KEYWORD then some cand else none
  | _ => none

theorem candidates_cons
    : candidates priv token (child :: children)
        =
      match (if nodeUsable priv child then cparserMatchFnTbl child token else none) with
      | none => candidates priv token children
      | some is_complete => (child, is_complete) :: candidates priv token children := by
  unfold candidates
  rw [List.filterMap_cons]
  by_cases husable : nodeUsable priv child
  . cases hmatch : cparserMatchFnTbl child token with
    | none => simp [husable]
    | some is_complete => simp [husable]
  . simp [husable]

def Matchable (priv : Bool) (token : List Char) (children : List CparserNode) : Prop :=
  ∀ child ∈ children, nodeUsable priv child = true → matchAsserts child token = true

theorem matchChild_eq (h : nodeUsable priv child = true → matchAsserts child token = true)
    : matchChild priv token r child
        =
      match (if nodeUsable priv child then cparserMatchFnTbl child token else none) with
      | none => some r
      | some is_complete =>
        if r.found.isNone ∨ (!r.is_complete && is_complete) then
          some ⟨r.num_matches + 1, some child, is_complete⟩
        else
          some { r with num_matches := r.num_matches + 1 } := by
  unfold matchChild
  by_cases husable : nodeUsable priv child
  . have hasserts := h husable
    cases hmatch : cparserMatchFnTbl child token with
    | none => simp [husable, hasserts]
    | some is_complete =>
      by_cases hfound : r.found.isNone
      . simp [husable, hasserts, hfound]
      . simp [husable, hasserts, hfound]
  . simp [husable]

theorem foldlM_matchChild_complete {k : Nat} (h : Matchable priv token children)
    : children.foldlM (matchChild priv token) ⟨k, some m, true⟩
        =
      some ⟨k + (candidates priv token children).length, some m, true⟩ := by
  induction children generalizing k with
  | nil => rfl
  | cons child children ih =>
    rcases List.forall_mem_cons.mp h with ⟨hchild, hchildren⟩
    rw [List.foldlM_cons, matchChild_eq hchild, candidates_cons]
    cases (if nodeUsable priv child then cparserMatchFnTbl child token else none) with
    | none => exact ih hchildren
    | some is_complete =>
      dsimp only
      rw [if_neg (by simp), Option.bind_eq_bind, Option.bind_some, ih hchildren, List.length_cons, Nat.add_assoc,
        Nat.add_comm 1]

theorem foldlM_matchChild_partial {k : Nat} (h : Matchable priv token children)
    : children.foldlM (matchChild priv token) ⟨k, some m, false⟩
        =
      some ⟨k + (candidates priv token children).length, best ((m, false) :: candidates priv token children),
        (candidates priv token children).any (·.2)⟩ := by
  induction children generalizing k with
  | nil => rfl
  | cons child children ih =>
    rcases List.forall_mem_cons.mp h with ⟨hchild, hchildren⟩
    rw [List.foldlM_cons, matchChild_eq hchild, candidates_cons]
    cases (if nodeUsable priv child then cparserMatchFnTbl child token else none) with
    | none => exact ih hchildren
    | some is_complete =>
      cases is_complete with
      | true =>
        dsimp only
        rw [if_pos (by simp), Option.bind_eq_bind, Option.bind_some, foldlM_matchChild_complete hchildren,
          List.length_cons, Nat.add_assoc, Nat.add_comm 1]
        simp [best]
      | false =>
        dsimp only
        rw [if_neg (by simp), Option.bind_eq_bind, Option.bind_some, ih hchildren, List.length_cons, Nat.add_assoc,
          Nat.add_comm 1]
        simp [best]

theorem foldlM_matchChild (h : Matchable priv token children)
    : children.foldlM (matchChild priv token) ⟨0, none, false⟩
        =
      some ⟨(candidates priv token children).length, best (candidates priv token children),
        (candidates priv token children).any (·.2)⟩ := by
  induction children with
  | nil => rfl
  | cons child children ih =>
    rcases List.forall_mem_cons.mp h with ⟨hchild, hchildren⟩
    rw [List.foldlM_cons, matchChild_eq hchild, candidates_cons]
    cases (if nodeUsable priv child then cparserMatchFnTbl child token else none) with
    | none => exact ih hchildren
    | some is_complete =>
      cases is_complete with
      | true =>
        dsimp only
        rw [if_pos (by simp), Option.bind_eq_bind, Option.bind_some, foldlM_matchChild_complete hchildren,
          List.length_cons, Nat.add_comm]
        simp [best]
      | false =>
        dsimp only
        rw [if_pos (by simp), Option.bind_eq_bind, Option.bind_some, foldlM_matchChild_partial hchildren,
          List.length_cons, Nat.add_comm]
        simp [best]

theorem matchable_of_foldlM {r' : MatchResult} (h : children.foldlM (matchChild priv token) r = some r')
    : Matchable priv token children := by
  induction children generalizing r with
  | nil => exact fun _ hmem => absurd hmem List.not_mem_nil
  | cons child children ih =>
    rw [List.foldlM_cons] at h
    rcases Option.bind_eq_some_iff.mp h with ⟨q, hq, hrest⟩
    refine List.forall_mem_cons.mpr ⟨fun husable => ?_, ih hrest⟩
    by_contra hasserts
    unfold matchChild at hq
    simp [husable, hasserts] at hq

theorem best_singleton (cand : CparserNode × Bool) : best [cand] = some cand.1 := by
  cases hcomplete : cand.2 with
  | true => simp [best, hcomplete]
  | false => simp [best, hcomplete]

def matchResult (priv : Bool) (token : List Char) (parent : CparserNode) : MatchResult :=
  let cands := candidates priv token parent.children
  ⟨cands.length, best cands, cands.any (·.2) || (soleKeyword cands).isSome⟩

theorem cparserMatch_eq (h : Matchable priv token parent.children)
    : cparserMatch priv token parent = some (matchResult priv token parent) := by
  unfold cparserMatch matchResult
  rw [foldlM_matchChild h, Option.bind_eq_bind, Option.bind_some]
  dsimp only
  rcases candidates priv token parent.children with _ | ⟨cand, _ | ⟨second, rest⟩⟩
  . rfl
  . rw [best_singleton]
    by_cases hkeyword : cand.1.type = .KEYWORD
    . simp [soleKeyword, hkeyword]
    . simp [soleKeyword, hkeyword]
  . simp [soleKeyword]

theorem cparserMatch_of_not (h : ¬Matchable priv token parent.children) : cparserMatch priv token parent = none := by
  rw [cparserMatch, Option.bind_eq_bind, Option.bind_eq_none_iff]
  exact fun r hr => absurd (matchable_of_foldlM hr) h

theorem cparserMatch_eq_some {r : MatchResult} (h : cparserMatch priv token parent = some r)
    : r = matchResult priv token parent := by
  by_cases hmatchable : Matchable priv token parent.children
  . rw [cparserMatch_eq hmatchable] at h
    exact (Option.some.inj h).symm
  . rw [cparserMatch_of_not hmatchable] at h
    contradiction

end Match

section Steps

variable {cfg : CparserCfg} {priv : Bool} {p : ParserFsm} {ch : Char}

def wordChild (priv : Bool) (parent : CparserNode) (word : List Char) : Option CparserNode :=
  let cands := candidates priv word parent.children
  ((cands.find? (·.2)).or (soleKeyword cands)).map Prod.fst

def Viable (priv : Bool) (parent : CparserNode) (word : List Char) : Prop :=
  candidates priv word parent.children ≠ []

theorem viable_iff {word : List Char} {parent : CparserNode}
    : Viable priv parent word ↔ (matchResult priv word parent).num_matches ≠ 0 :=
  List.length_eq_zero_iff.not.symm

theorem mem_of_soleKeyword {cands : List (CparserNode × Bool)} {cand : CparserNode × Bool}
    (h : soleKeyword cands = some cand) : cands = [cand] ∧ cand.1.type = .KEYWORD := by
  unfold soleKeyword at h
  split at h
  . next only =>
    split at h
    . next htype =>
      cases h
      exact ⟨rfl, eq_of_beq htype⟩
    . contradiction
  . contradiction

theorem wordChild_eq (parent : CparserNode) (word : List Char)
    : wordChild priv parent word
        =
      if (matchResult priv word parent).is_complete then (matchResult priv word parent).found else none := by
  have hcomplete : (matchResult priv word parent).is_complete
      = ((candidates priv word parent.children).any (·.2)
        || (soleKeyword (candidates priv word parent.children)).isSome) := rfl
  have hfound : (matchResult priv word parent).found = best (candidates priv word parent.children) := rfl
  rw [hcomplete, hfound]
  unfold wordChild best
  dsimp only
  cases hfind : (candidates priv word parent.children).find? (·.2) with
  | some cand =>
    have hany : (candidates priv word parent.children).any (·.2) = true :=
      List.any_eq_true.mpr ⟨cand, List.mem_of_find?_eq_some hfind, List.find?_some hfind⟩
    rw [hany, Bool.true_or, if_pos rfl]
    rfl
  | none =>
    have hany : (candidates priv word parent.children).any (·.2) = false := by
      rw [List.any_eq_false]
      exact fun cand hmem => List.find?_eq_none.mp hfind cand hmem
    rw [hany, Bool.false_or]
    cases hsole : soleKeyword (candidates priv word parent.children) with
    | none => rfl
    | some cand =>
      rw [(mem_of_soleKeyword hsole).1]
      rfl

theorem closes_iff {word : List Char} {parent : CparserNode}
    : (1 ≤ (matchResult priv word parent).num_matches ∧ (matchResult priv word parent).is_complete = true)
        ↔
      (wordChild priv parent word).isSome := by
  unfold wordChild matchResult
  dsimp only
  rw [Option.isSome_map, Option.isSome_or, Bool.or_eq_true, Bool.or_eq_true, List.find?_isSome, List.any_eq_true,
    Nat.one_le_iff_ne_zero, ne_eq, List.length_eq_zero_iff]
  constructor
  . exact And.right
  . rintro (⟨cand, hmem, hcomplete⟩ | hsole)
    . exact ⟨List.ne_nil_of_mem hmem, .inl ⟨cand, hmem, hcomplete⟩⟩
    . refine ⟨fun hnil => ?_, .inr hsole⟩
      rw [hnil] at hsole
      contradiction

inductive Rejects (priv : Bool) (p : ParserFsm) (ch : Char) : Prop where
  | begins (hstate : p.state = .WHITESPACE) (hch : ch ≠ ' ') (hmatch : ¬Viable priv p.cur_node [ch])
  | closes (hstate : p.state = .TOKEN) (hch : ch = ' ')
    (hword : wordChild priv p.cur_node p.curToken.buf = none)
  | full (hstate : p.state = .TOKEN) (hch : ch ≠ ' ')
    (hlen : CPARSER_MAX_TOKEN_SIZE ≤ p.curToken.buf.length)
  | continues (hstate : p.state = .TOKEN) (hch : ch ≠ ' ')
    (hmatch : ¬Viable priv p.cur_node (p.curToken.buf ++ [ch]))
  | rejected (hstate : p.state = .ERROR)

inductive Fed (priv : Bool) (p : ParserFsm) (ch : Char) : ParserFsm → Prop where
  | space (hstate : p.state = .WHITESPACE) (hch : ch = ' ') :
    Fed priv p ch { p with current_pos := p.current_pos + 1, last_good := p.current_pos }
  | begins (hstate : p.state = .WHITESPACE) (hch : ch ≠ ' ') (hmatch : Viable priv p.cur_node [ch]) :
    Fed priv p ch
      { p.setToken p.token_tos
          { p.curToken with begin_ptr := p.current_pos, buf := p.curToken.buf ++ [ch] } with
        state := .TOKEN
        current_pos := p.current_pos + 1
        last_good := p.current_pos }
  | continues (hstate : p.state = .TOKEN) (hch : ch ≠ ' ')
    (hlen : p.curToken.buf.length < CPARSER_MAX_TOKEN_SIZE)
    (hmatch : Viable priv p.cur_node (p.curToken.buf ++ [ch])) :
    Fed priv p ch
      { p.setToken p.token_tos { p.curToken with buf := p.curToken.buf ++ [ch] } with
        current_pos := p.current_pos + 1
        last_good := p.current_pos }
  | closes (m : CparserNode) (hstate : p.state = .TOKEN) (hch : ch = ' ')
    (hword : wordChild priv p.cur_node p.curToken.buf = some m)
    (htos : p.token_tos + 1 < CPARSER_MAX_NUM_TOKENS) :
    Fed priv p ch
      { p.setToken p.token_tos { p.curToken with parent := some p.cur_node, node := some m } with
        cur_node := m
        state := .WHITESPACE
        token_tos := p.token_tos + 1
        current_pos := p.current_pos + 1
        last_good := p.current_pos }
  | rejects (hrejects : Rejects priv p ch) :
    Fed priv p ch { p with state := .ERROR, current_pos := p.current_pos + 1 }

inductive Fails (priv : Bool) (p : ParserFsm) (ch : Char) : Prop where
  | begins (hstate : p.state = .WHITESPACE) (hch : ch ≠ ' ') (hmatch : ¬Matchable priv [ch] p.cur_node.children)
  | continues (hstate : p.state = .TOKEN) (hch : ch ≠ ' ') (hlen : p.curToken.buf.length < CPARSER_MAX_TOKEN_SIZE)
    (hmatch : ¬Matchable priv (p.curToken.buf ++ [ch]) p.cur_node.children)
  | closes (hstate : p.state = .TOKEN) (hch : ch = ' ')
    (hmatch : ¬Matchable priv p.curToken.buf p.cur_node.children)
  | overflows (hstate : p.state = .TOKEN) (hch : ch = ' ')
    (hword : (wordChild priv p.cur_node p.curToken.buf).isSome) (hfull : CPARSER_MAX_NUM_TOKENS ≤ p.token_tos + 1)

theorem cparserTokSpace_eq {m : CparserNode} (hinv : FsmInv p)
    (hmatch : Matchable priv p.curToken.buf p.cur_node.children)
    (hword : wordChild priv p.cur_node p.curToken.buf = some m)
    : cparserTokSpace priv p
        =
      if p.token_tos + 1 < CPARSER_MAX_NUM_TOKENS then
        some ⟨{ p.setToken p.token_tos { p.curToken with parent := some p.cur_node, node := some m } with
          token_tos := p.token_tos + 1, cur_node := m }, .WHITESPACE, true⟩
      else
        none := by
  have hcloses := closes_iff.mpr (Option.isSome_iff_exists.mpr ⟨m, hword⟩)
  have hfound : (matchResult priv p.curToken.buf p.cur_node).found = some m := by
    rw [← hword, wordChild_eq, if_pos hcloses.2]
  have habove := hinv.above (p.token_tos + 1) (Nat.lt_succ_self _)
  unfold cparserTokSpace
  dsimp only
  rw [cparserMatch_eq hmatch, Option.bind_eq_bind, Option.bind_some, if_pos hcloses, hfound]
  by_cases htos : p.token_tos + 1 < CPARSER_MAX_NUM_TOKENS
  . rw [if_pos htos, if_pos]
    . rfl
    . simpa [ParserFsm.curToken, ParserFsm.setToken, habove, blankToken] using htos
  . rw [if_neg htos, if_neg (fun h => htos h.1)]

theorem fed_or_fails (priv : Bool) (hinv : FsmInv p) (h : ¬Erases cfg ch) (hroom : p.current_pos < CPARSER_MAX_LINE_SIZE - 1)
    : (∃ p', inputFsm cfg priv p ch = some p' ∧ Fed priv p ch p')
        ∨
      inputFsm cfg priv p ch = none ∧ Fails priv p ch := by
  rw [input_of_room h hroom]
  unfold inputType cparserStateFuncTbl
  rw [if_neg h]
  cases hstate : p.state with
  | WHITESPACE =>
    by_cases hch : ch = ' '
    . rw [if_pos hch]
      refine .inl ⟨_, rfl, ?_⟩
      convert Fed.space hstate hch using 1
      simp [cparserWsSpace, StateResult.finish, hstate]
    . rw [if_neg hch]
      dsimp only
      unfold cparserWsChar
      by_cases hasserts : Matchable priv [ch] p.cur_node.children
      . rw [cparserMatch_eq hasserts, Option.bind_eq_bind, Option.bind_some]
        by_cases hmatch : Viable priv p.cur_node [ch]
        . rw [if_neg (viable_iff.mp hmatch)]
          refine .inl ⟨_, rfl, ?_⟩
          convert Fed.begins hstate hch hmatch using 1
          simp [StateResult.finish, ParserFsm.setToken]
        . rw [if_pos (by rwa [viable_iff, not_not] at hmatch)]
          exact .inl ⟨_, rfl, Fed.rejects (.begins hstate hch hmatch)⟩
      . rw [cparserMatch_of_not hasserts]
        exact .inr ⟨rfl, .begins hstate hch hasserts⟩
  | TOKEN =>
    by_cases hch : ch = ' '
    . rw [if_pos hch]
      dsimp only
      by_cases hasserts : Matchable priv p.curToken.buf p.cur_node.children
      . cases hword : wordChild priv p.cur_node p.curToken.buf with
        | some m =>
          rw [cparserTokSpace_eq hinv hasserts hword]
          split
          . next htos =>
            refine .inl ⟨_, rfl, ?_⟩
            convert Fed.closes m hstate hch hword htos using 1
            simp [StateResult.finish, ParserFsm.setToken]
          . next htos => exact .inr ⟨rfl, .overflows hstate hch (by rw [hword]; rfl) (Nat.le_of_not_lt htos)⟩
        | none =>
          have hopen : ¬_ := closes_iff.not.mpr (by rw [hword]; nofun)
          unfold cparserTokSpace
          dsimp only
          rw [cparserMatch_eq hasserts, Option.bind_eq_bind, Option.bind_some, if_neg hopen]
          exact .inl ⟨_, rfl, Fed.rejects (.closes hstate hch hword)⟩
      . unfold cparserTokSpace
        dsimp only
        rw [cparserMatch_of_not hasserts]
        exact .inr ⟨rfl, .closes hstate hch hasserts⟩
    . rw [if_neg hch]
      dsimp only
      unfold cparserTokChar
      dsimp only
      by_cases hlen : p.curToken.buf.length < CPARSER_MAX_TOKEN_SIZE
      . rw [if_pos hlen]
        by_cases hasserts : Matchable priv (p.curToken.buf ++ [ch]) p.cur_node.children
        . rw [cparserMatch_eq hasserts, Option.bind_eq_bind, Option.bind_some]
          by_cases hmatch : Viable priv p.cur_node (p.curToken.buf ++ [ch])
          . rw [if_neg (viable_iff.mp hmatch)]
            refine .inl ⟨_, rfl, ?_⟩
            convert Fed.continues hstate hch hlen hmatch using 1
            simp [StateResult.finish, ParserFsm.setToken, hstate]
          . rw [if_pos (by rwa [viable_iff, not_not] at hmatch)]
            refine .inl ⟨_, rfl, ?_⟩
            convert Fed.rejects (.continues hstate hch hmatch) using 1
            simp [StateResult.finish, ParserFsm.setToken, ParserFsm.curToken]
        . rw [cparserMatch_of_not hasserts]
          exact .inr ⟨rfl, .continues hstate hch hlen hasserts⟩
      . rw [if_neg hlen]
        exact .inl ⟨_, rfl, Fed.rejects (.full hstate hch (Nat.le_of_not_lt hlen))⟩
  | ERROR =>
    by_cases hch : ch = ' '
    . rw [if_pos hch]
      exact .inl ⟨_, rfl, Fed.rejects (.rejected hstate)⟩
    . rw [if_neg hch]
      exact .inl ⟨_, rfl, Fed.rejects (.rejected hstate)⟩

theorem fed_input {p' : ParserFsm} (hinv : FsmInv p) (h : ¬Erases cfg ch)
    (hroom : p.current_pos < CPARSER_MAX_LINE_SIZE - 1) (hrun : inputFsm cfg priv p ch = some p')
    : Fed priv p ch p' := by
  rcases fed_or_fails priv hinv h hroom with ⟨q, hq, hfed⟩ | ⟨hnone, -⟩
  . cases hrun.symm.trans hq
    exact hfed
  . rw [hnone] at hrun
    contradiction

theorem input_of_fails (hinv : FsmInv p) (h : ¬Erases cfg ch) (hroom : p.current_pos < CPARSER_MAX_LINE_SIZE - 1)
    (hfails : Fails priv p ch) : inputFsm cfg priv p ch = none := by
  rw [input_of_room h hroom]
  unfold inputType cparserStateFuncTbl
  rw [if_neg h]
  cases hfails with
  | begins hstate hch hmatch =>
    rw [if_neg hch, hstate]
    dsimp only
    rw [cparserWsChar, cparserMatch_of_not hmatch]
    rfl
  | continues hstate hch hlen hmatch =>
    rw [if_neg hch, hstate]
    dsimp only
    unfold cparserTokChar
    dsimp only
    rw [if_pos hlen, cparserMatch_of_not hmatch]
    rfl
  | closes hstate hch hmatch =>
    rw [if_pos hch, hstate]
    dsimp only
    unfold cparserTokSpace
    dsimp only
    rw [cparserMatch_of_not hmatch]
    rfl
  | overflows hstate hch hword hfull =>
    rw [if_pos hch, hstate]
    dsimp only
    by_cases hmatch : Matchable priv p.curToken.buf p.cur_node.children
    . rcases Option.isSome_iff_exists.mp hword with ⟨m, hword⟩
      rw [cparserTokSpace_eq hinv hmatch hword, if_neg (Nat.not_lt.mpr hfull)]
      rfl
    . unfold cparserTokSpace
      dsimp only
      rw [cparserMatch_of_not hmatch]
      rfl

end Steps

end SecFw.Client
