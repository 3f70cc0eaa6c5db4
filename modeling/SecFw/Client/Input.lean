import SecFw.Client.Values

/-!
This module contains the parser of the command line: the keys that edit the line, completion, help and the
execution of a command by its glue function.
-/

namespace SecFw.Client

abbrev CPARSER_MAX_NESTED_LEVELS : Nat := 4

abbrev CPARSER_MAX_PROMPT : Nat := 16

inductive Key where
  -- `cparser_char_t` with the character of the regular type
  | REGULAR (ch : Char)
  | UP_ARROW
  | DOWN_ARROW
  | RIGHT_ARROW
  | LEFT_ARROW
  | FIRST
  | LAST
  | UNKNOWN
  deriving DecidableEq, Repr

structure UserInput where
  -- the user input section of `cparser_t`, `buf` are the first `user_buf_count` characters
  buf : List Char
  size : Nat
  do_echo : Bool
  cb : List Char
  deriving DecidableEq, Repr

structure ActionCall where
  glue : List Char
  args : List (Option Value)
  deriving DecidableEq

structure Cparser where
  -- `cparser_t`, with the characters that it has printed and the action functions that it has
  -- called
  cfg : CparserCfg
  root_level : Nat
  root : Nat → CparserNode
  prompt : Nat → List Char
  fsm : ParserFsm
  is_privileged_mode : Bool
  lines : LineBuffering
  done : Bool
  user : Option UserInput
  last_line_idx : Nat
  last_rc : CparserResult
  last_end_node : Option CparserNode
  printed : List Char
  called : List ActionCall

inductive ApiCall where
  | prints (s : List Char)
  | submodeEnter (prompt : List Char)
  | submodeExit
  | setPrivilegedMode (enable : Bool)
  | quit
  | userInput (prompt : List Char) (do_echo : Bool) (buf_size : Nat) (cb : List Char)

inductive CallbackCall where
  | prints (s : List Char)
  | setPrivilegedMode (enable : Bool)
  | quit

structure Env where
  -- what is outside of the parser: the nodes that the generated glue functions are written for,
  -- the action functions, the callbacks of user inputs and the file system
  glue : List Char → Option (List CparserNode)
  action : ActionCall → Cparser → List ApiCall
  input_cb : List Char → List Char → List CallbackCall
  is_reg : List Char → Bool
  glob : List Char → List (List Char)

namespace Cparser

def prints (p : Cparser) (s : List Char) : Cparser := { p with printed := p.printed ++ s }

def printc (p : Cparser) (ch : Char) : Cparser := p.prints [ch]

def line (p : Cparser) : CparserLine := p.lines.line

def lineCall (p : Cparser) (call : LineCall) : Cparser :=
  { p with lines := (call.run p.lines).1 }.prints (call.run p.lines).2

def fsmInput (p : Cparser) (ch : Char) : Option Cparser :=
  (cparserFsmInput p.cfg p.is_privileged_mode p.fsm ch).map fun r => { p with fsm := r.1 }.prints r.2

def fsmReset (p : Cparser) : Cparser := { p with fsm := cparserFsmReset (p.root p.root_level) }

def usable (p : Cparser) (node : CparserNode) : Bool := nodeUsable p.is_privileged_mode node

def matchToken (p : Cparser) : Option MatchResult :=
  -- `cparser_match` for the current token
  cparserMatch p.is_privileged_mode p.fsm.curToken.buf p.fsm.cur_node

end Cparser

def cparserPrintPrompt (p : Cparser) : Cparser :=
  (if p.is_privileged_mode then p.printc '+' else p).prints (p.prompt p.root_level)

def nodeText (node : CparserNode) (print_desc : Bool) : List Char :=
  match node.type with
  | .ROOT => []
  | .END => "<LF>".toList
  | .LIST => "[ ".toList ++ " | ".toList.intercalate node.paramList ++ " ]".toList
  | _ =>
    node.paramText ++ if print_desc then (node.desc.map (" - ".toList ++ ·)).getD [] else []

def cparserHelpPrintNode (p : Cparser) (node : CparserNode) (add_lf print_desc : Bool) : Option Cparser :=
  -- `none` when an assertion fails
  if !p.usable node then
    some p
  else if node.type = .ROOT ∨ node.type = .LIST ∧ node.paramList = [] then
    none
  else
    some ((if add_lf then p.printc '\n' else p).prints (nodeText node print_desc))

def cparserPrintError (p : Cparser) (msg : List Char) : Cparser :=
  let m := (p.prompt p.root_level).length + 1
  (p.printc '\n').prints (List.replicate (m + p.fsm.last_good).toNat ' ' ++ '^' :: msg)

def cparserRecordCommand (p : Cparser) (rc : CparserResult) : Cparser :=
  { p with
    last_line_idx := p.lines.cur_line
    last_rc := rc
    last_end_node := some p.fsm.cur_node }

def inputRegular (p : Cparser) (ch : Char) : Option Cparser :=
  -- `cparser_input` of a character that neither completes nor asks for help nor ends the line
  if Erases p.cfg ch then
    if (cparserLineDelete p.line).1 = .ERR_NOT_EXIST then some p else (p.lineCall .delete).fsmInput ch
  else
    (p.lineCall (.insert ch)).fsmInput ch

def inputText (p : Cparser) (text : List Char) : Option Cparser := text.foldlM inputRegular p

def cparserCompleteKeyword (p : Cparser) (node : CparserNode) (token : List Char) : Option Cparser :=
  inputText p (node.paramText.drop token.length)

def commonText : List Char → List Char → List Char
  | a :: as, b :: bs => if a = b then a :: commonText as bs else []
  | _, _ => []

def listCompletion (keywords : List (List Char)) (token : List Char) : List Char :=
  match (keywords.filter fun keyword => strncmp keyword token token.length = 0).map (·.drop token.length) with
  | [] => []
  | rest :: rests => rests.foldl commonText rest

def cparserCompleteList (p : Cparser) (node : CparserNode) (token : List Char) : Option Cparser :=
  inputText p (listCompletion node.paramList token)

def cparserCompleteFile (env : Env) (p : Cparser) (token : List Char) : Option Cparser :=
  match env.glob token with
  | [path] => inputText p (path.drop token.length)
  | _ => some p

def cparserCompleteFnTbl (env : Env) (p : Cparser) (node : CparserNode) (token : List Char) : Option Cparser :=
  -- a node without a function completes nothing
  match node.type with
  | .KEYWORD => cparserCompleteKeyword p node token
  | .FILE => cparserCompleteFile env p token
  | .LIST => cparserCompleteList p node token
  | _ => some p

def helpPrintMatch (token : List Char) (p : Cparser) (node : CparserNode) : Option Cparser :=
  if !p.usable node then
    some p
  else if !matchAsserts node token then
    none
  else if (cparserMatchFnTbl node token).isSome then
    cparserHelpPrintNode p node true true
  else
    some p

def helpPrintChildren (p : Cparser) : Option Cparser :=
  let children := p.fsm.cur_node.children
  match p.fsm.state with
  | .WHITESPACE => children.foldlM (cparserHelpPrintNode · · true true) p
  | .ERROR =>
    children.foldlM (cparserHelpPrintNode · · true true)
      (cparserPrintError p "Last known good parse point.".toList)
  | .TOKEN => children.foldlM (helpPrintMatch p.fsm.curToken.buf) p

def cparserHelp (p : Cparser) : Option Cparser :=
  (helpPrintChildren p).map fun p => (cparserPrintPrompt (p.printc '\n')).prints (cparserLinePrint p.line)

def matchPrefixLoop (p : Cparser) (ch : Char) (offset : Nat) : List CparserNode → Option Bool
  | [] => some true
  | child :: children =>
    if !p.usable child then
      matchPrefixLoop p ch offset children
    else if !matchAsserts child p.fsm.curToken.buf then
      none
    else if (cparserMatchFnTbl child p.fsm.curToken.buf).isNone then
      matchPrefixLoop p ch offset children
    else if child.type ≠ .KEYWORD ∨ child.paramText.getD offset NUL ≠ ch then
      some false
    else
      matchPrefixLoop p ch offset children

def cparserMatchPrefix (p : Cparser) (ch : Char) (offset : Nat) : Option Bool :=
  -- all matches are keywords with the character at the offset
  matchPrefixLoop p ch offset p.fsm.cur_node.children

def completeCommon (p : Cparser) (offset : Nat) : List Char → Option Cparser
  | [] => some p
  | ch :: rest => do
    let common ← cparserMatchPrefix p ch offset
    if common then
      let p ← inputRegular p ch
      completeCommon p (offset + 1) rest
    else
      some p

def cparserCompleteOneLevel (env : Env) (p : Cparser) : Option (Cparser × Bool) :=
  -- with the flag that tells to go on
  match p.fsm.state with
  | .ERROR => some (p.printc BEL, false)
  | .WHITESPACE =>
    match p.fsm.cur_node.children with
    | [child] =>
      if child.type = .KEYWORD then do
        let p ← inputText p child.paramText
        let p ← inputRegular p ' '
        some (p, false)
      else
        (cparserHelp p).map (·, false)
    | _ => (cparserHelp p).map (·, false)
  | .TOKEN => do
    let token := p.fsm.curToken.buf
    let found ← p.matchToken
    -- without a match the code goes through a null pointer
    let m ← found.found
    if found.num_matches = 1 ∧ found.is_complete then
      let p ← cparserCompleteFnTbl env p m token
      let p ← inputRegular p ' '
      some (p, true)
    else
      match m.paramText.drop token.length with
      | [] => (cparserHelp p).map (·, false)
      | ch :: rest =>
        let common ← cparserMatchPrefix p ch token.length
        if common then (completeCommon p token.length (ch :: rest)).map (·, false)
        else (cparserHelp p).map (·, false)

def completeLoop (env : Env) : Nat → Cparser → Option Cparser
  -- `while (cparser_complete_one_level(parser));`, a round that goes on leaves the token, so that
  -- there is at most one more. `none` when there would be more, which is a loop without an end
  | 0, _ => none
  | n + 1, p => do
    let r ← cparserCompleteOneLevel env p
    if r.2 then completeLoop env n r.1 else some r.1

def isOptional (node : CparserNode) : Bool :=
  -- `is_optional` of a node in the generator of the glue functions
  node.flags.any fun flag => flag = .OPT_START || flag = .OPT_END || flag = .OPT_PARTIAL

def isParam (node : CparserNode) : Bool :=
  -- `is_param` of a node in the generator of the glue functions
  node.type ≠ .ROOT && node.type ≠ .END && node.type ≠ .KEYWORD

def glueArgs (is_reg : List Char → Bool) (fsm : ParserFsm) : List CparserNode → Nat → Option (List (Option Value))
  | [], _ => some []
  | node :: path, k =>
    if !isParam node then
      glueArgs is_reg fsm path (k + 1)
    else
      match cparserGetFnTbl is_reg node.type (fsm.tokens k) with
      | none => none
      | some (some v) => (glueArgs is_reg fsm path (k + 1)).map (some v :: ·)
      | some none =>
        if isOptional node && k + 1 > fsm.token_tos then
          (glueArgs is_reg fsm path (k + 1)).map (none :: ·)
        else
          none

def cparserSubmodeEnter (p : Cparser) (prompt : List Char) : Option Cparser :=
  if p.root_level = CPARSER_MAX_NESTED_LEVELS - 1 then
    some p
  else
    match p.fsm.cur_node.children with
    | new_root :: _ =>
      if new_root.type = .ROOT then
        some { p with
          root_level := p.root_level + 1
          root := Function.update p.root (p.root_level + 1) new_root
          prompt := Function.update p.prompt (p.root_level + 1) (prompt.take (CPARSER_MAX_PROMPT - 1)) }
      else
        none
    | [] => none

def cparserSubmodeExit (p : Cparser) : Cparser :=
  if p.root_level = 0 then p else { p with root_level := p.root_level - 1 }

def cparserUserInput (p : Cparser) (prompt : List Char) (do_echo : Bool) (buf_size : Nat) (cb : List Char)
    : Cparser :=
  if buf_size = 0 ∨ p.user.isSome then p
  else { p.prints prompt with user := some ⟨[], buf_size, do_echo, cb⟩ }

def ApiCall.run (p : Cparser) : ApiCall → Option Cparser
  | prints s => some (p.prints s)
  | submodeEnter prompt => cparserSubmodeEnter p prompt
  | submodeExit => some (cparserSubmodeExit p)
  | setPrivilegedMode enable => some { p with is_privileged_mode := enable }
  | quit => some { p with done := true }
  | userInput prompt do_echo buf_size cb => some (cparserUserInput p prompt do_echo buf_size cb)

def CallbackCall.run (p : Cparser) : CallbackCall → Cparser
  | prints s => p.prints s
  | setPrivilegedMode enable => { p with is_privileged_mode := enable }
  | quit => { p with done := true }

def runGlue (env : Env) (p : Cparser) (fn : List Char) : Option Cparser := do
  let path ← env.glue fn
  let args ← glueArgs env.is_reg p.fsm path 0
  let call : ActionCall := ⟨fn, args⟩
  (env.action call p).foldlM ApiCall.run { p with called := p.called ++ [call] }

def notExecuted (p : Cparser) (rc : CparserResult) : Cparser :=
  let p := (cparserRecordCommand p rc).fsmReset
  cparserPrintPrompt (if rc = .OK then p.printc '\n' else p)

def completeSingle : Nat → Cparser → Option Cparser
  | 0, _ => none
  | n + 1, p =>
    match p.fsm.cur_node.children with
    | [] => none
    | child :: siblings =>
      if child.type = .KEYWORD ∧ p.usable child ∧ siblings = [] then do
        let p ← cparserCompleteKeyword p child p.fsm.curToken.buf
        let p ← inputRegular p ' '
        completeSingle n p
      else
        some p

def executeEnd (env : Env) (p : Cparser) : Option (Cparser × CparserResult) :=
  -- `cparser_execute_cmd` behind the loop: look for an end node
  match p.fsm.cur_node.children.find? fun child => child.type == .END && p.usable child with
  | some child => do
    let fn :=
      match child.param with
      | .glue fn => fn
      | _ => []
    let p := { p with fsm := { p.fsm with cur_node := child } }.printc '\n'
    let p ← runGlue env p fn
    let p := (cparserRecordCommand p .OK).fsmReset
    some (if p.user.isSome then p else cparserPrintPrompt p, .OK)
  | none =>
    if p.fsm.token_tos ≠ 0 then
      some (notExecuted (cparserPrintError p "Incomplete command\n".toList) .ERR_INCOMP_CMD, .ERR_INCOMP_CMD)
    else
      some (notExecuted p .OK, .OK)

def cparserExecuteCmd (env : Env) (p : Cparser) : Option (Cparser × CparserResult) :=
  -- Each keyword that is entered for the user takes at least one character, when none is left for
  -- the state machine the loop does not end
  match p.fsm.state with
  | .TOKEN => do
    let token := p.fsm.curToken.buf
    let found ← p.matchToken
    match found.found with
    | some m =>
      if 1 ≤ found.num_matches ∧ found.is_complete then
        let p ← cparserCompleteFnTbl env p m token
        let p ← inputRegular p ' '
        let p ← completeSingle CPARSER_MAX_LINE_SIZE p
        executeEnd env p
      else
        some (notExecuted (cparserPrintError p "Incomplete command\n".toList) .ERR_INCOMP_CMD, .ERR_INCOMP_CMD)
    | none =>
      some (notExecuted (cparserPrintError p "Incomplete command\n".toList) .ERR_INCOMP_CMD, .ERR_INCOMP_CMD)
  | .WHITESPACE => do
    let p ← completeSingle CPARSER_MAX_LINE_SIZE p
    executeEnd env p
  | .ERROR =>
    let p := cparserPrintError p "Parse error\n".toList
    some (cparserPrintPrompt ((cparserRecordCommand p .ERR_PARSE_ERR).fsmReset), .ERR_PARSE_ERR)

def fsmInputFrom (p : Cparser) (pos n : Nat) : Option Cparser :=
  (TextCursor.slice p.line.buf pos n).foldlM Cparser.fsmInput p

def inputFirst : Nat → Cparser → Option Cparser
  | 0, p => some p
  | n + 1, p =>
    let ch := (cparserLinePrevChar p.line).1
    let p := p.lineCall .prevChar
    if ch = NUL then some p else (p.fsmInput ch).bind (inputFirst n)

def inputLast : Nat → Cparser → Option Cparser
  | 0, p => some p
  | n + 1, p =>
    let ch := (cparserLineNextChar p.line).1
    let p := p.lineCall .nextChar
    if ch = NUL then some p else (p.fsmInput ch).bind (inputLast n)

def inputOtherLine (p : Cparser) (call : LineCall) : Option Cparser :=
  -- `cparser_input` of the keys that show another line
  let p := (p.lineCall call).fsmReset
  fsmInputFrom p 0 p.line.current

def inputUser (env : Env) (p : Cparser) (user : UserInput) (key : Key) : Cparser :=
  -- `cparser_input` while a user input is under way
  match key with
  | .REGULAR ch =>
    if ch = '\n' then
      let p := (env.input_cb user.cb user.buf).foldl CallbackCall.run p
      cparserPrintPrompt { p with user := none }
    else if Erases p.cfg ch then
      let p := { p with user := some { user with buf := user.buf.dropLast } }
      if user.do_echo then p.printc BS else p
    else if user.buf.length + 1 < user.size then
      let p := { p with user := some { user with buf := user.buf ++ [ch] } }
      if user.do_echo then p.printc ch else p
    else
      p
  | _ => p

def handleSpecial (env : Env) (p : Cparser) (ch : Char) : Option Cparser :=
  if ch = p.cfg.ch_complete then
    completeLoop env 2 p
  else if ch = p.cfg.ch_help then
    cparserHelp p
  else if ch = '\n' then
    (cparserExecuteCmd env p).map fun r => r.1.lineCall .advance
  else
    p.fsmInput ch

def cparserInput (env : Env) (p : Cparser) (key : Key) : Option Cparser :=
  -- `none` when an assertion fails
  match p.user with
  | some user => some (inputUser env p user key)
  | none =>
    match key with
    | .REGULAR ch =>
      if p.cfg.ch_complete = ch ∨ p.cfg.ch_help = ch then
        handleSpecial env p ch
      else if Erases p.cfg ch then
        if (cparserLineDelete p.line).1 = .ERR_NOT_EXIST then some p
        else handleSpecial env (p.lineCall .delete) ch
      else if ch = '\n' then
        (fsmInputFrom p p.line.current (p.line.last - p.line.current)).bind (handleSpecial env · ch)
      else
        handleSpecial env (p.lineCall (.insert ch)) ch
    | .UP_ARROW => inputOtherLine p .prevLine
    | .DOWN_ARROW => inputOtherLine p .nextLine
    | .LEFT_ARROW =>
      let ch := (cparserLinePrevChar p.line).1
      let p := p.lineCall .prevChar
      if ch = NUL then some (p.printc BEL) else handleSpecial env p ch
    | .RIGHT_ARROW =>
      let ch := (cparserLineNextChar p.line).1
      let p := p.lineCall .nextChar
      if ch = NUL then some (p.printc BEL) else handleSpecial env p ch
    | .FIRST => inputFirst (p.line.current + 1) p
    | .LAST => inputLast (p.line.last - p.line.current + 1) p
    | .UNKNOWN => some (p.printc BEL)

def cparserInit (cfg : CparserCfg) : Cparser where
  cfg := cfg
  root_level := 0
  root := fun _ => cfg.root
  prompt := fun _ => cfg.prompt.take (CPARSER_MAX_PROMPT - 1)
  fsm := cparserFsmReset cfg.root
  is_privileged_mode := false
  lines := LineBuffering.init
  done := false
  user := none
  last_line_idx := 0
  last_rc := .OK
  last_end_node := none
  printed := []
  called := []

def runKeys (p : Cparser) (events : List (Env × Key)) : Option Cparser :=
  -- keys one after the other, each with what is outside of the parser when it is pressed
  events.foldlM (fun p event => cparserInput event.1 p event.2) p

abbrev ESC : Char := '\x1b'

def escapeKey (ch : Char) : Key :=
  if ch = 'A' then .UP_ARROW
  else if ch = 'B' then .DOWN_ARROW
  else if ch = 'C' then .RIGHT_ARROW
  else if ch = 'D' then .LEFT_ARROW
  else .UNKNOWN

def isgraph (ch : Char) : Bool := '!' ≤ ch && ch ≤ '~'

def cparserUnixGetch (cfg : CparserCfg) : List Char → Option (Key × List Char)
  -- `cparser_unix_getch` on what comes from the terminal, `none` when it waits for more
  | [] => none
  | ch :: rest =>
    if ch = ESC then
      match rest with
      | [] => none
      | c :: rest =>
        if c = '[' then
          match rest with
          | [] => none
          | c :: rest => some (escapeKey c, rest)
        else
          some (.UNKNOWN, rest)
    else if ch = '\x10' then some (.UP_ARROW, rest)
    else if ch = '\x0e' then some (.DOWN_ARROW, rest)
    else if ch = '\x01' then some (.FIRST, rest)
    else if ch = '\x05' then some (.LAST, rest)
    else if isgraph ch ∨ ch = '\n' ∨ ch = ' ' ∨ ch = cfg.ch_erase ∨ ch = cfg.ch_del ∨ ch = cfg.ch_help
        ∨ ch = cfg.ch_complete then
      some (.REGULAR ch, rest)
    else
      some (.UNKNOWN, rest)

end SecFw.Client
