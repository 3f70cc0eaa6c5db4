import SecFw.Client.Execute
import SecFw.LabelTree.Basic

/-!
This module contains the generator of the command line parser: the lines of a grammar become the parse tree
and the glue functions of its commands.
-/

namespace SecFw.Client

inductive GenError where
  -- what ends the generator: a `ValueError` with its text, an assertion or an attribute of `None`
  | value (msg : List Char)
  | assertion
  | attribute
  deriving DecidableEq, Repr

def NodeType.name : NodeType → List Char
  | ROOT => "ROOT".toList
  | END => "END".toList
  | KEYWORD => "KEYWORD".toList
  | STRING => "STRING".toList
  | UINT => "UINT".toList
  | UINT64 => "UINT64".toList
  | INT => "INT".toList
  | INT64 => "INT64".toList
  | HEX => "HEX".toList
  | HEX64 => "HEX64".toList
  | FLOAT => "FLOAT".toList
  | MACADDR => "MACADDR".toList
  | IPV4ADDR => "IPV4ADDR".toList
  | FILE => "FILE".toList
  | LIST => "LIST".toList

def TOKENS : List NodeType :=
  -- `TOKENS` of `Node`
  [.ROOT, .END, .KEYWORD, .STRING, .UINT, .UINT64, .INT, .INT64, .HEX, .HEX64, .FLOAT, .MACADDR, .IPV4ADDR,
    .FILE, .LIST]

structure Token where
  type : NodeType
  param : List Char
  desc : Option (List Char)
  list_kw : List (List Char)
  deriving DecidableEq, Repr

def isupper (c : Char) : Bool := 'A' ≤ c && c ≤ 'Z'

def isalpha (c : Char) : Bool := isupper c || ('a' ≤ c && c ≤ 'z')

def isKeywordChar (c : Char) : Bool := isalpha c || isdigit c || c == '_' || c == '-'

def validKeyword (s : List Char) : Bool := s ≠ [] && s.all isKeywordChar

def isTypeText (s : List Char) : Bool := (s.head?.map isupper).getD false && s.all fun c => isupper c || isdigit c

def isParamText (s : List Char) : Bool :=
  (s.head?.map isalpha).getD false && s.all fun c => isalpha c || isdigit c || c == '_'

def splitColon (s : List Char) : List Char × Option (List Char) :=
  match s.dropWhile (· ≠ ':') with
  | [] => (s, none)
  | _ :: rest => (s.takeWhile (· ≠ ':'), some rest)

def isDesc (desc : Option (List Char)) : Bool := desc ≠ some []

def bracketed (s : List Char) : Option (List Char) :=
  match s with
  | '<' :: rest => if rest.getLast? = some '>' then some rest.dropLast else none
  | _ => none

def listToken (s rest : List Char) : Except GenError Token :=
  let malformed : Except GenError Token := .error (.value ("Malformed LIST token \"".toList ++ s ++ "\".".toList))
  match splitColon rest with
  | (_, none) => malformed
  | (list_kw, some rest) =>
    let (param, desc) := splitColon rest
    if list_kw = [] || !isParamText param || !isDesc desc then
      malformed
    else
      match (list_kw.splitOn ',').find? fun kw => !validKeyword kw with
      | some kw => .error (.value ("Invalid LIST keyword \"".toList ++ kw ++ "\".".toList))
      | none => .ok ⟨.LIST, param, desc, list_kw.splitOn ','⟩

def paramToken (type : NodeType) (rest : List Char) : Except GenError Token :=
  let (param, desc) := splitColon rest
  if isParamText param && isDesc desc then
    .ok ⟨type, param, desc, []⟩
  else if param ≠ [] && '>' ∉ param && isDesc desc then
    .error (.value ("Invalid parameter name \"".toList ++ param ++ "\".".toList))
  else
    .error .assertion

def Token.init (s : List Char) : Except GenError Token :=
  if validKeyword s then
    .ok ⟨.KEYWORD, s, none, []⟩
  else
    let invalid : Except GenError Token := .error (.value ("Invalid token \"".toList ++ s ++ "\".".toList))
    match (bracketed s).map splitColon with
    | some (typeText, some rest) =>
      if !isTypeText typeText || rest = [] then
        invalid
      else
        match TOKENS.find? (·.name = typeText) with
        | none => .error (.value ("Unknown token type \"".toList ++ typeText ++ "\".".toList))
        | some type => if type = .LIST then listToken s rest else paramToken type rest
    | _ => invalid

structure GenNode where
  -- `Node` without its links
  type : NodeType
  param : List Char
  desc : Option (List Char)
  flags : List NodeFlag
  list_kw : List (List Char)
  deriving DecidableEq, Repr

def GenNode.key (node : GenNode) : NodeType × List Char := (node.type, node.param)

structure LineState where
  nodes : List GenNode
  start_flag : Bool
  num_opt_start : Nat
  num_opt_end : Nat

def lineToken (hidden_flag : List NodeFlag) (st : LineState) (t : List Char) : Except GenError LineState :=
  if t = ['{'] then
    .ok { st with start_flag := true, num_opt_start := st.num_opt_start + 1 }
  else if t = ['}'] then
    match st.nodes.getLast? with
    | none => .error .assertion
    | some last =>
      let flags := last.flags ++ [.OPT_END]
      if st.num_opt_end + 1 = st.num_opt_start then
        if .OPT_PARTIAL ∈ flags then
          .ok { st with
            nodes := st.nodes.dropLast ++ [{ last with flags := flags.erase .OPT_PARTIAL }]
            num_opt_end := st.num_opt_end + 1 }
        else
          .error (.value "list.remove(x): x not in list".toList)
      else
        .ok { st with nodes := st.nodes.dropLast ++ [{ last with flags := flags }], num_opt_end := st.num_opt_end + 1 }
  else do
    let flags := if st.num_opt_start > st.num_opt_end then hidden_flag ++ [.OPT_PARTIAL] else hidden_flag
    let flags := if st.start_flag then flags ++ [.OPT_START] else flags
    let tt ← Token.init t
    .ok { st with nodes := st.nodes ++ [⟨tt.type, tt.param, tt.desc, flags, tt.list_kw⟩], start_flag := false }

structure Command where
  -- a command of a line: the path of its root, the parameter of its root and its nodes
  mode : List GenNode
  mode_param : List Char
  nodes : List GenNode
  num_opt_start : Nat
  hidden_flag : List NodeFlag
  comment : Option (List Char)

def Command.glue_fn (c : Command) : List Char :=
  "cparser_glue".toList ++ c.mode_param
    ++ c.nodes.flatMap fun n => '_' :: n.param.map fun ch => if ch = '-' then '_' else ch

def cutNodes : Nat → List GenNode → List GenNode
  | _, [] => []
  | k, n :: nodes =>
    if .OPT_START ∈ n.flags then
      match k with
      | 0 => []
      | k + 1 => n :: cutNodes k nodes
    else
      n :: cutNodes k nodes

def Command.endNode (c : Command) (k : Nat) : GenNode :=
  if c.num_opt_start = k then ⟨.END, c.glue_fn, c.comment, c.hidden_flag, []⟩
  else ⟨.END, c.glue_fn, none, .OPT_PARTIAL :: c.hidden_flag, []⟩

def Command.path (c : Command) (k : Nat) : List GenNode := c.mode ++ cutNodes k c.nodes ++ [c.endNode k]

def parseLine (mode : List GenNode) (mode_param line : List Char) (comment : Option (List Char))
    : Except GenError (Option Command) :=
  match ((line.filter (· ≠ '\n')).splitOn ' ').filter (· ≠ []) with
  | [] => .ok none
  | first :: rest => do
    let hidden := first.head? = some '+'
    let tokens := if first = ['+'] then rest else if hidden then first.drop 1 :: rest else first :: rest
    let hidden_flag : List NodeFlag := if hidden then [.HIDDEN] else []
    let st ← tokens.foldlM (lineToken hidden_flag) ⟨[], false, 0, 0⟩
    .ok (some ⟨mode, mode_param, st.nodes, st.num_opt_start, hidden_flag, comment⟩)

inductive NodeRef where
  | missing
  | detached
  | inserted (path : List GenNode)

def addCommand (root : LabelTree GenNode) (c : Command) : LabelTree GenNode × NodeRef :=
  let root := (List.range c.num_opt_start).foldl (fun root k => root.insert GenNode.key (c.path k)) root
  let path := c.path c.num_opt_start
  let found := root.descend GenNode.key (path.map GenNode.key)
  (root.insert GenNode.key path, if found.isNone then .inserted path else .detached)

inductive CliMode where
  | top
  | submode (path : List GenNode) (param : List Char)
  | lost (param : List Char)

inductive Directive where
  | command (line : List Char) (comment : Option (List Char))
  | submode (name : List Char)
  | endsubmode

structure CliFile where
  root : LabelTree GenNode
  end_node : NodeRef
  last_cli_end : NodeRef
  mode : CliMode

def modeRoot (name : List Char) : GenNode :=
  ⟨.ROOT, '_' :: name, some ("Root of submode ".toList ++ name), [], []⟩

def processLine (st : CliFile) : Directive → Except GenError CliFile
  | .command line comment =>
    match st.mode with
    | .top => do
      match ← parseLine [] [] line comment with
      | none => .ok { st with last_cli_end := st.end_node }
      | some c =>
        let r := addCommand st.root c
        .ok { st with root := r.1, end_node := r.2, last_cli_end := r.2 }
    | .submode path param => do
      match ← parseLine path param line comment with
      | none => .ok st
      | some c =>
        let r := addCommand st.root c
        .ok { st with root := r.1, end_node := r.2 }
    | .lost param => do
      match ← parseLine [] param line comment with
      | none => .ok st
      | some _ => .ok { st with end_node := .detached }
  | .submode name =>
    match st.mode, st.last_cli_end with
    | .top, .missing => .error .attribute
    | .top, .detached => .ok { st with mode := .lost ('_' :: name) }
    | .top, .inserted path =>
      let path := path ++ [modeRoot name]
      -- a second sub-mode of the same name gets a root that is not in the tree
      if (st.root.descend GenNode.key (path.map GenNode.key)).isSome then
        .ok { st with mode := .lost ('_' :: name) }
      else
        .ok { st with root := st.root.insert GenNode.key path, mode := .submode path ('_' :: name) }
    | _, _ => .ok st
  | .endsubmode =>
    match st.mode with
    | .top => .error (.value "#endsubmode without a #submode.".toList)
    | _ => .ok { st with mode := .top, last_cli_end := .missing }

def treeRoot : GenNode := ⟨.ROOT, [], some "Root node of the parser tree".toList, [], []⟩

def GenNode.cParam (node : GenNode) : NodeParam :=
  -- `param` of a node in `c_struct`
  match node.type with
  | .ROOT => .null
  | .END => .glue node.param
  | .KEYWORD => .text node.param
  | .LIST => .list node.list_kw
  | _ => .text ('<' :: node.type.name ++ ':' :: node.param ++ ['>'])

mutual

def cStruct : LabelTree GenNode → CparserNode
  -- `c_struct` of a node and of the nodes below
  | .node data children =>
    .mk data.type data.flags data.cParam (data.desc.filter (· ≠ [])) (cStructs children)

def cStructs : List (LabelTree GenNode) → List CparserNode
  | [] => []
  | t :: ts => cStruct t :: cStructs ts

end

mutual

def glueFns (up : List CparserNode) : LabelTree GenNode → List (List Char × List CparserNode)
  | .node data children =>
    let path := if data.type = .ROOT then [] else up ++ [cStruct (.node data children)]
    (if data.type = .END ∧ .OPT_PARTIAL ∉ data.flags then [(data.param, path)] else [])
      ++ glueFnsAll path children

def glueFnsAll (up : List CparserNode) : List (LabelTree GenNode) → List (List Char × List CparserNode)
  | [] => []
  | t :: ts => glueFns up t ++ glueFnsAll up ts

end

end SecFw.Client
