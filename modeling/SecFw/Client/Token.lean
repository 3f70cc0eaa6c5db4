import SecFw.Recognizer.Basic

/-!
This module contains the nodes of the parse tree of the command line and the functions that match a
token against a node.
-/

namespace SecFw.Client

inductive NodeType where
  | ROOT
  | END
  | KEYWORD
  | STRING
  | UINT
  | UINT64
  | INT
  | INT64
  | HEX
  | HEX64
  | FLOAT
  | MACADDR
  | IPV4ADDR
  | FILE
  | LIST
  deriving DecidableEq, Repr

inductive NodeFlag where
  | OPT_START
  | OPT_END
  | OPT_PARTIAL
  | HIDDEN
  deriving DecidableEq, Repr

inductive NodeParam where
  -- `param` of a node: nothing, a text, the keywords of a list or the name of a glue function
  | null
  | text (s : List Char)
  | list (keywords : List (List Char))
  | glue (fn : List Char)
  deriving DecidableEq, Repr

inductive CparserNode where
  -- `cparser_node_t`, the list of siblings is the list of children of the parent
  | mk (type : NodeType) (flags : List NodeFlag) (param : NodeParam) (desc : Option (List Char))
      (children : List CparserNode)

namespace CparserNode

def type : CparserNode → NodeType
  | mk type _ _ _ _ => type

def flags : CparserNode → List NodeFlag
  | mk _ flags _ _ _ => flags

def param : CparserNode → NodeParam
  | mk _ _ param _ _ => param

def desc : CparserNode → Option (List Char)
  | mk _ _ _ desc _ => desc

def children : CparserNode → List CparserNode
  | mk _ _ _ _ children => children

def paramText (node : CparserNode) : List Char :=
  -- `param` as a string
  match node.param with
  | .text s => s
  | _ => []

def paramList (node : CparserNode) : List (List Char) :=
  -- `param` as a list of keywords
  match node.param with
  | .list keywords => keywords
  | _ => []

end CparserNode

def isdigit (c : Char) : Bool := '0' ≤ c && c ≤ '9'

def isxdigit (c : Char) : Bool :=
  isdigit c || ('a' ≤ c && c ≤ 'f') || ('A' ≤ c && c ≤ 'F')

def strncmp : List Char → List Char → Nat → Int
  -- `strncmp` on strings, which have no zero characters
  | _, _, 0 => 0
  | [], [], _ + 1 => 0
  | [], _ :: _, _ + 1 => -1
  | _ :: _, [], _ + 1 => 1
  | a :: as, b :: bs, n + 1 => if a = b then strncmp as bs n else if a < b then -1 else 1

def cparserMatchKeyword (param : List Char) : Matcher Char := fun token =>
  let kw_len := param.length
  if token.length > kw_len then
    none
  else
    let match_len := if kw_len < token.length then kw_len else token.length
    if strncmp token param match_len = 0 then some (match_len = kw_len) else none

def cparserMatchString : Matcher Char := fun _ => some true

def cparserMatchUint : Matcher Char
  -- a token is not empty
  | [] => none
  | c0 :: rest =>
    if !isdigit c0 then
      none
    else
      match rest with
      | [] => some true
      | c1 :: rest =>
        let is_dec := c1 ≠ 'x'
        if ¬is_dec ∧ c0 ≠ '0' then
          none
        else if is_dec ∧ !isdigit c1 then
          none
        else if rest = [] then
          some is_dec
        else if is_dec then
          if rest.all isdigit then some true else none
        else
          if rest.all isxdigit then some true else none

def cparserMatchInt : Matcher Char
  | [] => none
  | c0 :: rest =>
    if !isdigit c0 ∧ c0 ≠ '-' ∧ c0 ≠ '+' then
      none
    else if rest = [] then
      some (isdigit c0)
    else if rest.all isdigit then
      some true
    else
      none

def cparserMatchHex : Matcher Char
  | [] => none
  | c0 :: rest =>
    if c0 ≠ '0' then
      none
    else
      match rest with
      | [] => some false
      | c1 :: rest =>
        if c1 ≠ 'x' then
          none
        else if rest = [] then
          some false
        else if rest.all isxdigit then
          some true
        else
          none

def matchFloatLoop (has_dec_pt : Bool) : Matcher Char
  | [] => some true
  | c :: rest =>
    if c = '.' then
      if has_dec_pt then none else matchFloatLoop true rest
    else if isdigit c then
      matchFloatLoop has_dec_pt rest
    else
      none

def cparserMatchFloat : Matcher Char := fun token =>
  let signed := token.head? = some '+' ∨ token.head? = some '-'
  if signed ∧ token.length = 1 then
    some false
  else
    let tail := if signed then token.drop 1 else token
    if tail.head? = some '.' then
      if token.length = 2 then some false else matchFloatLoop true tail
    else if (tail.head?.map isdigit).getD false then
      matchFloatLoop false tail
    else
      none

def matchMacaddrLoop (num_digit num_colon : Nat) : Matcher Char
  | [] => some (num_colon = 5 ∧ 0 < num_digit)
  | c :: rest =>
    if num_digit = 0 then
      if isxdigit c then matchMacaddrLoop 1 num_colon rest else none
    else if num_digit = 1 then
      if !isxdigit c ∧ c ≠ ':' then
        none
      else if c = ':' then
        if num_colon + 1 > 5 then none else matchMacaddrLoop 0 (num_colon + 1) rest
      else
        matchMacaddrLoop 2 num_colon rest
    else
      if c ≠ ':' then
        none
      else if num_colon + 1 > 5 then
        none
      else
        matchMacaddrLoop 0 (num_colon + 1) rest

def cparserMatchMacaddr : Matcher Char := matchMacaddrLoop 0 0

def matchIpv4addrLoop (num_digit num_dot : Nat) (c2 c1 : Char) : Matcher Char
  | [] => some (num_dot = 3 ∧ 0 < num_digit)
  | c :: rest =>
    if num_digit = 0 then
      if isdigit c then matchIpv4addrLoop 1 num_dot c1 c rest else none
    else if num_digit = 3 then
      if c ≠ '.' then
        none
      else if num_dot + 1 > 3 then
        none
      else
        matchIpv4addrLoop 0 (num_dot + 1) c1 c rest
    else
      if !isdigit c ∧ c ≠ '.' then
        none
      else if c = '.' then
        if num_dot + 1 > 3 then none else matchIpv4addrLoop 0 (num_dot + 1) c1 c rest
      else if num_digit + 1 = 3 then
        if 0 < strncmp [c2, c1, c] ['2', '5', '5'] 3 then none
        else matchIpv4addrLoop 3 num_dot c1 c rest
      else
        matchIpv4addrLoop (num_digit + 1) num_dot c1 c rest

def cparserMatchIpv4addr : Matcher Char := matchIpv4addrLoop 0 0 '\x00' '\x00'

def cparserMatchFile : Matcher Char := fun _ => some true

def cparserMatchList (keywords : List (List Char)) : Matcher Char := fun token =>
  let num_matches := (keywords.filter fun keyword => strncmp token keyword token.length = 0).length
  if num_matches = 0 then none else some (num_matches = 1)

def cparserMatchFnTbl (node : CparserNode) : Matcher Char :=
  match node.type with
  | .ROOT | .END => fun _ => none
  | .KEYWORD => cparserMatchKeyword node.paramText
  | .STRING => cparserMatchString
  | .UINT | .UINT64 => cparserMatchUint
  | .INT | .INT64 => cparserMatchInt
  | .HEX | .HEX64 => cparserMatchHex
  | .FLOAT => cparserMatchFloat
  | .MACADDR => cparserMatchMacaddr
  | .IPV4ADDR => cparserMatchIpv4addr
  | .FILE => cparserMatchFile
  | .LIST => cparserMatchList node.paramList

section Strncmp

variable {a b : List Char} {n : Nat}

theorem strncmp_eq_zero : strncmp a b n = 0 ↔ a.take n = b.take n := by
  induction n generalizing a b with
  | zero => simp [strncmp]
  | succ n ih =>
    cases a with
    | nil =>
      cases b with
      | nil => simp [strncmp]
      | cons y ys => simp [strncmp]
    | cons x xs =>
      cases b with
      | nil => simp [strncmp]
      | cons y ys =>
        rw [strncmp, List.take_succ_cons, List.take_succ_cons, List.cons.injEq]
        split
        . next heq =>
          rw [ih]
          simp [heq]
        . next hne =>
          split
          . simp [hne]
          . simp [hne]

theorem strncmp_length : strncmp a b a.length = 0 ↔ a <+: b := by
  rw [strncmp_eq_zero, List.take_length, List.prefix_iff_eq_take]

end Strncmp

end SecFw.Client
