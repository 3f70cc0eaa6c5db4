import SecFw.Client.Stack

/-!
This module contains the meaning of the enter key: the words of the line lead to a command, and its action
function is called with the values of the words.
-/

namespace SecFw.Client

open TextCursor

section Typing

variable {p q : Cparser} {text word : List Char} {ch : Char}

structure Grounded (p : Cparser) : Prop where
  plain : p.cfg.Plain
  shallow : p.cfg.root.Shallow
  root : ModeRoot p.cfg.root (p.root p.root_level)

theorem SameSettings.grounded (hsame : SameSettings p q) (h : Grounded p) : Grounded q := by
  constructor
  case plain => exact hsame.cfg ▸ h.plain
  case shallow => exact hsame.cfg ▸ h.shallow
  case root =>
    rw [hsame.cfg, hsame.root, hsame.root_level]
    exact h.root

structure Typing (p q : Cparser) (text : List Char) : Prop where
  same : SameSettings p q
  reached : At q text

theorem At.fsmInput (h : At p text) (hgrounded : Grounded p) (hch : p.cfg.Ordinary ch)
    (hroom : text.length + 1 ≤ CPARSER_MAX_LINE_SIZE - 1)
    : ∃ q, p.fsmInput ch = some q ∧ Typing p q (text ++ [ch]) := by
  have herases : Erases p.cfg ch → text ≠ [] := fun herase => absurd herase hch.not_erases
  rcases After.input_isSome h hgrounded.plain hgrounded.shallow hgrounded.root herases with ⟨f, hf⟩
  rcases Option.map_eq_some_iff.mp hf with ⟨r, hr, -⟩
  have hinput : p.fsmInput ch = some ({ p with fsm := r.1 }.prints r.2) := by
    unfold Cparser.fsmInput
    rw [hr]
    rfl
  have hstep := fsmStep hinput
  have hreached := hstep.at h
  rw [leftText, if_neg hch.not_erases, if_pos (Nat.lt_of_succ_le hroom)] at hreached
  exact ⟨_, hinput, hstep.same, hreached⟩

theorem At.inputRegular (h : At p text) (hgrounded : Grounded p) (hch : p.cfg.Ordinary ch)
    (hroom : text.length + 1 ≤ CPARSER_MAX_LINE_SIZE - 1)
    : ∃ q, Client.inputRegular p ch = some q ∧ Typing p q (text ++ [ch]) := by
  have hsame := same_lineCall p (.insert ch)
  rcases (hsame.at h rfl).fsmInput (hsame.grounded hgrounded) hch hroom with ⟨q, hq, htyping⟩
  refine ⟨q, ?_, hsame.trans htyping.same, htyping.reached⟩
  unfold Client.inputRegular
  rw [if_neg hch.not_erases]
  exact hq

theorem typing_foldlM {f : Cparser → Char → Option Cparser}
    (hf : ∀ p text ch, At p text → Grounded p → p.cfg.Ordinary ch → text.length + 1 ≤ CPARSER_MAX_LINE_SIZE - 1 →
      ∃ q, f p ch = some q ∧ Typing p q (text ++ [ch]))
    (h : At p text) (hgrounded : Grounded p) (hword : ∀ ch ∈ word, p.cfg.Ordinary ch)
    (hroom : (text ++ word).length ≤ CPARSER_MAX_LINE_SIZE - 1)
    : ∃ q, word.foldlM f p = some q ∧ Typing p q (text ++ word) := by
  induction word generalizing p text with
  | nil =>
    rw [List.append_nil]
    exact ⟨p, rfl, SameSettings.refl p, h⟩
  | cons ch word ih =>
    rw [List.append_cons] at hroom ⊢
    have hlen : text.length + 1 ≤ CPARSER_MAX_LINE_SIZE - 1 := by
      rw [List.length_append, List.length_append, List.length_singleton] at hroom
      omega
    rcases hf p text ch h hgrounded (hword ch List.mem_cons_self) hlen with ⟨r, hr, hfirst⟩
    have hordinary : ∀ c ∈ word, r.cfg.Ordinary c :=
      fun c hc => hfirst.same.cfg ▸ hword c (List.mem_cons_of_mem ch hc)
    rcases ih hfirst.reached (hfirst.same.grounded hgrounded) hordinary hroom with ⟨q, hq, hrest⟩
    refine ⟨q, ?_, hfirst.same.trans hrest.same, hrest.reached⟩
    rw [List.foldlM_cons, hr]
    exact hq

theorem At.inputText (h : At p text) (hgrounded : Grounded p) (hword : ∀ ch ∈ word, p.cfg.Ordinary ch)
    (hroom : (text ++ word).length ≤ CPARSER_MAX_LINE_SIZE - 1)
    : ∃ q, Client.inputText p word = some q ∧ Typing p q (text ++ word) :=
  typing_foldlM (fun _ _ _ h hgrounded hch hlen => h.inputRegular hgrounded hch hlen) h hgrounded hword hroom

theorem At.inputWord (h : At p text) (hgrounded : Grounded p) (hword : ∀ ch ∈ word, p.cfg.Ordinary ch)
    (hroom : (text ++ word ++ [' ']).length ≤ CPARSER_MAX_LINE_SIZE - 1)
    : ∃ q, (Client.inputText p word).bind (Client.inputRegular · ' ') = some q
        ∧ Typing p q (text ++ word ++ [' ']) := by
  rw [List.length_append, List.length_singleton] at hroom
  rcases h.inputText hgrounded hword (Nat.le_of_succ_le hroom) with ⟨r, hr, htext⟩
  have hspace : r.cfg.Ordinary ' ' := htext.same.cfg ▸ hgrounded.plain.space
  rcases htext.reached.inputRegular (htext.same.grounded hgrounded) hspace hroom with ⟨q, hq, hlast⟩
  refine ⟨q, ?_, htext.same.trans hlast.same, hlast.reached⟩
  rw [hr]
  exact hq

end Typing

section Completion

variable {env : Env} {priv : Bool} {root node parent m child : CparserNode} {text token word : List Char}
  {ws : List (List Char)} {path : List CparserNode}

structure IsWord (word : List Char) : Prop where
  ne_nil : word ≠ []
  not_mem : ' ' ∉ word
  length_le : word.length ≤ CPARSER_MAX_TOKEN_SIZE

structure CparserNode.Sound (root : CparserNode) : Prop where
  keyword : ∀ node, Within root node → node.type = .KEYWORD → IsWord node.paramText
  list : ∀ node, Within root node → ∀ keyword ∈ node.paramList, IsWord keyword
  children : ∀ node, Within root node → node.type ≠ .END → node.children ≠ []

/-- The paths that complete a file name are words. -/
def Env.Words (env : Env) : Prop := ∀ token, ∀ path ∈ env.glob token, IsWord path

theorem resolve_within (h : resolve priv node ws = some path) (hnode : Within root node) (htype : node.type ≠ .END)
    : Within root (path.getLastD node) ∧ (path.getLastD node).type ≠ .END := by
  induction ws generalizing node path with
  | nil =>
    cases h
    exact ⟨hnode, htype⟩
  | cons word ws ih =>
    unfold resolve at h
    split at h
    . contradiction
    . rcases Option.bind_eq_some_iff.mp h with ⟨child, hchild, hrest⟩
      rcases Option.map_eq_some_iff.mp hrest with ⟨path', hpath', rfl⟩
      have hled := led_of_wordChild hchild
      rw [List.getLastD_cons]
      exact ih hpath' (hnode.child hled.mem) hled.types.1

def completedText (env : Env) (priv : Bool) (root : CparserNode) (text : List Char) : List Char :=
  if openWord ' ' text = [] then text
  else
    match (resolve priv root (closedWords ' ' text)).bind fun path =>
        wordChild priv (path.getLastD root) (openWord ' ' text) with
    | some m => text ++ completion env m (openWord ' ' text) ++ [' ']
    | none => text

def singles (priv : Bool) : CparserNode → List CparserNode
  | .mk _ _ _ _ [child] => if child.type = .KEYWORD ∧ nodeUsable priv child then child :: singles priv child else []
  | .mk _ _ _ _ _ => []

def keywordsText (nodes : List CparserNode) : List Char := nodes.flatMap fun node => node.paramText ++ [' ']

structure Single (priv : Bool) (node child : CparserNode) (rest : List CparserNode) : Prop where
  children : node.children = [child]
  type_eq : child.type = .KEYWORD
  usable : nodeUsable priv child = true
  rest_eq : singles priv child = rest

theorem single_of_singles {rest : List CparserNode} (h : singles priv node = child :: rest)
    : Single priv node child rest := by
  unfold singles at h
  split at h
  . next only =>
    split at h
    . next hsingle =>
      cases h
      exact ⟨rfl, hsingle.1, hsingle.2, rfl⟩
    . contradiction
  . contradiction

theorem not_single_of_singles (h : singles priv node = [])
    : ¬∃ child, node.children = [child] ∧ child.type = .KEYWORD ∧ nodeUsable priv child = true := by
  rintro ⟨child, hchildren, htype, husable⟩
  cases node with
  | mk type flags param desc children =>
    change children = [child] at hchildren
    subst hchildren
    unfold singles at h
    rw [if_pos ⟨htype, husable⟩] at h
    contradiction

theorem Single.led {rest : List CparserNode} (h : Single priv node child rest) (hword : IsWord child.paramText)
    : wordChild priv node child.paramText = some child := by
  have hmatch : cparserMatchFnTbl child child.paramText = some true := by
    rw [cparserMatchFnTbl, h.type_eq]
    exact ((cparserMatchKeyword_recognizes _).complete _ hword.ne_nil).mpr (Set.mem_singleton _)
  rcases wordChild_isSome priv (by rw [h.children]; exact List.mem_singleton_self child) h.usable hmatch with ⟨m, hm⟩
  have hmem := (led_of_wordChild hm).mem
  rw [h.children, List.mem_singleton] at hmem
  rw [hm, hmem]

theorem resolve_append_word (hpath : resolve priv root (closedWords ' ' text) = some path)
    (hword : IsWord (openWord ' ' text ++ word))
    (hchild : wordChild priv (path.getLastD root) (openWord ' ' text ++ word) = some m)
    : resolve priv root (closedWords ' ' (text ++ word ++ [' '])) = some (path ++ [m]) := by
  have hmem : ' ' ∉ word := fun h => hword.not_mem (List.mem_append_right _ h)
  rw [closedWords_append_word hmem hword.ne_nil, resolve_append, hpath, Option.bind_some,
    if_neg (Nat.not_lt.mpr hword.length_le), hchild]
  rfl

end Completion

section Arguments

variable {is_reg : List Char → Bool} {node : CparserNode} {nodes path : List CparserNode} {token : CparserToken}
  {fsm : ParserFsm} {ws : List (List Char)} {k : Nat}

def wordValue (is_reg : List Char → Bool) (node : CparserNode) (word : List Char) : Option Value :=
  (cparserGetFnTbl is_reg node.type { blankToken with buf := word, node := some node }).join

def arguments (is_reg : List Char → Bool) : List CparserNode → List (List Char) → Option (List (Option Value))
  | [], _ => some []
  | node :: nodes, ws =>
    if !isParam node then
      arguments is_reg nodes ws.tail
    else
      match ws with
      | [] => (arguments is_reg nodes []).map (none :: ·)
      | word :: ws => (wordValue is_reg node word).bind fun v => (arguments is_reg nodes ws).map (some v :: ·)

def LeavesOut (node : CparserNode) : Prop := isParam node = true → isOptional node = true ∧ node.type ≠ .LIST

theorem cparserGetFnTbl_congr {type : NodeType} {token' : CparserToken} (hbuf : token.buf = token'.buf)
    (hnode : token.node = token'.node)
    : cparserGetFnTbl is_reg type token = cparserGetFnTbl is_reg type token' := by
  unfold cparserGetFnTbl cparserGetList
  rw [hbuf, hnode]

theorem cparserGetFnTbl_blank (hparam : isParam node = true) (hlist : node.type ≠ .LIST) (hbuf : token.buf = [])
    : cparserGetFnTbl is_reg node.type token = some none := by
  unfold isParam at hparam
  unfold cparserGetFnTbl
  rw [hbuf]
  cases htype : node.type with
  | ROOT => simp [htype] at hparam
  | END => simp [htype] at hparam
  | KEYWORD => simp [htype] at hparam
  | LIST => exact absurd htype hlist
  | _ => rfl

theorem glueArgs_blank (hbuf : ∀ i ≥ k, (fsm.tokens i).buf = []) (htos : fsm.token_tos ≤ k)
    (hoptional : ∀ node ∈ nodes, LeavesOut node)
    : glueArgs is_reg fsm nodes k = arguments is_reg nodes [] := by
  induction nodes generalizing k with
  | nil => rfl
  | cons node nodes ih =>
    have hrest := ih (k := k + 1) (fun i hi => hbuf i (Nat.le_of_succ_le hi)) (Nat.le_succ_of_le htos)
      (fun node hmem => hoptional node (List.mem_cons_of_mem _ hmem))
    unfold glueArgs arguments
    by_cases hparam : isParam node = true
    . rcases hoptional node List.mem_cons_self hparam with ⟨hopt, hlist⟩
      have hlt : k + 1 > fsm.token_tos := Nat.lt_succ_of_le htos
      rw [cparserGetFnTbl_blank hparam hlist (hbuf k (Nat.le_refl k)), hrest]
      simp [hparam, hopt, hlt]
    . rw [hrest]
      simp [hparam]

theorem glueArgs_eq (hbuf : ∀ i, (fsm.tokens (k + i)).buf = ws.getD i [])
    (hnode : ∀ i < ws.length, (fsm.tokens (k + i)).node = nodes[i]?) (hlen : ws.length ≤ nodes.length)
    (htos : fsm.token_tos = k + ws.length) (hoptional : ∀ node ∈ nodes.drop ws.length, LeavesOut node)
    : glueArgs is_reg fsm nodes k = arguments is_reg nodes ws := by
  induction ws generalizing nodes k with
  | nil =>
    apply glueArgs_blank
    . intro i hi
      have hblank := hbuf (i - k)
      rwa [Nat.add_sub_cancel' hi] at hblank
    . exact Nat.le_of_eq htos
    . exact hoptional
  | cons word ws ih =>
    cases nodes with
    | nil => contradiction
    | cons node nodes =>
      have hshift (i : Nat) : k + 1 + i = k + (i + 1) := by omega
      have hrest : glueArgs is_reg fsm nodes (k + 1) = arguments is_reg nodes ws := ih
        (fun i => by rw [hshift]; exact hbuf (i + 1))
        (fun i hi => by rw [hshift]; exact hnode (i + 1) (Nat.succ_lt_succ hi))
        (Nat.le_of_succ_le_succ hlen)
        (by rw [htos, List.length_cons]; omega)
        hoptional
      unfold glueArgs arguments
      rw [List.tail_cons, hrest]
      by_cases hparam : isParam node = true
      . have htoken : cparserGetFnTbl is_reg node.type (fsm.tokens k)
            = cparserGetFnTbl is_reg node.type { blankToken with buf := word, node := some node } :=
          cparserGetFnTbl_congr (hbuf 0) (hnode 0 (Nat.succ_pos _))
        have hlt : ¬k + 1 > fsm.token_tos := by
          rw [htos, List.length_cons]
          omega
        have hvalue : wordValue is_reg node word = (cparserGetFnTbl is_reg node.type (fsm.tokens k)).join := by
          rw [htoken]
          rfl
        dsimp only
        rw [hvalue]
        cases cparserGetFnTbl is_reg node.type (fsm.tokens k) with
        | none => simp [hparam]
        | some got =>
          cases got with
          | none => simp [hparam, hlt]
          | some v => simp [hparam]
      . simp [hparam]

theorem glueArgs_cur_node (child : CparserNode)
    : glueArgs is_reg { fsm with cur_node := child } nodes k = glueArgs is_reg fsm nodes k := by
  induction nodes generalizing k with
  | nil => rfl
  | cons node nodes ih =>
    unfold glueArgs
    rw [ih]

end Arguments

section Meaning

variable {env : Env} {priv : Bool} {top root : CparserNode} {p q q' : Cparser} {text : List Char}
  {path nodes : List CparserNode} {meaning : Meaning}

inductive Meaning where
  | stops (rc : CparserResult)
  | calls (fn : List Char) (args : Option (List (Option Value)))

def enteredText (env : Env) (priv : Bool) (root : CparserNode) (text : List Char) : List Char :=
  let completed := completedText env priv root text
  if openWord ' ' completed = [] then
    match resolve priv root (closedWords ' ' completed) with
    | some path => completed ++ keywordsText (singles priv (path.getLastD root))
    | none => completed
  else
    completed

def endMeaning (env : Env) (priv : Bool) (root : CparserNode) (path : List CparserNode) (ws : List (List Char))
    : Meaning :=
  match (path.getLastD root).children.find? fun child => child.type == .END && nodeUsable priv child with
  | some child =>
    let fn :=
      match child.param with
      | .glue fn => fn
      | _ => []
    .calls fn ((env.glue fn).bind fun nodes => arguments env.is_reg nodes ws)
  | none => .stops (if path.isEmpty then .OK else .ERR_INCOMP_CMD)

/-- The meaning of a line. -/
inductive Means (env : Env) (priv : Bool) (root : CparserNode) (text : List Char) : Meaning → Prop where
  | rejected (h : ¬Accepts priv root text) : Means env priv root text (.stops .ERR_PARSE_ERR)
  | unfinished (path : List CparserNode) (haccepts : Accepts priv root text)
    (hpath : resolve priv root (closedWords ' ' text) = some path) (hopen : openWord ' ' text ≠ [])
    (hword : wordChild priv (path.getLastD root) (openWord ' ' text) = none) :
    Means env priv root text (.stops .ERR_INCOMP_CMD)
  | line (path : List CparserNode) (haccepts : Accepts priv root text)
    (hopen : openWord ' ' (enteredText env priv root text) = [])
    (hpath : resolve priv root (closedWords ' ' (enteredText env priv root text)) = some path) :
    Means env priv root text (endMeaning env priv root path (closedWords ' ' (enteredText env priv root text)))

def executed (p : Cparser) : Cparser × CparserResult :=
  let p := (cparserRecordCommand p .OK).fsmReset
  (if p.user.isSome then p else cparserPrintPrompt p, .OK)

/-- An execution as the meaning of the line says, `none` when an assertion of the glue function fails. -/
def Executes (env : Env) (p : Cparser) (r : Option (Cparser × CparserResult)) : Meaning → Prop
  | .stops rc => ∃ q, r = some (q, rc) ∧ SameSettings p q
  | .calls _ none => r = none
  | .calls fn (some args) => ∃ q, SameSettings p q
    ∧ r = ((env.action ⟨fn, args⟩ q).foldlM ApiCall.run { q with called := p.called ++ [⟨fn, args⟩] }).map executed

structure Glues (nodes path : List CparserNode) : Prop where
  path_le : path <+: nodes
  leavesOut : ∀ node ∈ nodes.drop path.length, LeavesOut node

def Env.Glued (env : Env) (top : CparserNode) : Prop :=
  ∀ root path child, ModeRoot top root → WordPath root path → child ∈ (path.getLastD root).children →
    child.type = .END → ∃ fn nodes, child.param = .glue fn ∧ env.glue fn = some nodes ∧ Glues nodes path

theorem same_prints (p : Cparser) (s : List Char) : SameSettings p (p.prints s) := ⟨rfl, rfl, rfl, rfl, rfl, rfl⟩

theorem same_printPrompt (p : Cparser) : SameSettings p (cparserPrintPrompt p) := by
  unfold cparserPrintPrompt
  split
  . exact ⟨rfl, rfl, rfl, rfl, rfl, rfl⟩
  . exact ⟨rfl, rfl, rfl, rfl, rfl, rfl⟩

theorem same_reset (p : Cparser) (rc : CparserResult) : SameSettings p (cparserRecordCommand p rc).fsmReset :=
  ⟨rfl, rfl, rfl, rfl, rfl, rfl⟩

theorem same_notExecuted (p : Cparser) (rc : CparserResult) : SameSettings p (notExecuted p rc) := by
  unfold notExecuted
  dsimp only
  split
  . exact ((same_reset p rc).trans (same_prints _ _)).trans (same_printPrompt _)
  . exact (same_reset p rc).trans (same_printPrompt _)

theorem same_printError (p : Cparser) (msg : List Char) : SameSettings p (cparserPrintError p msg) :=
  (same_prints p ['\n']).trans (same_prints _ _)

/-- A configuration with a tree of commands, a new line neither completes nor asks for help. -/
structure CparserCfg.Sound (cfg : CparserCfg) : Prop where
  plain : cfg.Plain
  tree : cfg.root.Sound
  shallow : cfg.root.Shallow
  newline_ne_complete : '\n' ≠ cfg.ch_complete
  newline_ne_help : '\n' ≠ cfg.ch_help

theorem CparserCfg.Sound.grounded (hcfg : p.cfg.Sound) (hroot : ModeRoot p.cfg.root (p.root p.root_level)) : Grounded p :=
  ⟨hcfg.plain, hcfg.shallow, hroot⟩

theorem At.completeSingle {k : Nat} (h : At p text) (hcfg : p.cfg.Sound)
    (hroot : ModeRoot p.cfg.root (p.root p.root_level))
    (hpath : resolve p.is_privileged_mode (p.root p.root_level) (closedWords ' ' text) = some path)
    (hopen : openWord ' ' text = [])
    (hnodes : singles p.is_privileged_mode (path.getLastD (p.root p.root_level)) = nodes)
    (hroom : (text ++ keywordsText nodes).length ≤ CPARSER_MAX_LINE_SIZE - 1) (hk : nodes.length < k)
    : ∃ q, Client.completeSingle k p = some q ∧ Typing p q (text ++ keywordsText nodes) := by
  have hlast := resolve_within hpath hroot.within (by rw [hroot.type_eq]; decide)
  induction nodes generalizing p text path k with
  | nil =>
    cases k with
    | zero => contradiction
    | succ k =>
      have hparsed := After.parsed h ⟨path, hpath, by rw [hopen]; exact open_nil⟩ hpath
      refine ⟨p, ?_, by simpa [keywordsText] using ⟨SameSettings.refl p, h⟩⟩
      unfold Client.completeSingle
      rw [hparsed.cur_node]
      cases hchildren : (path.getLastD (p.root p.root_level)).children with
      | nil => exact absurd hchildren (hcfg.tree.children _ hlast.1 hlast.2)
      | cons child siblings =>
        dsimp only
        rw [if_neg]
        rintro ⟨htype, husable, rfl⟩
        exact not_single_of_singles hnodes ⟨child, hchildren, htype, husable⟩
  | cons child nodes ih =>
    cases k with
    | zero => contradiction
    | succ k =>
      have hparsed := After.parsed h ⟨path, hpath, by rw [hopen]; exact open_nil⟩ hpath
      have hsingle := single_of_singles hnodes
      have hchild : Within p.cfg.root child :=
        hlast.1.child (by rw [hsingle.children]; exact List.mem_singleton_self child)
      have hword := hcfg.tree.keyword child hchild hsingle.type_eq
      have htext : text ++ keywordsText (child :: nodes) = text ++ child.paramText ++ [' '] ++ keywordsText nodes := by
        rw [keywordsText, List.flatMap_cons, List.append_assoc, List.append_assoc, List.append_assoc]
        rfl
      have hlen : (text ++ child.paramText ++ [' ']).length ≤ CPARSER_MAX_LINE_SIZE - 1 := by
        rw [htext, List.length_append] at hroom
        exact Nat.le_trans (Nat.le_add_right _ _) hroom
      rcases h.inputWord (hcfg.grounded hroot) (hcfg.plain.keyword child hchild hsingle.type_eq) hlen
        with ⟨r, hr, hinput⟩
      have hstep : resolve p.is_privileged_mode (p.root p.root_level)
          (closedWords ' ' (text ++ child.paramText ++ [' '])) = some (path ++ [child]) := by
        apply resolve_append_word hpath
        . rwa [hopen]
        . rw [hopen]
          exact hsingle.led hword
      have hrest := ih (k := k) hinput.reached (hinput.same.cfg ▸ hcfg)
        (by rw [hinput.same.cfg, hinput.same.root, hinput.same.root_level]; exact hroot)
        (by rw [hinput.same.is_privileged_mode, hinput.same.root, hinput.same.root_level]; exact hstep)
        openWord_append_self
        (by rw [List.getLastD_concat, hinput.same.is_privileged_mode]; exact hsingle.rest_eq)
        (by rwa [htext] at hroom)
        (Nat.lt_of_succ_lt_succ hk)
        (by rw [List.getLastD_concat, hinput.same.cfg]; exact ⟨hchild, by rw [hsingle.type_eq]; decide⟩)
      rcases hrest with ⟨q, hq, htyping⟩
      refine ⟨q, ?_, hinput.same.trans htyping.same, htext ▸ htyping.reached⟩
      unfold Client.completeSingle
      rw [hparsed.cur_node, hsingle.children]
      dsimp only
      rw [if_pos ⟨hsingle.type_eq, hsingle.usable, rfl⟩]
      unfold cparserCompleteKeyword
      rw [hparsed.opened, hopen]
      change ((Client.inputText p child.paramText).bind fun p => (Client.inputRegular p ' ').bind _) = _
      rw [← Option.bind_assoc, hr]
      exact hq

theorem At.glueArgs (h : At p text)
    (hpath : resolve p.is_privileged_mode (p.root p.root_level) (closedWords ' ' text) = some path)
    (hopen : openWord ' ' text = []) (hglues : Glues nodes path)
    : Client.glueArgs env.is_reg p.fsm nodes 0 = arguments env.is_reg nodes (closedWords ' ' text) := by
  have hparsed := After.parsed h ⟨path, hpath, by rw [hopen]; exact open_nil⟩ hpath
  have hlen : path.length = (closedWords ' ' text).length := length_resolve hpath
  apply glueArgs_eq
  case hbuf =>
    intro i
    rw [Nat.zero_add]
    rcases Nat.lt_trichotomy i path.length with hlt | rfl | hgt
    . exact (hparsed.closed i hlt).1
    . have hopened := hparsed.opened
      rw [ParserFsm.curToken, hparsed.token_tos, hopen] at hopened
      rw [hopened, hlen, List.getD_eq_default _ _ (Nat.le_refl _)]
    . rw [After.blank h (by rwa [hparsed.token_tos]), List.getD_eq_default _ _ (by omega)]
      rfl
  case hnode =>
    intro i hi
    rw [← hlen] at hi
    rw [Nat.zero_add, (hparsed.closed i hi).2.2]
    rcases hglues.path_le with ⟨rest, rfl⟩
    exact (List.getElem?_append_left hi).symm
  case hlen => exact hlen ▸ hglues.path_le.length_le
  case htos => rw [hparsed.token_tos, hlen, Nat.zero_add]
  case hoptional => exact hlen ▸ hglues.leavesOut

theorem At.executeEnd (h : At p text) (env : Env) (path : List CparserNode) (hglue : env.Glued p.cfg.root)
    (hroot : ModeRoot p.cfg.root (p.root p.root_level))
    (hpath : resolve p.is_privileged_mode (p.root p.root_level) (closedWords ' ' text) = some path)
    (hopen : openWord ' ' text = [])
    : Executes env p (Client.executeEnd env p)
        (endMeaning env p.is_privileged_mode (p.root p.root_level) path (closedWords ' ' text)) := by
  have hparsed := After.parsed h ⟨path, hpath, by rw [hopen]; exact open_nil⟩ hpath
  unfold Client.executeEnd endMeaning
  rw [hparsed.cur_node, hparsed.token_tos]
  have husable (child : CparserNode) : p.usable child = nodeUsable p.is_privileged_mode child := rfl
  simp only [husable]
  cases hfind : (path.getLastD (p.root p.root_level)).children.find? fun child =>
      child.type == .END && nodeUsable p.is_privileged_mode child with
  | none =>
    dsimp only
    cases path with
    | nil => exact ⟨_, rfl, same_notExecuted p .OK⟩
    | cons node path => exact ⟨_, rfl, (same_printError p _).trans (same_notExecuted _ _)⟩
  | some child =>
    have hfound := List.find?_some hfind
    rw [Bool.and_eq_true, beq_iff_eq] at hfound
    rcases hglue _ path child hroot (wordPath_resolve hpath) (List.mem_of_find?_eq_some hfind) hfound.1
      with ⟨fn, nodes, hparam, hnodes, hglues⟩
    generalize hq : ({ p with fsm := { p.fsm with cur_node := child } }.printc '\n') = q
    have hsame : SameSettings p q := hq ▸ ⟨rfl, rfl, rfl, rfl, rfl, rfl⟩
    have hargs : Client.glueArgs env.is_reg q.fsm nodes 0 = arguments env.is_reg nodes (closedWords ' ' text) := by
      have hfsm : q.fsm = { p.fsm with cur_node := child } := by
        rw [← hq]
        rfl
      rw [hfsm, glueArgs_cur_node]
      exact h.glueArgs hpath hopen hglues
    dsimp only
    rw [hq, hparam]
    dsimp only
    unfold runGlue
    rw [hnodes, Option.bind_some]
    change Executes env p (((Client.glueArgs env.is_reg q.fsm nodes 0).bind _).bind _) _
    rw [hargs]
    cases arguments env.is_reg nodes (closedWords ' ' text) with
    | none => rfl
    | some args =>
      refine ⟨q, hsame, ?_⟩
      rw [Option.bind_some, hsame.called, Option.map_eq_bind]
      rfl

end Meaning

section Enter

variable {cfg : CparserCfg} {env : Env} {p : Cparser} {events : List (Env × Key)} {f g : ParserFsm}

end Enter

end SecFw.Client
