import SecFw.Client.Linked

/-!
This module contains the list of commands that the parser prints: a walk through the tree with a stack of
nodes prints the commands of the current mode one after the other, and the stack does not overflow. In a parser
that was generated from a grammar these are the lines of the grammar.
-/

namespace SecFw.Client

/-- `cparser_walker_fn` with the cookie of a walk, `none` when it fails or writes behind the end of an array. -/
abbrev WalkerFn (σ : Type) : Type := CparserNode → Cparser × σ → Option ((Cparser × σ) × CparserResult)

mutual

def cparserWalkInternal {σ : Type} (pre_fn post_fn : WalkerFn σ) : WalkerFn σ
  | .mk type flags param desc children, s => do
    let node := CparserNode.mk type flags param desc children
    let (s, rc) ← pre_fn node s
    if rc ≠ .OK then
      return (s, rc)
    let s ← if type ≠ .END then cparserWalkChildren pre_fn post_fn children s else some s
    post_fn node s

def cparserWalkChildren {σ : Type} (pre_fn post_fn : WalkerFn σ)
    : List CparserNode → Cparser × σ → Option (Cparser × σ)
  | [], s => some s
  | child :: children, s => do
    let (s, _) ← cparserWalkInternal pre_fn post_fn child s
    cparserWalkChildren pre_fn post_fn children s

end

structure HelpStack where
  -- `help_stack_t`, the nodes below `tos`
  filter : Option (List Char)
  nodes : List CparserNode

abbrev HELP_STACK_SIZE : Nat := CPARSER_MAX_NUM_TOKENS + 2

def strstr (s t : List Char) : Bool := decide (t <:+: s)

def cparserHelpPreWalker : WalkerFn HelpStack := fun node s =>
  if s.2.nodes.length < HELP_STACK_SIZE then some ((s.1, { s.2 with nodes := s.2.nodes ++ [node] }), .OK) else none

def helpMatches (filter : List Char) : List CparserNode → Option Bool
  | [] => some false
  | node :: nodes =>
    match node.type with
    | .LIST =>
      if node.paramList = [] then none
      else if node.paramList.any (strstr · filter) then some true
      else helpMatches filter nodes
    | .KEYWORD => if strstr node.paramText filter then some true else helpMatches filter nodes
    | _ => helpMatches filter nodes

def helpPrintWord (s : Cparser × Nat) (node : CparserNode) : Option (Cparser × Nat) :=
  if node.type = .ROOT ∨ node.type = .END then
    some s
  else do
    let (p, num_braces) := s
    let (p, num_braces) :=
      if .OPT_START ∈ node.flags then (p.prints ['{', ' '], num_braces + 1) else (p, num_braces)
    let p ← cparserHelpPrintNode p node false false
    let p := p.printc ' '
    some (if .OPT_END ∈ node.flags then p.prints (List.replicate num_braces ['}', ' ']).flatten else p, num_braces)

def helpDoPrint (p : Cparser) (hs : HelpStack) (node : CparserNode) : Option Bool :=
  -- `do_print` of `cparser_help_post_walker`
  match hs.filter with
  | some filter => (helpMatches filter hs.nodes).map (· && p.usable node)
  | none => some (p.usable node)

def helpPrintCommand (p : Cparser) (hs : HelpStack) (node : CparserNode) : Option Cparser := do
  let do_print ← helpDoPrint p hs node
  if do_print then
    let p :=
      match node.desc with
      | some desc => (p.prints desc).prints ['\r', '\n', ' ', ' ']
      | none => p.prints ['\r', ' ', ' ']
    (hs.nodes.foldlM helpPrintWord (p, 0)).map fun r => r.1.prints ['\r', '\n', '\n']
  else
    some p

def cparserHelpPostWalker : WalkerFn HelpStack := fun node s =>
  let (p, hs) := s
  (if node.type = .END ∧ .OPT_PARTIAL ∉ node.flags then helpPrintCommand p hs node else some p).map fun p =>
    ((p, { hs with nodes := hs.nodes.dropLast }), .OK)

section Commands

mutual

def endPaths : CparserNode → List (List CparserNode)
  | .mk type flags param desc children =>
    let node := CparserNode.mk type flags param desc children
    if type = .END then [[node]] else (endPathsAll children).map (node :: ·)

def endPathsAll : List CparserNode → List (List CparserNode)
  | [] => []
  | child :: children => endPaths child ++ endPathsAll children

end

def helpWords (priv : Bool) : Nat → List CparserNode → List Char
  | _, [] => []
  | num_braces, node :: nodes =>
    if node.type = .ROOT ∨ node.type = .END then
      helpWords priv num_braces nodes
    else
      let start := decide (.OPT_START ∈ node.flags)
      let num_braces := if start then num_braces + 1 else num_braces
      (if start then ['{', ' '] else []) ++ (if nodeUsable priv node then nodeText node false else []) ++ [' ']
        ++ (if .OPT_END ∈ node.flags then (List.replicate num_braces ['}', ' ']).flatten else [])
        ++ helpWords priv num_braces nodes

def helpHas (filter : List Char) (path : List CparserNode) : Bool :=
  path.any fun node =>
    match node.type with
    | .LIST => node.paramList.any (strstr · filter)
    | .KEYWORD => strstr node.paramText filter
    | _ => false

def helpShows (priv : Bool) (filter : Option (List Char)) (path : List CparserNode) : Bool :=
  path.getLast?.any fun node =>
    node.type = .END && .OPT_PARTIAL ∉ node.flags && nodeUsable priv node
      && filter.all fun filter => helpHas filter path

def helpText (priv : Bool) (filter : Option (List Char)) (path : List CparserNode) : List Char :=
  if helpShows priv filter path then
    (match path.getLast?.bind CparserNode.desc with
      | some desc => desc ++ ['\r', '\n', ' ', ' ']
      | none => ['\r', ' ', ' '])
      ++ helpWords priv 0 path ++ ['\r', '\n', '\n']
  else
    []

mutual

def helpHeight : CparserNode → Nat
  | .mk type _ _ _ children => if type = .END then 1 else helpHeightAll children + 1

def helpHeightAll : List CparserNode → Nat
  | [] => 0
  | child :: children => max (helpHeight child) (helpHeightAll children)

end

def helpTexts (priv : Bool) (filter : Option (List Char)) (nodes : List CparserNode)
    (paths : List (List CparserNode)) : List Char :=
  paths.flatMap fun path => helpText priv filter (nodes ++ path)

variable {p : Cparser} {filter : Option (List Char)} {node : CparserNode} {nodes : List CparserNode}
  {paths paths' : List (List CparserNode)} {priv : Bool}

@[simp]
theorem prints_nil (p : Cparser) : p.prints [] = p := by
  simp [Cparser.prints]

@[simp]
theorem prints_prints (p : Cparser) (s t : List Char) : (p.prints s).prints t = p.prints (s ++ t) := by
  simp [Cparser.prints]

@[simp]
theorem prints_priv (p : Cparser) (s : List Char) : (p.prints s).is_privileged_mode = p.is_privileged_mode := rfl

theorem helpTexts_append
    : helpTexts priv filter nodes (paths ++ paths') = helpTexts priv filter nodes paths ++ helpTexts priv filter nodes paths' :=
  List.flatMap_append

theorem helpTexts_cons
    : helpTexts priv filter nodes (paths.map (node :: ·)) = helpTexts priv filter (nodes ++ [node]) paths := by
  simp [helpTexts, List.flatMap_map]

def Filled (node : CparserNode) : Prop := node.type = .LIST → node.paramList ≠ []

theorem helpMatches_eq (filter : List Char) (h : ∀ node ∈ nodes, Filled node)
    : helpMatches filter nodes = some (helpHas filter nodes) := by
  induction nodes with
  | nil => rfl
  | cons node nodes ih =>
    rcases List.forall_mem_cons.mp h with ⟨hnode, hnodes⟩
    rw [helpMatches, helpHas, List.any_cons]
    have hrest := ih hnodes
    unfold helpHas at hrest
    cases htype : node.type with
    | LIST =>
      dsimp only
      rw [if_neg (hnode htype), hrest]
      cases node.paramList.any (strstr · filter) with
      | false => rfl
      | true => rfl
    | KEYWORD =>
      dsimp only
      rw [hrest]
      cases strstr node.paramText filter with
      | false => rfl
      | true => rfl
    | _ => exact hrest

theorem printNode_eq (p : Cparser) (hroot : node.type ≠ .ROOT) (hnode : Filled node)
    : cparserHelpPrintNode p node false false
      = some (p.prints (if nodeUsable p.is_privileged_mode node then nodeText node false else [])) := by
  have hasserts : ¬(node.type = .ROOT ∨ node.type = .LIST ∧ node.paramList = []) := by
    rintro (htype | ⟨htype, hnil⟩)
    . exact hroot htype
    . exact hnode htype hnil
  unfold cparserHelpPrintNode Cparser.usable
  rw [if_neg hasserts]
  cases nodeUsable p.is_privileged_mode node with
  | false => simp
  | true => rfl

theorem foldlM_helpPrintWord (p : Cparser) (num_braces : Nat) (h : ∀ node ∈ nodes, Filled node)
    : (nodes.foldlM helpPrintWord (p, num_braces)).map Prod.fst
      = some (p.prints (helpWords p.is_privileged_mode num_braces nodes)) := by
  induction nodes generalizing p num_braces with
  | nil => simp [helpWords]
  | cons node nodes ih =>
    rcases List.forall_mem_cons.mp h with ⟨hnode, hnodes⟩
    rw [List.foldlM_cons, helpWords]
    by_cases htype : node.type = .ROOT ∨ node.type = .END
    . rw [helpPrintWord, if_pos htype, if_pos htype]
      exact ih p num_braces hnodes
    . rw [helpPrintWord, if_neg htype, if_neg htype]
      have hroot : node.type ≠ .ROOT := fun heq => htype (.inl heq)
      by_cases hstart : NodeFlag.OPT_START ∈ node.flags <;> by_cases hend : NodeFlag.OPT_END ∈ node.flags
        <;> cases husable : nodeUsable p.is_privileged_mode node
      all_goals
        simp [hstart, hend, husable, printNode_eq _ hroot hnode, Cparser.printc, ih _ _ hnodes]

theorem helpText_concat
    : helpText priv filter (nodes ++ [node])
      = if node.type = .END ∧ .OPT_PARTIAL ∉ node.flags ∧ nodeUsable priv node
            ∧ filter.all (helpHas · (nodes ++ [node])) then
          ((node.desc.map (· ++ ['\r', '\n', ' ', ' '])).getD ['\r', ' ', ' '])
            ++ helpWords priv 0 (nodes ++ [node]) ++ ['\r', '\n', '\n']
        else
          [] := by
  have hshows : helpShows priv filter (nodes ++ [node]) = true ↔ node.type = .END ∧ .OPT_PARTIAL ∉ node.flags
      ∧ nodeUsable priv node ∧ filter.all (helpHas · (nodes ++ [node])) := by
    simp [helpShows, and_assoc]
  simp only [helpText, hshows, List.getLast?_concat, Option.bind_some]
  cases node.desc <;> rfl

theorem helpDoPrint_eq (p : Cparser) (node : CparserNode) (h : ∀ node ∈ nodes, Filled node)
    : helpDoPrint p ⟨filter, nodes⟩ node
      = some (nodeUsable p.is_privileged_mode node && filter.all (helpHas · nodes)) := by
  unfold helpDoPrint Cparser.usable
  cases filter with
  | none => simp
  | some filter =>
    dsimp only
    rw [helpMatches_eq filter h, Option.map_some, Bool.and_comm]
    rfl

theorem postWalker_eq (p : Cparser) (node : CparserNode) (h : ∀ n ∈ nodes ++ [node], Filled n)
    : cparserHelpPostWalker node (p, ⟨filter, nodes ++ [node]⟩)
      = some ((p.prints (helpText p.is_privileged_mode filter (nodes ++ [node])), ⟨filter, nodes⟩), .OK) := by
  rw [helpText_concat, cparserHelpPostWalker]
  dsimp only
  rw [List.dropLast_concat]
  by_cases hend : node.type = .END ∧ NodeFlag.OPT_PARTIAL ∉ node.flags
  case neg =>
    have hnot : ¬(node.type = .END ∧ .OPT_PARTIAL ∉ node.flags ∧ nodeUsable p.is_privileged_mode node
        ∧ filter.all (helpHas · (nodes ++ [node]))) := fun h => hend ⟨h.1, h.2.1⟩
    rw [if_neg hnot, if_neg hend, prints_nil]
    rfl
  case pos =>
    rw [if_pos hend, helpPrintCommand, helpDoPrint_eq p node h, Option.bind_eq_bind, Option.bind_some]
    by_cases hshown : (nodeUsable p.is_privileged_mode node && filter.all (helpHas · (nodes ++ [node]))) = true
    case neg =>
      rw [if_neg hshown, if_neg fun hshows => hshown (by rw [hshows.2.2.1, hshows.2.2.2]; rfl), prints_nil]
      rfl
    case pos =>
      rw [if_pos hshown]
      rw [Bool.and_eq_true] at hshown
      rw [if_pos ⟨hend.1, hend.2, hshown.1, hshown.2⟩]
      have hwords (q : Cparser) : ((nodes ++ [node]).foldlM helpPrintWord (q, 0)).map (fun r => r.1.prints ['\r', '\n', '\n'])
          = some ((q.prints (helpWords q.is_privileged_mode 0 (nodes ++ [node]))).prints ['\r', '\n', '\n']) := by
        rw [← Function.comp_def (fun q : Cparser => q.prints _) Prod.fst, ← Option.map_map, foldlM_helpPrintWord q 0 h]
        rfl
      cases node.desc with
      | none =>
        dsimp only
        rw [hwords, Option.map_some]
        simp
      | some desc =>
        dsimp only
        rw [hwords, Option.map_some]
        simp

theorem helpText_of_ne_end (h : node.type ≠ .END) : helpText priv filter (nodes ++ [node]) = [] := by
  rw [helpText_concat, if_neg fun hend => h hend.1]

theorem filled_children {children : List CparserNode} (h : ∀ n, Within node n → Filled n)
    (hchildren : node.children = children) : ∀ child ∈ children, ∀ n, Within child n → Filled n := by
  intro child hchild n hn
  have hfirst : Within node child := Within.child Relation.ReflTransGen.refl (hchildren ▸ hchild)
  exact h n (Relation.ReflTransGen.trans hfirst hn)

mutual

theorem walk_help (filter : Option (List Char))
    : ∀ (node : CparserNode) (p : Cparser) (nodes : List CparserNode), (∀ n ∈ nodes, Filled n) →
      (∀ n, Within node n → Filled n) →
      cparserWalkInternal cparserHelpPreWalker cparserHelpPostWalker node (p, ⟨filter, nodes⟩)
        = if nodes.length + helpHeight node ≤ HELP_STACK_SIZE then
            some ((p.prints (helpTexts p.is_privileged_mode filter nodes (endPaths node)), ⟨filter, nodes⟩), .OK)
          else
            none
  | .mk type flags param desc children, p, nodes, hnodes, hbelow => by
    have hstack : ∀ n ∈ nodes ++ [CparserNode.mk type flags param desc children], Filled n := by
      intro n hn
      rcases List.mem_append.mp hn with hn | hn
      . exact hnodes n hn
      . rw [List.mem_singleton.mp hn]
        exact hbelow _ Relation.ReflTransGen.refl
    rw [cparserWalkInternal, endPaths, helpHeight]
    by_cases hroom : nodes.length < HELP_STACK_SIZE
    case neg =>
      have hover : ¬nodes.length + (if type = .END then 1 else helpHeightAll children + 1) ≤ HELP_STACK_SIZE := by
        split <;> omega
      simp only [cparserHelpPreWalker]
      rw [if_neg hroom, if_neg hover]
      rfl
    case pos =>
      have hpush : (nodes ++ [CparserNode.mk type flags param desc children]).length ≤ HELP_STACK_SIZE := by
        rw [List.length_append]
        exact hroom
      simp only [cparserHelpPreWalker]
      rw [if_pos hroom]
      by_cases htype : type = .END
      case pos =>
        subst htype
        simp [postWalker_eq p _ hstack, helpTexts, Nat.succ_le_of_lt hroom]
      case neg =>
        simp only [htype, Option.bind_eq_bind, Option.bind_some, ne_eq, not_true_eq_false, if_false, not_false_eq_true,
          if_true, walkChildren_help filter children p _ hpush hstack (filled_children hbelow rfl)]
        have hlen : (nodes ++ [CparserNode.mk type flags param desc children]).length + helpHeightAll children
            = nodes.length + (helpHeightAll children + 1) := by
          rw [List.length_append, List.length_singleton]
          omega
        rw [hlen, helpTexts_cons]
        by_cases hfits : nodes.length + (helpHeightAll children + 1) ≤ HELP_STACK_SIZE
        case neg =>
          rw [if_neg hfits, if_neg hfits]
          rfl
        case pos =>
          have hnone : helpText p.is_privileged_mode filter (nodes ++ [.mk type flags param desc children]) = [] :=
            helpText_of_ne_end htype
          rw [if_pos hfits, if_pos hfits, Option.bind_some, postWalker_eq _ _ hstack, prints_prints, prints_priv, hnone,
            List.append_nil]

theorem walkChildren_help (filter : Option (List Char))
    : ∀ (children : List CparserNode) (p : Cparser) (nodes : List CparserNode), nodes.length ≤ HELP_STACK_SIZE →
      (∀ n ∈ nodes, Filled n) → (∀ child ∈ children, ∀ n, Within child n → Filled n) →
      cparserWalkChildren cparserHelpPreWalker cparserHelpPostWalker children (p, ⟨filter, nodes⟩)
        = if nodes.length + helpHeightAll children ≤ HELP_STACK_SIZE then
            some (p.prints (helpTexts p.is_privileged_mode filter nodes (endPathsAll children)), ⟨filter, nodes⟩)
          else
            none
  | [], p, nodes, h, hnodes, hbelow => by
    rw [cparserWalkChildren, endPathsAll, helpHeightAll, Nat.add_zero, if_pos h]
    simp [helpTexts]
  | child :: children, p, nodes, h, hnodes, hbelow => by
    rcases List.forall_mem_cons.mp hbelow with ⟨hfirst, hrest⟩
    rw [cparserWalkChildren, endPathsAll, helpHeightAll, walk_help filter child p nodes hnodes hfirst]
    by_cases hchild : nodes.length + helpHeight child ≤ HELP_STACK_SIZE
    case neg =>
      rw [if_neg hchild, if_neg (by omega)]
      rfl
    case pos =>
      rw [if_pos hchild]
      simp only [Option.bind_eq_bind, Option.bind_some]
      rw [walkChildren_help filter children _ nodes h hnodes hrest]
      by_cases hchildren : nodes.length + helpHeightAll children ≤ HELP_STACK_SIZE
      case neg => rw [if_neg hchildren, if_neg (by omega)]
      case pos =>
        rw [if_pos hchildren, if_pos (by omega), prints_prints, prints_priv, helpTexts_append]

end

theorem CparserNode.RootsBehindEnds.types {top root : CparserNode} {words : List CparserNode} (h : top.RootsBehindEnds)
    (hroot : Within top root) (hchain : List.IsChain (fun a b => b ∈ a.children) (root :: words))
    (htypes : ∀ a ∈ root :: words, a.type ≠ .END) : ∀ node ∈ words, node.type ≠ .END ∧ node.type ≠ .ROOT := by
  induction words generalizing root with
  | nil => exact fun _ h => absurd h List.not_mem_nil
  | cons a words ih =>
    rcases List.isChain_cons_cons.mp hchain with ⟨ha, hrest⟩
    rcases List.forall_mem_cons.mp htypes with ⟨hend, hwords⟩
    refine List.forall_mem_cons.mpr ⟨⟨hwords a (by simp), fun htype => ?_⟩, ih (hroot.child ha) hrest hwords⟩
    exact hend (h root a hroot ha htype)

theorem CparserCfg.Plain.filled {cfg : CparserCfg} (h : cfg.Plain) (hnode : Within cfg.root node)
    : ∀ n, Within node n → Filled n :=
  fun n hn htype => h.lists n (Relation.ReflTransGen.trans hnode hn) htype

example : (endPaths showTree).flatMap (helpText false none) = "\r  show \r\n\n".toList := by
  decide

end Commands

section Grammar

open LabelTree

variable {st : CliFile} {o : Outline} {paths : List (List GenNode)} {directives : List Directive} {t u : LabelTree GenNode}
  {pre words : List (LabelTree GenNode)} {c : Command} {root child : CparserNode} {path : List CparserNode}

/-- The words of a line with all its optional parts and the end behind them. -/
structure Command.Listed (c : Command) (st : CliFile) (o : Outline) (root : CparserNode) (words : List CparserNode)
    (child : CparserNode) : Prop extends c.Ends st o c.num_opt_start root words where
  type_eq : child.type = .END
  param_eq : child.param = .glue c.glue_fn
  flags : .OPT_PARTIAL ∉ child.flags

end Grammar

end SecFw.Client
