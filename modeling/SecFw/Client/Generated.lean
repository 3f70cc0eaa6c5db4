import SecFw.Client.Generator

/-!
This module contains what the generator makes of a grammar: what its lines say without a tree, and that the tree
has the words of the commands that are said and nothing else.
-/

namespace SecFw.Client

open TextCursor

section Parse

variable {s rest : List Char} {tt : Token} {n : GenNode} {st st' : LineState} {hidden : List NodeFlag}

structure NodeOk (n : GenNode) : Prop where
  keyword : n.type = .KEYWORD → validKeyword n.param = true
  list : n.type = .LIST → ∀ kw ∈ n.list_kw, validKeyword kw = true
  list_ne : n.type = .LIST → n.list_kw ≠ []

theorem validKeyword_iff : validKeyword s = true ↔ s ≠ [] ∧ ∀ c ∈ s, isKeywordChar c = true := by
  simp [validKeyword]

theorem validKeyword_of_isParamText (h : isParamText s = true) : validKeyword s = true := by
  unfold isParamText at h
  rw [Bool.and_eq_true] at h
  rw [validKeyword_iff]
  constructor
  . rintro rfl
    simp at h
  . intro c hc
    have hall := List.all_eq_true.mp h.2 c hc
    unfold isKeywordChar
    rw [hall, Bool.true_or]

theorem nodeOk_paramToken {type : NodeType} (htype : type ≠ .LIST) (h : paramToken type rest = .ok tt)
    (flags : List NodeFlag) : NodeOk ⟨tt.type, tt.param, tt.desc, flags, tt.list_kw⟩ := by
  unfold paramToken at h
  dsimp only at h
  split at h
  . next hok =>
    cases h
    rw [Bool.and_eq_true] at hok
    exact ⟨fun _ => validKeyword_of_isParamText hok.1, fun hlist => absurd hlist htype, fun hlist => absurd hlist htype⟩
  . split at h
    . contradiction
    . contradiction

theorem nodeOk_listToken (h : listToken s rest = .ok tt) (flags : List NodeFlag)
    : NodeOk ⟨tt.type, tt.param, tt.desc, flags, tt.list_kw⟩ := by
  unfold listToken at h
  dsimp only at h
  split at h
  . contradiction
  . split at h
    . contradiction
    . split at h
      . contradiction
      . next hfind =>
        cases h
        refine ⟨nofun, fun _ kw hkw => ?_, fun _ => List.splitOn_ne_nil _ _⟩
        have hvalid := List.find?_eq_none.mp hfind kw hkw
        simpa using hvalid

theorem nodeOk_token (h : Token.init s = .ok tt) (flags : List NodeFlag)
    : NodeOk ⟨tt.type, tt.param, tt.desc, flags, tt.list_kw⟩ := by
  unfold Token.init at h
  split at h
  . next hvalid =>
    cases h
    exact ⟨fun _ => hvalid, nofun, nofun⟩
  . dsimp only at h
    split at h
    . split at h
      . contradiction
      . split at h
        . contradiction
        . split at h
          . exact nodeOk_listToken h flags
          . next htype => exact nodeOk_paramToken htype h flags
    . contradiction

theorem NodeOk.flags (h : NodeOk n) (flags : List NodeFlag) : NodeOk { n with flags := flags } :=
  ⟨h.keyword, h.list, h.list_ne⟩

theorem nodesOk_last {flags : List NodeFlag} (h : ∀ n ∈ st.nodes, NodeOk n) (hlast : st.nodes.getLast? = some n)
    : ∀ m ∈ st.nodes.dropLast ++ [{ n with flags := flags }], NodeOk m := by
  intro m hm
  rcases List.mem_append.mp hm with hm | hm
  . exact h m (List.mem_of_mem_dropLast hm)
  . rw [List.mem_singleton.mp hm]
    exact (h n (List.mem_of_getLast? hlast)).flags flags

theorem nodesOk_lineToken {t : List Char} (h : ∀ n ∈ st.nodes, NodeOk n) (hstep : lineToken hidden st t = .ok st')
    : ∀ n ∈ st'.nodes, NodeOk n := by
  unfold lineToken at hstep
  split at hstep
  . cases hstep
    exact h
  . split at hstep
    . split at hstep
      . contradiction
      . next last hlast =>
        dsimp only at hstep
        split at hstep
        . split at hstep
          . cases hstep
            exact nodesOk_last h hlast
          . contradiction
        . cases hstep
          exact nodesOk_last h hlast
    . cases htoken : Token.init t with
      | error e =>
        rw [htoken] at hstep
        contradiction
      | ok tt =>
        rw [htoken] at hstep
        cases hstep
        intro n hn
        rcases List.mem_append.mp hn with hn | hn
        . exact h n hn
        . rw [List.mem_singleton.mp hn]
          exact nodeOk_token htoken _

theorem nodesOk_lineTokens {ts : List (List Char)} (h : ∀ n ∈ st.nodes, NodeOk n)
    (hrun : ts.foldlM (lineToken hidden) st = .ok st') : ∀ n ∈ st'.nodes, NodeOk n := by
  induction ts generalizing st with
  | nil =>
    cases hrun
    exact h
  | cons t ts ih =>
    rw [List.foldlM_cons] at hrun
    cases hstep : lineToken hidden st t with
    | error e =>
      rw [hstep] at hrun
      contradiction
    | ok st'' =>
      rw [hstep] at hrun
      exact ih (nodesOk_lineToken h hstep) hrun

structure Parses (mode : List GenNode) (mode_param : List Char) (c : Command) : Prop where
  mode : c.mode = mode
  mode_param : c.mode_param = mode_param
  nodes : ∀ n ∈ c.nodes, NodeOk n
  hidden : .OPT_PARTIAL ∉ c.hidden_flag

theorem parses_parseLine {mode : List GenNode} {mode_param line : List Char} {comment : Option (List Char)}
    {c : Command} (h : parseLine mode mode_param line comment = .ok (some c)) : Parses mode mode_param c := by
  unfold parseLine at h
  split at h
  . cases h
  . next first rest _ =>
    dsimp only at h
    cases hrun : (if first = ['+'] then rest
        else if first.head? = some '+' then List.drop 1 first :: rest else first :: rest).foldlM
          (lineToken (if first.head? = some '+' then [.HIDDEN] else [])) ⟨[], false, 0, 0⟩ with
    | error e =>
      rw [hrun] at h
      contradiction
    | ok st =>
      rw [hrun] at h
      cases h
      refine ⟨rfl, rfl, nodesOk_lineTokens (fun _ hn => absurd hn List.not_mem_nil) hrun, ?_⟩
      dsimp only
      split
      . decide
      . exact List.not_mem_nil

end Parse

section Cut

variable {n : GenNode} {nodes : List GenNode} {k : Nat}

theorem cutNodes_le (k : Nat) (nodes : List GenNode) : cutNodes k nodes <+: nodes := by
  induction nodes generalizing k with
  | nil => exact List.prefix_rfl
  | cons n nodes ih =>
    unfold cutNodes
    split
    . cases k with
      | zero => exact List.nil_prefix
      | succ k => exact List.cons_prefix_cons.mpr ⟨rfl, ih k⟩
    . exact List.cons_prefix_cons.mpr ⟨rfl, ih k⟩

def starts (nodes : List GenNode) : Nat := nodes.countP fun n => NodeFlag.OPT_START ∈ n.flags

theorem starts_cons
    : starts (n :: nodes) = starts nodes + if NodeFlag.OPT_START ∈ n.flags then 1 else 0 := by
  unfold starts
  rw [List.countP_cons]
  simp

theorem cutNodes_of_le (h : starts nodes ≤ k) : cutNodes k nodes = nodes := by
  induction nodes generalizing k with
  | nil => rfl
  | cons n nodes ih =>
    rw [starts_cons] at h
    unfold cutNodes
    split
    . next hstart =>
      rw [if_pos hstart] at h
      cases k with
      | zero => contradiction
      | succ k => exact congrArg (n :: ·) (ih (Nat.le_of_succ_le_succ h))
    . next hstart =>
      rw [if_neg hstart] at h
      rw [ih h]

theorem exists_start_of_lt (h : k < starts nodes)
    : ∃ n rest, nodes = cutNodes k nodes ++ n :: rest ∧ NodeFlag.OPT_START ∈ n.flags := by
  induction nodes generalizing k with
  | nil => contradiction
  | cons n nodes ih =>
    rw [starts_cons] at h
    unfold cutNodes
    split
    . next hstart =>
      rw [if_pos hstart] at h
      cases k with
      | zero => exact ⟨n, nodes, rfl, hstart⟩
      | succ k =>
        rcases ih (Nat.lt_of_succ_lt_succ h) with ⟨m, rest, heq, hm⟩
        exact ⟨m, rest, congrArg (n :: ·) heq, hm⟩
    . next hstart =>
      rw [if_neg hstart] at h
      rcases ih h with ⟨m, rest, heq, hm⟩
      exact ⟨m, rest, congrArg (n :: ·) heq, hm⟩

theorem exists_start_of_length_le {front rest : List GenNode} (h : nodes = front ++ n :: rest)
    (hle : (cutNodes k nodes).length ≤ front.length) : ∃ s ∈ front ++ [n], NodeFlag.OPT_START ∈ s.flags := by
  have hlt : k < starts nodes := by
    by_contra hnot
    rw [cutNodes_of_le (Nat.le_of_not_lt hnot), h, List.length_append, List.length_cons] at hle
    omega
  rcases exists_start_of_lt hlt with ⟨s, behind, hstart, hflag⟩
  have hcut : (cutNodes k nodes ++ [s]) <+: nodes := ⟨behind, by rw [List.append_assoc]; exact hstart.symm⟩
  have hfront : (front ++ [n]) <+: nodes := ⟨rest, by rw [List.append_assoc]; exact h.symm⟩
  have hlen : (cutNodes k nodes ++ [s]).length ≤ (front ++ [n]).length := by
    rw [List.length_append, List.length_append]
    exact Nat.succ_le_succ hle
  have hsub := (List.prefix_of_prefix_length_le hcut hfront hlen).subset
  exact ⟨s, hsub (List.mem_append_right _ (List.mem_singleton_self s)), hflag⟩

end Cut

section Provenance

abbrev keysOf (path : List GenNode) : List (NodeType × List Char) := path.map GenNode.key

/-- Where a node of the tree comes from that keys lead to. -/
inductive Provenance (cmds : List Command) (subs : List (List GenNode))
    : List (NodeType × List Char) → GenNode → Prop where
  | word (c : Command) (front : List GenNode) (n : GenNode) (rest : List GenNode) (hc : c ∈ cmds)
    (hnodes : c.nodes = front ++ n :: rest) : Provenance cmds subs (keysOf (c.mode ++ front ++ [n])) n
  | ends (c : Command) (k : Nat) (hc : c ∈ cmds) (hk : k ≤ c.num_opt_start) :
    Provenance cmds subs (keysOf (c.path k)) (c.endNode k)
  | mode (path : List GenNode) (name : List Char) (hmem : path ++ [modeRoot name] ∈ subs) :
    Provenance cmds subs (keysOf (path ++ [modeRoot name])) (modeRoot name)

def Traced (cmds : List Command) (subs : List (List GenNode)) (path : List GenNode) : Prop :=
  ∀ front n rest, path = front ++ n :: rest → Provenance cmds subs (keysOf (front ++ [n])) n

variable {cmds cmds' : List Command} {subs subs' : List (List GenNode)} {path front : List GenNode}
  {n : GenNode} {c : Command} {k : Nat} {ks : List (NodeType × List Char)}

theorem Provenance.mono (h : Provenance cmds subs ks n) (hcmds : cmds ⊆ cmds') (hsubs : subs ⊆ subs')
    : Provenance cmds' subs' ks n := by
  cases h with
  | word c front n rest hc hnodes => exact .word c front n rest (hcmds hc) hnodes
  | ends c k hc hk => exact .ends c k (hcmds hc) hk
  | mode path name hmem => exact .mode path name (hsubs hmem)

theorem Traced.mono (h : Traced cmds subs path) (hcmds : cmds ⊆ cmds') (hsubs : subs ⊆ subs')
    : Traced cmds' subs' path :=
  fun front n rest heq => (h front n rest heq).mono hcmds hsubs

theorem traced_nil : Traced cmds subs [] := by
  intro front n rest heq
  simp at heq

theorem Traced.concat (h : Traced cmds subs path) (hn : Provenance cmds subs (keysOf (path ++ [n])) n)
    : Traced cmds subs (path ++ [n]) := by
  intro front m rest heq
  rcases List.eq_nil_or_concat rest with rfl | ⟨rest, last, rfl⟩
  . rcases List.append_inj' heq rfl with ⟨rfl, hm⟩
    cases hm
    exact hn
  . rw [List.concat_eq_append, ← List.cons_append, ← List.append_assoc] at heq
    exact h front m rest (List.append_inj' heq rfl).1

theorem traced_path (hc : c ∈ cmds) (hk : k ≤ c.num_opt_start) (hmode : Traced cmds subs c.mode)
    : Traced cmds subs (c.path k) := by
  have hfront {front : List GenNode} (hle : front <+: c.nodes) : Traced cmds subs (c.mode ++ front) := by
    induction front using List.reverseRecOn with
    | nil => rwa [List.append_nil]
    | append_singleton front n ih =>
      rcases hle with ⟨rest, hrest⟩
      rw [← List.append_assoc]
      apply (ih ⟨n :: rest, by rw [← hrest, List.append_assoc]; rfl⟩).concat
      exact .word c front n rest hc (by rw [← hrest, List.append_assoc]; rfl)
  exact (hfront (cutNodes_le k c.nodes)).concat (.ends c k hc hk)

end Provenance

section Outline

variable {c c' : Command} {d : Directive} {path : List GenNode} {directives : List Directive}

def Command.paths (c : Command) : List (List GenNode) := (List.range (c.num_opt_start + 1)).map c.path

theorem mem_commandPaths : path ∈ c.paths ↔ ∃ k ≤ c.num_opt_start, path = c.path k := by
  simp only [Command.paths, List.mem_map, List.mem_range, Nat.lt_succ_iff]
  constructor
  . rintro ⟨k, hk, rfl⟩
    exact ⟨k, hk, rfl⟩
  . rintro ⟨k, hk, rfl⟩
    exact ⟨k, hk, rfl⟩

def begins (paths : List (List GenNode)) (path : List GenNode) : Bool :=
  paths.any fun p => decide (keysOf path <+: keysOf p)

structure Outline where
  commands : List Command
  submodes : List (List GenNode)
  mode : CliMode
  last : NodeRef

namespace Outline

variable {o : Outline}

def paths (o : Outline) : List (List GenNode) := o.commands.flatMap Command.paths ++ o.submodes

def endOf (o : Outline) (c : Command) : NodeRef :=
  if begins (o.paths ++ (List.range c.num_opt_start).map c.path) (c.path c.num_opt_start) then .detached
  else .inserted (c.path c.num_opt_start)

def add (o : Outline) (c : Command) : Outline :=
  match o.mode with
  | .lost _ => { o with last := .detached }
  | _ => { o with commands := o.commands ++ [c], last := o.endOf c }

def enter (o : Outline) (name : List Char) : Outline :=
  match o.mode, o.last with
  | .top, .inserted path =>
    if begins o.paths (path ++ [modeRoot name]) then { o with mode := .lost ('_' :: name) }
    else
      { o with
        mode := .submode (path ++ [modeRoot name]) ('_' :: name)
        submodes := o.submodes ++ [path ++ [modeRoot name]] }
  | .top, _ => { o with mode := .lost ('_' :: name) }
  | _, _ => o

def said (mode : CliMode) (line : List Char) (comment : Option (List Char)) : Option Command :=
  match mode with
  | .top => (parseLine [] [] line comment).toOption.join
  | .submode path param => (parseLine path param line comment).toOption.join
  | .lost param => (parseLine [] param line comment).toOption.join

def read (o : Outline) : Directive → Outline
  | .command line comment =>
    match said o.mode line comment with
    | none => o
    | some c => o.add c
  | .submode name => o.enter name
  | .endsubmode => { o with mode := .top }

def Says (o : Outline) (d : Directive) (c : Command) : Prop :=
  ∃ line comment, d = .command line comment ∧ said o.mode line comment = some c ∧ ∀ param, o.mode ≠ .lost param

def Opens (o : Outline) (d : Directive) (path : List GenNode) : Prop :=
  ∃ name front, d = .submode name ∧ o.mode = .top ∧ o.last = .inserted front ∧ path = front ++ [modeRoot name]
    ∧ begins o.paths path = false

theorem mem_commands_add : c ∈ (o.add c').commands ↔ c ∈ o.commands ∨ c = c' ∧ ∀ param, o.mode ≠ .lost param := by
  unfold add
  split
  . next param hmode => simp [hmode]
  . next hnot =>
    have hlost : ∀ param, o.mode ≠ .lost param := fun param hmode => hnot param hmode
    simp [hlost]

theorem mem_commands_read : c ∈ (o.read d).commands ↔ c ∈ o.commands ∨ o.Says d c := by
  unfold Says
  cases d with
  | command line comment =>
    unfold read
    dsimp only
    cases hsaid : said o.mode line comment with
    | none => simp [hsaid]
    | some c' => simp [hsaid, mem_commands_add, eq_comm]
  | submode name =>
    have hsame : (o.enter name).commands = o.commands := by
      unfold enter
      split
      . split
        . rfl
        . rfl
      . rfl
      . rfl
    simp [read, hsame]
  | endsubmode => simp [read]

theorem mem_submodes_enter {name : List Char}
    : path ∈ (o.enter name).submodes
        ↔
      path ∈ o.submodes ∨ ∃ front, o.mode = .top ∧ o.last = .inserted front ∧ path = front ++ [modeRoot name]
        ∧ begins o.paths path = false := by
  unfold enter
  split
  . next front hmode hlast =>
    cases hbegins : begins o.paths (front ++ [modeRoot name]) with
    | false =>
      rw [if_neg Bool.false_ne_true, List.mem_append, List.mem_singleton, hmode, hlast]
      constructor
      . rintro (hmem | rfl)
        . exact .inl hmem
        . exact .inr ⟨front, rfl, rfl, rfl, hbegins⟩
      . rintro (hmem | ⟨front', -, hfront, rfl, -⟩)
        . exact .inl hmem
        . cases hfront
          exact .inr rfl
    | true =>
      rw [if_pos rfl, hlast]
      constructor
      . exact .inl
      . rintro (hmem | ⟨front', -, hfront, rfl, hnew⟩)
        . exact hmem
        . cases hfront
          rw [hbegins] at hnew
          contradiction
  . next hmode hnot =>
    constructor
    . exact .inl
    . rintro (hmem | ⟨front, -, hlast, -⟩)
      . exact hmem
      . exact absurd hlast (hnot front)
  . next hmode hnot =>
    constructor
    . exact .inl
    . rintro (hmem | ⟨front, htop, -⟩)
      . exact hmem
      . exact absurd htop hmode

theorem mem_submodes_read : path ∈ (o.read d).submodes ↔ path ∈ o.submodes ∨ o.Opens d path := by
  unfold Opens
  cases d with
  | command line comment =>
    have hadd (c : Command) : (o.add c).submodes = o.submodes := by
      unfold add
      split
      . rfl
      . rfl
    have hsame : (o.read (.command line comment)).submodes = o.submodes := by
      unfold read
      dsimp only
      split
      . rfl
      . exact hadd _
    simp [hsame]
  | submode name =>
    change path ∈ (o.enter name).submodes ↔ _
    rw [mem_submodes_enter]
    simp
  | endsubmode => simp [read]

end Outline

def outline (directives : List Directive) : Outline := directives.foldl Outline.read ⟨[], [], .top, .missing⟩

theorem outline_concat : outline (directives ++ [d]) = (outline directives).read d := by
  unfold outline
  rw [List.foldl_append, List.foldl_cons, List.foldl_nil]

theorem exists_line_concat {P : List Directive → Directive → Prop}
    : (∃ before line after, directives ++ [d] = before ++ line :: after ∧ P before line)
        ↔
      (∃ before line after, directives = before ++ line :: after ∧ P before line) ∨ P directives d := by
  constructor
  . rintro ⟨before, line, after, heq, h⟩
    rcases List.eq_nil_or_concat after with rfl | ⟨after, last, rfl⟩
    . rcases List.append_inj' heq rfl with ⟨rfl, hline⟩
      cases hline
      exact .inr h
    . rw [List.concat_eq_append, ← List.cons_append, ← List.append_assoc] at heq
      exact .inl ⟨before, line, after, (List.append_inj' heq rfl).1, h⟩
  . rintro (⟨before, line, after, rfl, h⟩ | h)
    . exact ⟨before, line, after ++ [d], by rw [List.append_assoc]; rfl, h⟩
    . exact ⟨directives, d, [], rfl, h⟩

theorem mem_commands_outline
    : c ∈ (outline directives).commands
        ↔
      ∃ before line after, directives = before ++ line :: after ∧ (outline before).Says line c := by
  induction directives using List.reverseRecOn with
  | nil => simp [outline]
  | append_singleton directives d ih => rw [outline_concat, Outline.mem_commands_read, exists_line_concat, ih]

theorem mem_submodes_outline
    : path ∈ (outline directives).submodes
        ↔
      ∃ before line after, directives = before ++ line :: after ∧ (outline before).Opens line path := by
  induction directives using List.reverseRecOn with
  | nil => simp [outline]
  | append_singleton directives d ih => rw [outline_concat, Outline.mem_submodes_read, exists_line_concat, ih]

example : (outline [.command "up".toList none, .command "up".toList none, .submode "m".toList,
    .command "exit".toList none, .endsubmode, .command "down".toList none]).commands.map (fun c => keysOf c.nodes)
      = [[(.KEYWORD, "up".toList)], [(.KEYWORD, "up".toList)], [(.KEYWORD, "down".toList)]] := by
  decide +kernel

end Outline

section Files

variable {st st' : CliFile} {o : Outline} {paths : List (List GenNode)} {c : Command} {param : List Char}
  {path mode : List GenNode} {d : Directive}

def insertAll (paths : List (List GenNode)) : LabelTree GenNode :=
  paths.foldl (fun t path => t.insert GenNode.key path) (.node treeRoot [])

theorem insertAll_append (paths paths' : List (List GenNode))
    : insertAll (paths ++ paths') = paths'.foldl (fun t path => t.insert GenNode.key path) (insertAll paths) :=
  List.foldl_append

theorem descend_insertAll_isSome {ks : List (NodeType × List Char)} (hks : ks ≠ [])
    : ((insertAll paths).descend GenNode.key ks).isSome ↔ ∃ path ∈ paths, ks <+: keysOf path := by
  have hfirst : ((insertAll paths).descend GenNode.key ks).map LabelTree.data
      = (paths.find? fun path => ks <+: keysOf path).bind (·[ks.length - 1]?) :=
    LabelTree.descend_insertAll paths hks treeRoot
  have heq := congrArg Option.isSome hfirst
  rw [Option.isSome_map] at heq
  rw [heq]
  constructor
  . intro hsome
    rcases Option.isSome_iff_exists.mp hsome with ⟨a, ha⟩
    rcases Option.bind_eq_some_iff.mp ha with ⟨path, hfind, -⟩
    exact ⟨path, List.mem_of_find?_eq_some hfind, by simpa using List.find?_some hfind⟩
  . rintro ⟨path, hpath, hle⟩
    cases hfind : paths.find? fun path => ks <+: keysOf path with
    | none =>
      have hnot := List.find?_eq_none.mp hfind path hpath
      exact absurd hle (by simpa using hnot)
    | some first =>
      have hle : ks <+: keysOf first := by simpa using List.find?_some hfind
      have hlt : ks.length - 1 < first.length := by
        have hlen := hle.length_le
        have hpos := List.length_pos_of_ne_nil hks
        rw [List.length_map] at hlen
        omega
      rw [Option.bind_some, List.getElem?_eq_getElem hlt, Option.isSome_some]

theorem descend_insertAll_begins (hpath : path ≠ [])
    : ((insertAll paths).descend GenNode.key (keysOf path)).isSome = begins paths path := by
  rw [Bool.eq_iff_iff, descend_insertAll_isSome (by simpa using hpath)]
  simp [begins]

inductive IsMode (subs : List (List GenNode)) : List GenNode → List Char → Prop where
  | top : IsMode subs [] []
  | submode (front : List GenNode) (name : List Char) (hmem : front ++ [modeRoot name] ∈ subs) :
    IsMode subs (front ++ [modeRoot name]) ('_' :: name)

theorem IsMode.mono {subs subs' : List (List GenNode)} (h : IsMode subs mode param) (hsubs : subs ⊆ subs')
    : IsMode subs' mode param := by
  cases h with
  | top => exact .top
  | submode front name hmem => exact .submode front name (hsubs hmem)

structure Built (st : CliFile) (o : Outline) (paths : List (List GenNode)) : Prop where
  root_eq : st.root = insertAll paths
  traced : ∀ path ∈ paths, Traced o.commands o.submodes path
  commands : ∀ c ∈ o.commands, ∀ k ≤ c.num_opt_start, c.path k ∈ paths
  submodes : ∀ path ∈ o.submodes, path ∈ paths
  only : ∀ path ∈ paths, (∃ c ∈ o.commands, ∃ k ≤ c.num_opt_start, path = c.path k) ∨ path ∈ o.submodes
  modes : ∀ c ∈ o.commands, IsMode o.submodes c.mode c.mode_param
  nodes : ∀ c ∈ o.commands, ∀ n ∈ c.nodes, NodeOk n
  hidden : ∀ c ∈ o.commands, .OPT_PARTIAL ∉ c.hidden_flag

theorem Built.mem_paths (h : Built st o paths) : path ∈ o.paths ↔ path ∈ paths := by
  unfold Outline.paths
  rw [List.mem_append, List.mem_flatMap]
  simp only [mem_commandPaths]
  constructor
  . rintro (⟨c, hc, k, hk, rfl⟩ | hsub)
    . exact h.commands c hc k hk
    . exact h.submodes path hsub
  . exact h.only path

theorem begins_congr {paths' : List (List GenNode)} (h : ∀ p, p ∈ paths ↔ p ∈ paths')
    : begins paths path = begins paths' path := by
  rw [Bool.eq_iff_iff]
  simp only [begins, List.any_eq_true, h]

def NodeRef.Within (paths : List (List GenNode)) : NodeRef → Prop
  | .missing => True
  | .detached => True
  | .inserted path => path ∈ paths

theorem NodeRef.Within.mono {paths' : List (List GenNode)} {r : NodeRef} (h : r.Within paths) (hle : paths ⊆ paths')
    : r.Within paths' := by
  cases r with
  | missing => trivial
  | detached => trivial
  | inserted path => exact hle h

def CliMode.Within (subs : List (List GenNode)) : CliMode → Prop
  | .top => True
  | .submode path param => IsMode subs path param
  | .lost _ => True

structure FileInv (st : CliFile) (o : Outline) (paths : List (List GenNode)) : Prop extends Built st o paths where
  mode_eq : st.mode = o.mode
  end_eq : st.end_node = o.last
  last_eq : o.mode = .top → st.last_cli_end = .missing ∨ st.last_cli_end = o.last
  last_within : o.last.Within paths
  mode_within : o.mode.Within o.submodes

theorem addCommand_root (root : LabelTree GenNode) (c : Command)
    : (addCommand root c).1 = c.paths.foldl (fun t path => t.insert GenNode.key path) root := by
  rw [Command.paths, List.range_succ, List.map_append, List.foldl_append, List.map_singleton, List.foldl_cons,
    List.foldl_nil, List.foldl_map]
  rfl

theorem addCommand_end (h : Built st o paths) (c : Command) : (addCommand st.root c).2 = o.endOf c := by
  have hroot : (List.range c.num_opt_start).foldl (fun root k => root.insert GenNode.key (c.path k)) st.root
      = insertAll (paths ++ (List.range c.num_opt_start).map c.path) := by
    rw [insertAll_append, h.root_eq, List.foldl_map]
  have hpath : c.path c.num_opt_start ≠ [] := by simp [Command.path]
  have hbegins : begins (o.paths ++ (List.range c.num_opt_start).map c.path) (c.path c.num_opt_start)
      = begins (paths ++ (List.range c.num_opt_start).map c.path) (c.path c.num_opt_start) :=
    begins_congr fun p => by rw [List.mem_append, List.mem_append, h.mem_paths]
  unfold addCommand Outline.endOf
  dsimp only
  rw [hroot, hbegins, ← descend_insertAll_begins hpath]
  cases (insertAll _).descend GenNode.key (keysOf (c.path c.num_opt_start)) with
  | none => rfl
  | some t => rfl

theorem endOf_within (o : Outline) (hpath : c.path c.num_opt_start ∈ paths) : (o.endOf c).Within paths := by
  unfold Outline.endOf
  split
  . trivial
  . exact hpath

theorem Built.addCommand (h : Built st o paths) (hmode : IsMode o.submodes mode param) (hc : Parses mode param c)
    (hroot : st'.root = (Client.addCommand st.root c).1) (last : NodeRef)
    : Built st' { o with commands := o.commands ++ [c], last := last } (paths ++ c.paths) := by
  have hcmode : IsMode o.submodes c.mode c.mode_param := by rwa [hc.mode, hc.mode_param]
  have hsub : o.commands ⊆ o.commands ++ [c] := List.subset_append_left _ _
  have htraced : Traced (o.commands ++ [c]) o.submodes c.mode := by
    generalize c.mode = m at hcmode
    generalize c.mode_param = mp at hcmode
    cases hcmode with
    | top => exact traced_nil
    | submode front name hmem => exact (h.traced _ (h.submodes _ hmem)).mono hsub (List.Subset.refl _)
  constructor
  case root_eq => rw [hroot, addCommand_root, h.root_eq, insertAll_append]
  case traced =>
    intro path hpath
    rcases List.mem_append.mp hpath with hpath | hpath
    . exact (h.traced path hpath).mono hsub (List.Subset.refl _)
    . rcases mem_commandPaths.mp hpath with ⟨k, hk, rfl⟩
      exact traced_path (List.mem_append_right _ (List.mem_singleton_self c)) hk htraced
  case commands =>
    intro c' hc' k hk
    rcases List.mem_append.mp hc' with hc' | hc'
    . exact List.mem_append_left _ (h.commands c' hc' k hk)
    . cases List.mem_singleton.mp hc'
      exact List.mem_append_right _ (mem_commandPaths.mpr ⟨k, hk, rfl⟩)
  case submodes => exact fun path hpath => List.mem_append_left _ (h.submodes path hpath)
  case only =>
    intro path hpath
    rcases List.mem_append.mp hpath with hpath | hpath
    . exact (h.only path hpath).imp_left fun ⟨c', hc', k, hk⟩ => ⟨c', hsub hc', k, hk⟩
    . exact .inl ⟨c, List.mem_append_right _ (List.mem_singleton_self c), mem_commandPaths.mp hpath⟩
  case modes =>
    intro c' hc'
    rcases List.mem_append.mp hc' with hc' | hc'
    . exact h.modes c' hc'
    . cases List.mem_singleton.mp hc'
      exact hcmode
  case nodes =>
    intro c' hc'
    rcases List.mem_append.mp hc' with hc' | hc'
    . exact h.nodes c' hc'
    . cases List.mem_singleton.mp hc'
      exact hc.nodes
  case hidden =>
    intro c' hc'
    rcases List.mem_append.mp hc' with hc' | hc'
    . exact h.hidden c' hc'
    . cases List.mem_singleton.mp hc'
      exact hc.hidden

theorem Built.addSubmode (h : Built st o paths) (name : List Char) (hpath : path ∈ paths)
    (hroot : st'.root = st.root.insert GenNode.key (path ++ [modeRoot name])) (mode : CliMode)
    : Built st' { o with mode := mode, submodes := o.submodes ++ [path ++ [modeRoot name]] }
        (paths ++ [path ++ [modeRoot name]]) := by
  have hsub : o.submodes ⊆ o.submodes ++ [path ++ [modeRoot name]] := List.subset_append_left _ _
  constructor
  case root_eq =>
    rw [hroot, h.root_eq, insertAll_append]
    rfl
  case traced =>
    intro p hp
    rcases List.mem_append.mp hp with hp | hp
    . exact (h.traced p hp).mono (List.Subset.refl _) hsub
    . cases List.mem_singleton.mp hp
      apply ((h.traced path hpath).mono (List.Subset.refl _) hsub).concat
      exact .mode path name (List.mem_append_right _ (List.mem_singleton_self _))
  case commands => exact fun c hc k hk => List.mem_append_left _ (h.commands c hc k hk)
  case submodes =>
    intro p hp
    rcases List.mem_append.mp hp with hp | hp
    . exact List.mem_append_left _ (h.submodes p hp)
    . exact List.mem_append_right _ hp
  case only =>
    intro p hp
    rcases List.mem_append.mp hp with hp | hp
    . exact (h.only p hp).imp_right fun hmem => hsub hmem
    . exact .inr (List.mem_append_right _ hp)
  case modes => exact fun c hc => (h.modes c hc).mono hsub
  case nodes => exact h.nodes
  case hidden => exact h.hidden

theorem FileInv.adds (h : FileInv st o paths) (hmode : IsMode o.submodes mode param) (hc : Parses mode param c)
    (hlost : ∀ param, o.mode ≠ .lost param) (hroot : st'.root = (addCommand st.root c).1)
    (hend : st'.end_node = (addCommand st.root c).2) (hmode' : st'.mode = st.mode)
    (hlast : o.mode = .top → st'.last_cli_end = (addCommand st.root c).2)
    : FileInv st' (o.add c) (paths ++ c.paths) := by
  have hadd : o.add c = { o with commands := o.commands ++ [c], last := o.endOf c } := by
    unfold Outline.add
    split
    . next param heq => exact absurd heq (hlost param)
    . rfl
  have hbuilt := h.toBuilt.addCommand hmode hc hroot (o.endOf c)
  have hsaid := hbuilt.commands c (List.mem_append_right _ (List.mem_singleton_self c)) _ (Nat.le_refl _)
  rw [addCommand_end h.toBuilt] at hend hlast
  rw [hadd]
  exact ⟨hbuilt, hmode'.trans h.mode_eq, hend, fun htop => .inr (hlast htop), endOf_within o hsaid, h.mode_within⟩

theorem FileInv.command {line : List Char} {comment : Option (List Char)} (h : FileInv st o paths)
    (hrun : processLine st (.command line comment) = .ok st')
    : ∃ paths', FileInv st' (o.read (.command line comment)) paths' := by
  rcases st with ⟨root, end_node, last_cli_end, mode⟩
  rcases o with ⟨commands, submodes, mode, last⟩
  cases h.mode_eq
  cases h.end_eq
  unfold processLine at hrun
  unfold Outline.read Outline.said
  cases mode with
  | top =>
    dsimp only at hrun ⊢
    cases hparse : parseLine [] [] line comment with
    | error e =>
      rw [hparse] at hrun
      contradiction
    | ok parsed =>
      rw [hparse] at hrun
      cases parsed with
      | none =>
        cases hrun
        exact ⟨paths, { h with last_eq := fun _ => .inr rfl }⟩
      | some c =>
        cases hrun
        exact ⟨_, h.adds .top (parses_parseLine hparse) nofun rfl rfl rfl fun _ => rfl⟩
  | submode path param =>
    dsimp only at hrun ⊢
    cases hparse : parseLine path param line comment with
    | error e =>
      rw [hparse] at hrun
      contradiction
    | ok parsed =>
      rw [hparse] at hrun
      cases parsed with
      | none =>
        cases hrun
        exact ⟨paths, h⟩
      | some c =>
        cases hrun
        exact ⟨_, h.adds h.mode_within (parses_parseLine hparse) nofun rfl rfl rfl nofun⟩
  | lost param =>
    dsimp only at hrun ⊢
    cases hparse : parseLine [] param line comment with
    | error e =>
      rw [hparse] at hrun
      contradiction
    | ok parsed =>
      rw [hparse] at hrun
      cases parsed with
      | none =>
        cases hrun
        exact ⟨paths, h⟩
      | some c =>
        cases hrun
        exact ⟨paths, { h with end_eq := rfl, last_eq := nofun, last_within := trivial }⟩

theorem Built.descend_submode (h : Built st o paths) (path : List GenNode) (name : List Char)
    : (st.root.descend GenNode.key (keysOf (path ++ [modeRoot name]))).isSome
        =
      begins o.paths (path ++ [modeRoot name]) := by
  rw [h.root_eq, descend_insertAll_begins (by simp)]
  exact begins_congr fun p => h.mem_paths.symm

theorem FileInv.submode {name : List Char} (h : FileInv st o paths) (hrun : processLine st (.submode name) = .ok st')
    : ∃ paths', FileInv st' (o.read (.submode name)) paths' := by
  rcases st with ⟨root, end_node, last_cli_end, mode⟩
  rcases o with ⟨commands, submodes, mode, last⟩
  cases h.mode_eq
  cases h.end_eq
  unfold processLine at hrun
  unfold Outline.read Outline.enter
  cases mode with
  | top =>
    have hlast := h.last_eq rfl
    cases last_cli_end with
    | missing => contradiction
    | detached =>
      cases hlast.resolve_left (by simp)
      cases hrun
      exact ⟨paths, { h with mode_eq := rfl, last_eq := by simp, mode_within := trivial }⟩
    | inserted path =>
      cases hlast.resolve_left (by simp)
      have hbegins := h.descend_submode path name
      dsimp only at hrun hbegins ⊢
      rw [hbegins] at hrun
      split at hrun
      . next hold =>
        cases hrun
        rw [if_pos hold]
        exact ⟨paths, { h with mode_eq := rfl, last_eq := by simp, mode_within := trivial }⟩
      . next hnew =>
        cases hrun
        rw [if_neg hnew]
        refine ⟨_, h.toBuilt.addSubmode name h.last_within rfl _, rfl, rfl, by simp, ?_, ?_⟩
        . exact h.last_within.mono (List.subset_append_left _ _)
        . exact .submode path name (List.mem_append_right _ (List.mem_singleton_self _))
  | submode path param =>
    cases hrun
    exact ⟨paths, h⟩
  | lost param =>
    cases hrun
    exact ⟨paths, h⟩

theorem FileInv.endsubmode (h : FileInv st o paths) (hrun : processLine st .endsubmode = .ok st')
    : ∃ paths', FileInv st' (o.read .endsubmode) paths' := by
  have hclosed : FileInv { st with mode := .top, last_cli_end := .missing } (o.read .endsubmode) paths :=
    { h with mode_eq := rfl, last_eq := fun _ => .inl rfl, mode_within := trivial }
  unfold processLine at hrun
  dsimp only at hrun
  split at hrun
  . contradiction
  . cases hrun
    exact ⟨paths, hclosed⟩

def NodeRef.Ends (cmds : List Command) : NodeRef → Prop
  | .missing => True
  | .detached => True
  | .inserted path => ∃ c ∈ cmds, path = c.path c.num_opt_start

structure Attached (o : Outline) : Prop where
  last : o.last.Ends o.commands
  submodes : ∀ path ∈ o.submodes, ∃ c ∈ o.commands, ∃ name, path = c.path c.num_opt_start ++ [modeRoot name]

theorem Attached.add (h : Attached o) (c : Command) : Attached (o.add c) := by
  unfold Outline.add
  split
  . exact { h with last := trivial }
  . constructor
    case last =>
      dsimp only
      unfold Outline.endOf
      split
      . trivial
      . exact ⟨c, List.mem_append_right _ (List.mem_singleton_self c), rfl⟩
    case submodes =>
      intro path hpath
      rcases h.submodes path hpath with ⟨c', hc', name, heq⟩
      exact ⟨c', List.mem_append_left _ hc', name, heq⟩

theorem Attached.enter (h : Attached o) (name : List Char) : Attached (o.enter name) := by
  unfold Outline.enter
  split
  . next path _ hlast =>
    split
    . exact { h with }
    . refine ⟨h.last, fun p hp => ?_⟩
      rcases List.mem_append.mp hp with hp | hp
      . exact h.submodes p hp
      . have hend := h.last
        rw [hlast] at hend
        rcases hend with ⟨c, hc, heq⟩
        exact ⟨c, hc, name, heq ▸ List.mem_singleton.mp hp⟩
  . exact { h with }
  . exact h

end Files

section Language

variable {st : CliFile} {o : Outline} {paths : List (List GenNode)} {directives : List Directive} {t u : LabelTree GenNode}
  {ks : List (NodeType × List Char)}

theorem Built.descend_eq (h : Built st o paths) (hks : ks ≠ [])
    : (st.root.descend GenNode.key ks).map LabelTree.data
        =
      (paths.find? fun path => ks <+: keysOf path).bind (·[ks.length - 1]?) := by
  rw [h.root_eq]
  exact LabelTree.descend_insertAll paths hks treeRoot

theorem Built.distinct (h : Built st o paths) : LabelTree.Distinct GenNode.key st.root := by
  rw [h.root_eq]
  exact LabelTree.distinct_insertAll paths treeRoot

theorem Built.data_root (h : Built st o paths) : st.root.data = treeRoot := by
  rw [h.root_eq]
  clear h
  induction paths using List.reverseRecOn with
  | nil => rfl
  | append_singleton paths path ih =>
    unfold insertAll at ih ⊢
    rw [List.foldl_append, List.foldl_cons, List.foldl_nil, LabelTree.data_insert]
    exact ih

theorem Built.provenance (h : Built st o paths) (hks : ks ≠ []) (hu : st.root.descend GenNode.key ks = some u)
    : Provenance o.commands o.submodes ks u.data := by
  have heq := h.descend_eq hks
  rw [hu, Option.map_some] at heq
  rcases Option.bind_eq_some_iff.mp heq.symm with ⟨path, hfind, hget⟩
  have hle : ks <+: keysOf path := by simpa using List.find?_some hfind
  rcases List.getElem?_eq_some_iff.mp hget with ⟨hlt, hdata⟩
  have hpos := List.length_pos_of_ne_nil hks
  have hpath : path = path.take (ks.length - 1) ++ u.data :: path.drop ks.length := by
    conv_lhs => rw [← List.take_append_drop (ks.length - 1) path, List.drop_eq_getElem_cons hlt, hdata,
      Nat.sub_add_cancel hpos]
  have hkeys : ks = keysOf (path.take (ks.length - 1) ++ [u.data]) := by
    have htake := List.prefix_iff_eq_take.mp hle
    rw [← List.map_take] at htake
    have hstep : path.take ks.length = path.take (ks.length - 1) ++ [u.data] := by
      conv_lhs => rw [← Nat.sub_add_cancel hpos]
      rw [List.take_add_one, hget]
      rfl
    rw [← hstep]
    exact htake
  rw [hkeys]
  exact h.traced path (List.mem_of_find?_eq_some hfind) _ _ _ hpath

theorem Built.descend_isSome (h : Built st o paths) (hks : ks ≠ [])
    : (st.root.descend GenNode.key ks).isSome ↔ ∃ path ∈ paths, ks <+: keysOf path := by
  rw [h.root_eq]
  exact descend_insertAll_isSome hks

end Language

end SecFw.Client
