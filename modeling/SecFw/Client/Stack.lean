import SecFw.Client.Sync

/-!
This module contains what the state machine is in after any keys: it knows whether the text before the cursor
can be the begin of a command, its tokens are the words of this text, its stack of tokens does not overflow and
none of its assertions fails.
-/

namespace SecFw.Client

open TextCursor

section Path

variable {cfg : CparserCfg} {priv : Bool} {root node child m : CparserNode} {path : List CparserNode}
  {token word : List Char}

structure WordPath (root : CparserNode) (path : List CparserNode) : Prop where
  chain : List.IsChain (fun a b => b ∈ a.children) (root :: path)
  types : ∀ node ∈ path, node.type ≠ .END ∧ node.type ≠ .ROOT

theorem wordPath_resolve {ws : List (List Char)} (h : resolve priv root ws = some path) : WordPath root path := by
  induction ws generalizing root path with
  | nil =>
    cases h
    exact ⟨List.isChain_singleton root, nofun⟩
  | cons word ws ih =>
    unfold resolve at h
    split at h
    . contradiction
    . rcases Option.bind_eq_some_iff.mp h with ⟨child, hchild, hrest⟩
      rcases Option.map_eq_some_iff.mp hrest with ⟨path', hpath', rfl⟩
      have hled := led_of_wordChild hchild
      have hpath := ih hpath'
      refine ⟨List.isChain_cons_cons.mpr ⟨hled.mem, hpath.chain⟩, ?_⟩
      intro node hmem
      rcases List.mem_cons.mp hmem with rfl | hmem
      . exact hled.types
      . exact hpath.types node hmem

theorem WordPath.append (h : WordPath root path) (hled : Led priv (path.getLastD root) word m)
    : WordPath root (path ++ [m]) := by
  constructor
  case chain =>
    rw [← List.cons_append]
    refine List.isChain_append.mpr ⟨h.chain, List.isChain_singleton m, ?_⟩
    intro a ha b hb
    rw [List.getLast?_cons, Option.mem_def, Option.some.injEq, ← List.getLastD_eq_getLast?] at ha
    cases hb
    exact ha ▸ hled.mem
  case types =>
    intro node hmem
    rcases List.mem_append.mp hmem with hmem | hmem
    . exact h.types node hmem
    . rw [List.mem_singleton.mp hmem]
      exact hled.types

theorem WordPath.last {top : CparserNode} (h : WordPath root path) (hroot : ModeRoot top root)
    : Within top (path.getLastD root) ∧ (path.getLastD root).type ≠ .END := by
  induction path using List.reverseRecOn with
  | nil => exact ⟨hroot.within, by rw [List.getLastD_nil, hroot.type_eq]; decide⟩
  | append_singleton path m ih =>
    rcases List.isChain_append.mp (List.cons_append ▸ h.chain) with ⟨hchain, -, hlast⟩
    have hfront := ih ⟨hchain, fun node hmem => h.types node (List.mem_append_left _ hmem)⟩
    rw [List.getLastD_concat]
    refine ⟨hfront.1.child (hlast _ ?_ m rfl), (h.types m (List.mem_append_right _ (List.mem_singleton_self m))).1⟩
    rw [List.getLast?_cons, Option.mem_def, Option.some.injEq, ← List.getLastD_eq_getLast?]

theorem CparserCfg.Plain.matchable (h : cfg.Plain) (hnode : Within cfg.root node) (htype : node.type ≠ .END)
    (htoken : token ≠ []) : Matchable priv token node.children := by
  intro child hchild _
  have hroot : child.type ≠ .ROOT := fun heq => htype (h.roots node child hnode hchild heq)
  have hlist := h.lists child (hnode.child hchild)
  unfold matchAsserts
  cases heq : child.type with
  | ROOT => exact absurd heq hroot
  | LIST => simpa using hlist heq
  | _ => simp [htoken]

/-- No command of the tree has more words than the stack has room for. -/
def CparserNode.Shallow (top : CparserNode) : Prop :=
  ∀ root path, ModeRoot top root → WordPath root path → path.length < CPARSER_MAX_NUM_TOKENS

end Path

section Stack

variable {cfg : CparserCfg} {priv : Bool} {root m : CparserNode} {p p' : ParserFsm} {q : Cparser} {ch : Char}
  {text : List Char} {path : List CparserNode} {events : List (Env × Key)}

structure Stacked (root : CparserNode) (p : ParserFsm) : Prop where
  path : ∃ path, WordPath root path ∧ p.cur_node = path.getLastD root ∧ p.token_tos = path.length
  buf : ∀ n, (p.tokens n).buf.length ≤ CPARSER_MAX_TOKEN_SIZE

theorem stacked_reset (root : CparserNode) : Stacked root (cparserFsmReset root) :=
  ⟨⟨[], ⟨List.isChain_singleton root, nofun⟩, rfl, rfl⟩, fun _ => Nat.zero_le _⟩

theorem Stacked.setToken_buf (h : Stacked root p) {token : CparserToken}
    (htoken : token.buf.length ≤ CPARSER_MAX_TOKEN_SIZE) {k : Nat} (n : Nat)
    : ((p.setToken k token).tokens n).buf.length ≤ CPARSER_MAX_TOKEN_SIZE := by
  unfold ParserFsm.setToken
  dsimp only
  by_cases hn : n = k
  . rwa [hn, Function.update_self]
  . rw [Function.update_of_ne hn]
    exact h.buf n

theorem Stacked.fed (h : Stacked root p) (hinv : FsmInv p) (hstep : Fed priv p ch p') : Stacked root p' := by
  cases hstep with
  | space hstate hch => exact ⟨h.path, h.buf⟩
  | begins hstate hch hmatch =>
    refine ⟨h.path, h.setToken_buf ?_⟩
    rw [hinv.whitespace hstate]
    exact Nat.le_of_ble_eq_true rfl
  | continues hstate hch hlen hmatch =>
    refine ⟨h.path, h.setToken_buf ?_⟩
    rw [List.length_append]
    exact hlen
  | closes m hstate hch hword htos =>
    refine ⟨?_, h.setToken_buf ?_⟩
    . rcases h.path with ⟨path, hpath, hcur, htos⟩
      rw [hcur] at hword
      refine ⟨path ++ [m], hpath.append (led_of_wordChild hword), ?_, ?_⟩
      . rw [List.getLastD_concat]
      . rw [List.length_append, List.length_singleton, ← htos]
    . exact h.buf p.token_tos
  | rejects hrejects => exact ⟨h.path, h.buf⟩

theorem Typed.stacked (h : Typed cfg text) (hfeed : feed cfg priv (cparserFsmReset root) text = some p)
    : Stacked root p := by
  induction text using List.reverseRecOn generalizing p with
  | nil =>
    cases hfeed
    exact stacked_reset root
  | append_singleton text ch ih =>
    rw [feed_concat] at hfeed
    rcases Option.bind_eq_some_iff.mp hfeed with ⟨f, hf, hinput⟩
    have htext := h.mono (List.prefix_append text [ch])
    exact (ih htext hf).fed (htext.fedText hf).inv (h.fed hf hinput)

theorem After.stacked (h : After cfg priv root text p) : Stacked root p := by
  rcases h.exists_feed with ⟨f, hf, hmask⟩
  have hsame := sameMask hmask.symm
  have hstacked := h.typed.stacked hf
  constructor
  case path =>
    rw [hsame.cur_node, hsame.token_tos]
    exact hstacked.path
  case buf =>
    intro n
    by_cases hn : n = f.token_tos
    . have hbuf : (p.tokens n).buf = (f.tokens n).buf := by
        have hopen := hsame.buf
        rwa [ParserFsm.curToken, ParserFsm.curToken, hsame.token_tos, ← hn] at hopen
      exact hbuf ▸ hstacked.buf n
    . rw [hsame.tokens n hn]
      exact hstacked.buf n

theorem After.token_ne_nil (h : After cfg priv root text p) (hstate : p.state = .TOKEN) : p.curToken.buf ≠ [] := by
  rcases h.exists_feed with ⟨f, hf, hmask⟩
  have hsame := sameMask hmask.symm
  rw [hsame.buf]
  exact ((h.typed.fedText hf).inv.token_open (hsame.state ▸ hstate)).2.2

theorem After.room (h : After cfg priv root text p) (hdepth : cfg.root.Shallow) (hroot : ModeRoot cfg.root root) : p.token_tos < CPARSER_MAX_NUM_TOKENS
      ∧ ∀ word, (wordChild priv p.cur_node word).isSome → p.token_tos + 1 < CPARSER_MAX_NUM_TOKENS := by
  rcases h.stacked.path with ⟨path, hpath, hcur, htos⟩
  rw [hcur, htos]
  refine ⟨hdepth _ _ hroot hpath, fun word hword => ?_⟩
  rcases Option.isSome_iff_exists.mp hword with ⟨m, hm⟩
  have hlonger := hdepth _ _ hroot (hpath.append (led_of_wordChild hm))
  rwa [List.length_append] at hlonger

theorem After.input_isSome (h : After cfg priv root text p) (hcfg : cfg.Plain) (hdepth : cfg.root.Shallow)
    (hroot : ModeRoot cfg.root root) (herases : Erases cfg ch → text ≠ []) : ∃ p', inputFsm cfg priv p ch = some p' := by
  rw [← Option.ne_none_iff_exists']
  intro hnone
  have hfails := h.input_eq_none_iff.mp hnone
  unfold FailsBehind at hfails
  split at hfails
  . next herase => exact herases herase hfails
  . rcases h.stacked.path with ⟨path, hpath, hcur, htos⟩
    have hlast := hpath.last hroot
    rw [← hcur] at hlast
    have hmatchable {token : List Char} (htoken : token ≠ []) : Matchable priv token p.cur_node.children :=
      hcfg.matchable hlast.1 hlast.2 htoken
    cases hfails.2 with
    | begins hstate hch hmatch => exact hmatch (hmatchable (List.cons_ne_nil ch []))
    | continues hstate hch hlen hmatch => exact hmatch (hmatchable (by simp))
    | closes hstate hch hmatch => exact hmatch (hmatchable (h.token_ne_nil hstate))
    | overflows hstate hch hword hfull =>
      exact Nat.not_lt.mpr hfull ((h.room hdepth hroot).2 _ hword)

/-- What the state machine knows about the text before the cursor. -/
structure Knows (q : Cparser) (text : List Char) : Prop where
  error_iff : q.fsm.state = .ERROR ↔ ¬Accepts q.is_privileged_mode (q.root q.root_level) text
  parsed : ∀ path, Accepts q.is_privileged_mode (q.root q.root_level) text →
    resolve q.is_privileged_mode (q.root q.root_level) (closedWords ' ' text) = some path →
      Parsed (q.root q.root_level) text path q.fsm
  token_tos : q.fsm.token_tos < CPARSER_MAX_NUM_TOKENS
  buf : ∀ n, (q.fsm.tokens n).buf.length ≤ CPARSER_MAX_TOKEN_SIZE
  above : ∀ n, q.fsm.token_tos < n → q.fsm.tokens n = blankToken
  asserts : ∀ ch, (Erases q.cfg ch → text ≠ []) → ∃ r, cparserFsmInput q.cfg q.is_privileged_mode q.fsm ch = some r

theorem At.knows (h : At q text) (hcfg : q.cfg.Plain) (hdepth : q.cfg.root.Shallow)
    (hroot : ModeRoot q.cfg.root (q.root q.root_level)) : Knows q text := by
  constructor
  case error_iff =>
    constructor
    . intro herror haccepts
      have haccepted := haccepts
      rcases haccepted with ⟨path, hpath, hopen⟩
      rw [(After.parsed h haccepts hpath).state] at herror
      split at herror
      . contradiction
      . contradiction
    . exact After.state_error h
  case parsed => exact fun path haccepts hpath => After.parsed h haccepts hpath
  case token_tos => exact (After.room h hdepth hroot).1
  case buf => exact (After.stacked h).buf
  case above => exact fun n hn => After.blank h hn
  case asserts =>
    intro ch herases
    rcases After.input_isSome h hcfg hdepth hroot herases with ⟨p', hp'⟩
    rcases Option.map_eq_some_iff.mp hp' with ⟨r, hr, -⟩
    exact ⟨r, hr⟩

/--
Whatever keys are pressed, as long as the line does not fill up, the state machine knows about the text before
the cursor, its stack has room, its tokens fit into their buffers and no assertion of the next input fails.
-/
theorem runKeys_knows (hcfg : cfg.Plain) (hevents : PlainEvents cfg events) (hfull : NeverFull cfg events)
    (hrun : runKeys (cparserInit cfg) events = some q) (hdepth : cfg.root.Shallow)
    : Knows q q.line.cursor.before := by
  rcases runKeys_synced hcfg hevents hfull hrun with ⟨rfl, hinv, hsync⟩
  exact At.knows hsync hcfg hdepth (hinv.roots _ (Nat.le_refl _))

def showEnd : CparserNode := .mk .END [] (.glue ['s', 'h', 'o', 'w']) none []

def showKeyword : CparserNode := .mk .KEYWORD [] (.text ['s', 'h', 'o', 'w']) none [showEnd]

def showTree : CparserNode := .mk .ROOT [] .null none [showKeyword]

def showEnv : Env where
  glue := fun fn => if fn = ['s', 'h', 'o', 'w'] then some [showKeyword, showEnd] else none
  action := fun _ _ => []
  input_cb := fun _ _ => []
  is_reg := fun _ => false
  glob := fun _ => []

def showKeys : List (Env × Key) := textKeys showEnv ['s', 'h', 'o', 'w']

theorem within_showTree {node : CparserNode} (h : Within showTree node)
    : node = showTree ∨ node = showKeyword ∨ node = showEnd := by
  induction h with
  | refl => exact .inl rfl
  | tail _ hchild ih =>
    rcases ih with rfl | rfl | rfl
    . exact .inr (.inl (List.mem_singleton.mp hchild))
    . exact .inr (.inr (List.mem_singleton.mp hchild))
    . exact absurd hchild List.not_mem_nil

theorem paramList_showTree {node : CparserNode} (h : Within showTree node) : node.paramList = [] := by
  rcases within_showTree h with rfl | rfl | rfl
  . rfl
  . rfl
  . rfl

theorem paramText_showTree {node : CparserNode} (h : Within showTree node) (htype : node.type = .KEYWORD)
    : node.paramText = ['s', 'h', 'o', 'w'] := by
  rcases within_showTree h with rfl | rfl | rfl
  . contradiction
  . rfl
  . contradiction

theorem not_special_show {ch : Char} (h : ch ∈ ['s', 'h', 'o', 'w']) : ch ∉ specialChars := by
  have hall : ∀ ch ∈ ['s', 'h', 'o', 'w'], ch ∉ specialChars := by
    simp only [List.forall_mem_cons]
    exact ⟨by decide, by decide, by decide, by decide, List.forall_mem_nil _⟩
  exact hall ch h

theorem rootsBehindEnds_show : showTree.RootsBehindEnds := by
  intro node child hnode hchild htype
  rcases within_showTree (hnode.child hchild) with rfl | rfl | rfl
  . rcases within_showTree hnode with rfl | rfl | rfl
    . cases List.mem_singleton.mp hchild
    . cases List.mem_singleton.mp hchild
    . rfl
  . contradiction
  . contradiction

theorem plain_show : (parserConfig showTree).Plain := by
  apply plain_parserConfig rfl rootsBehindEnds_show
  . intro node hnode htype
    rcases within_showTree hnode with rfl | rfl | rfl
    . contradiction
    . contradiction
    . contradiction
  . intro node hnode htype ch hch
    rw [paramText_showTree hnode htype] at hch
    exact not_special_show hch
  . intro node hnode keyword hkeyword
    rw [paramList_showTree hnode] at hkeyword
    exact absurd hkeyword List.not_mem_nil

theorem wordPath_show {root : CparserNode} {path : List CparserNode} (hroot : ModeRoot showTree root)
    (hpath : WordPath root path) : root = showTree ∧ (path = [] ∨ path = [showKeyword]) := by
  have hnode : root = showTree := by
    rcases within_showTree hroot.within with rfl | rfl | rfl
    . rfl
    . exact absurd hroot.type_eq nofun
    . exact absurd hroot.type_eq nofun
  subst hnode
  refine ⟨rfl, ?_⟩
  cases path with
  | nil => exact .inl rfl
  | cons a path =>
    rcases List.isChain_cons_cons.mp hpath.chain with ⟨ha, hrest⟩
    cases List.mem_singleton.mp ha
    cases path with
    | nil => exact .inr rfl
    | cons b path =>
      rcases List.isChain_cons_cons.mp hrest with ⟨hb, -⟩
      cases List.mem_singleton.mp hb
      exact absurd rfl (hpath.types showEnd (by simp)).1

theorem plainEvents_show : PlainEvents (parserConfig showTree) showKeys := by
  have hkeys : showKeys
      = (terminalKeys (parserConfig showTree) 4 ['s', 'h', 'o', 'w']).map (showEnv, ·) := rfl
  rw [hkeys]
  exact plainEvents_terminalKeys (fun _ _ h => absurd h List.not_mem_nil) 4 _

theorem neverFull_show : NeverFull (parserConfig showTree) showKeys :=
  neverFull_of_inits (List.all_eq_true.mp rfl)

theorem shallow_show : showTree.Shallow := by
  intro root path hroot hpath
  rcases (wordPath_show hroot hpath).2 with rfl | rfl
  . decide
  . decide

theorem runKeys_knows_show
    : ∃ q, runKeys (cparserInit (parserConfig showTree)) showKeys = some q ∧ Knows q q.line.cursor.before := by
  rcases Option.isSome_iff_exists.mp (show (runKeys (cparserInit (parserConfig showTree)) showKeys).isSome from rfl)
    with ⟨q, hq⟩
  exact ⟨q, hq, runKeys_knows plain_show plainEvents_show neverFull_show hq shallow_show⟩

end Stack

end SecFw.Client
