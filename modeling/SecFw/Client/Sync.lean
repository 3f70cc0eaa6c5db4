import SecFw.Client.Input

/-!
This module contains the invariant that keeps the state machine in step with the line under the cursor:
as long as the line does not fill up, the machine is always in the state after the text before the cursor.
-/

namespace SecFw.Client

open TextCursor

section Within

def Within (root node : CparserNode) : Prop := Relation.ReflTransGen (fun a b => b ∈ a.children) root node

theorem Within.child {root a b : CparserNode} (h : Within root a) (hb : b ∈ a.children) : Within root b :=
  Relation.ReflTransGen.tail h hb

structure ModeRoot (root node : CparserNode) : Prop where
  within : Within root node
  type_eq : node.type = .ROOT

structure FsmWithin (S : CparserNode → Prop) (p : ParserFsm) : Prop where
  cur_node : S p.cur_node
  parents : ∀ n parent, (p.tokens n).parent = some parent → S parent

variable {S : CparserNode → Prop} {cfg : CparserCfg} {priv : Bool} {p : ParserFsm} {ch : Char}
  {m parent : CparserNode} {word : List Char}

theorem FsmWithin.setToken (h : FsmWithin S p) (n : Nat) (token : CparserToken)
    (htoken : ∀ parent, token.parent = some parent → S parent) : FsmWithin S (p.setToken n token) := by
  constructor
  case cur_node => exact h.cur_node
  case parents =>
    intro k parent hparent
    unfold ParserFsm.setToken at hparent
    dsimp only at hparent
    by_cases hk : k = n
    . rw [hk, Function.update_self] at hparent
      exact htoken parent hparent
    . rw [Function.update_of_ne hk] at hparent
      exact h.parents k parent hparent

theorem fsmWithin_reset {root : CparserNode} (h : S root) : FsmWithin S (cparserFsmReset root) :=
  ⟨h, nofun⟩

theorem fsmWithin_finish {r : StateResult} {type : InputType} (h : FsmWithin S r.fsm)
    : FsmWithin S (r.finish type) := by
  unfold StateResult.finish
  dsimp only
  split
  . split
    . split
      . exact ⟨h.cur_node, h.parents⟩
      . exact ⟨h.cur_node, h.parents⟩
    . split
      . exact ⟨h.cur_node, h.parents⟩
      . exact ⟨h.cur_node, h.parents⟩
  . exact ⟨h.cur_node, h.parents⟩

theorem fsmWithin_stateFunc {r : StateResult} {type : InputType} (hclosed : ∀ a, S a → ∀ b ∈ a.children, S b)
    (h : FsmWithin S p) (hr : cparserStateFuncTbl priv p ch type = some r) : FsmWithin S r.fsm := by
  have hsame {q : ParserFsm} (hcur : q.cur_node = p.cur_node) (htokens : q.tokens = p.tokens) : FsmWithin S q :=
    ⟨hcur ▸ h.cur_node, fun n parent hparent => h.parents n parent (by rwa [htokens] at hparent)⟩
  have hparent (n : Nat) {token : CparserToken} (heq : token.parent = (p.tokens n).parent)
      : ∀ parent, token.parent = some parent → S parent := by
    rw [heq]
    exact h.parents n
  unfold cparserStateFuncTbl at hr
  split at hr
  . split at hr
    . cases hr
      unfold cparserWsErase
      split
      . dsimp only
        split
        . have hcur : S ((p.tokens (p.token_tos - 1)).parent.getD p.cur_node) := by
            cases hpar : (p.tokens (p.token_tos - 1)).parent with
            | none => exact h.cur_node
            | some parent => exact h.parents _ parent hpar
          have hpopped : FsmWithin S
              { p with
                current_pos := p.current_pos - 1
                cur_node := (p.tokens (p.token_tos - 1)).parent.getD p.cur_node } :=
            ⟨hcur, h.parents⟩
          have hset := (hpopped.setToken (p.token_tos - 1)
            { p.tokens (p.token_tos - 1) with parent := none } nofun).setToken p.token_tos blankToken nofun
          exact ⟨hset.cur_node, hset.parents⟩
        . exact hsame rfl rfl
      . exact h
    . cases hr
      unfold cparserTokErase
      dsimp only
      have hmoved : FsmWithin S { p with current_pos := p.current_pos - 1 } := hsame rfl rfl
      split
      . exact hmoved.setToken p.token_tos _ (hparent p.token_tos rfl)
      . exact hmoved.setToken p.token_tos _ (hparent p.token_tos rfl)
    . unfold cparserErrErase at hr
      dsimp only at hr
      split at hr
      . contradiction
      . split at hr
        . split at hr
          . cases hr
            exact hsame rfl rfl
          . cases hr
            exact hsame rfl rfl
        . cases hr
          exact hsame rfl rfl
  . split at hr
    . cases hr
      exact h
    . unfold cparserTokSpace at hr
      rcases Option.bind_eq_some_iff.mp hr with ⟨found, hfound, hr⟩
      dsimp only at hr
      split at hr
      . split at hr
        . cases hr
          have hset := h.setToken p.token_tos
            { p.curToken with parent := some p.cur_node, node := found.found }
            (fun parent hparent => Option.some.inj hparent ▸ h.cur_node)
          refine ⟨?_, hset.parents⟩
          dsimp only
          cases hm : found.found with
          | none => exact h.cur_node
          | some m =>
            rw [cparserMatch_eq_some hfound] at hm
            exact hclosed _ h.cur_node m (candidate_of_found hm).mem
        . contradiction
      . cases hr
        exact h
    . cases hr
      exact h
  . split at hr
    . rcases Option.bind_eq_some_iff.mp hr with ⟨found, -, hr⟩
      split at hr
      . cases hr
        exact h
      . cases hr
        exact h.setToken _ _ (hparent _ rfl)
    . unfold cparserTokChar at hr
      dsimp only at hr
      split at hr
      . rcases Option.bind_eq_some_iff.mp hr with ⟨found, -, hr⟩
        split at hr
        . cases hr
          exact h.setToken _ _ (hparent _ rfl)
        . cases hr
          exact h.setToken _ _ (hparent _ rfl)
      . cases hr
        exact h
    . cases hr
      exact h

theorem fsmWithin_input {q : ParserFsm} (hclosed : ∀ a, S a → ∀ b ∈ a.children, S b) (h : FsmWithin S p)
    (hinput : inputFsm cfg priv p ch = some q) : FsmWithin S q := by
  unfold inputFsm cparserFsmInput at hinput
  dsimp only at hinput
  split at hinput
  . contradiction
  . split at hinput
    . cases hinput
      exact h
    . rw [Option.map_map] at hinput
      rcases Option.map_eq_some_iff.mp hinput with ⟨r, hr, rfl⟩
      exact fsmWithin_finish (fsmWithin_stateFunc hclosed h hr)

end Within

section Invariant

structure CparserCfg.Ordinary (cfg : CparserCfg) (ch : Char) : Prop where
  not_erases : ¬Erases cfg ch
  ne_complete : ch ≠ cfg.ch_complete
  ne_help : ch ≠ cfg.ch_help
  ne_newline : ch ≠ '\n'
  ne_nul : ch ≠ NUL

def CparserNode.RootsBehindEnds (top : CparserNode) : Prop :=
  ∀ node child, Within top node → child ∈ node.children → child.type = .ROOT → node.type = .END

/-- The left arrow erases in the state machine, a new line does not, spaces and keywords are ordinary. -/
structure CparserCfg.Plain (cfg : CparserCfg) : Prop where
  root : cfg.root.type = .ROOT
  roots : cfg.root.RootsBehindEnds
  lists : ∀ node, Within cfg.root node → node.type = .LIST → node.paramList ≠ []
  erases_bs : Erases cfg BS
  bs_ne_complete : BS ≠ cfg.ch_complete
  bs_ne_help : BS ≠ cfg.ch_help
  newline : ¬Erases cfg '\n'
  space : cfg.Ordinary ' '
  keyword : ∀ node, Within cfg.root node → node.type = .KEYWORD → ∀ ch ∈ node.paramText, cfg.Ordinary ch
  list : ∀ node, Within cfg.root node → ∀ keyword ∈ node.paramList, ∀ ch ∈ keyword, cfg.Ordinary ch

/-- The paths that complete a file name have ordinary characters. -/
def Env.Plain (env : Env) (cfg : CparserCfg) : Prop :=
  ∀ token, ∀ path ∈ env.glob token, ∀ ch ∈ path, cfg.Ordinary ch

def specialChars : List Char := ['\x08', '\x7f', '\t', '?', '\n', NUL]

theorem ordinary_of_not_mem {root : CparserNode} {ch : Char} (h : ch ∉ specialChars)
    : (parserConfig root).Ordinary ch := by
  have hne {ch' : Char} (hmem : ch' ∈ specialChars) : ch ≠ ch' := fun heq => h (heq ▸ hmem)
  constructor
  case not_erases =>
    rintro (heq | heq)
    . exact hne (show '\x08' ∈ specialChars by decide) heq.symm
    . exact hne (show '\x7f' ∈ specialChars by decide) heq.symm
  case ne_complete => exact hne (show '\t' ∈ specialChars by decide)
  case ne_help => exact hne (show '?' ∈ specialChars by decide)
  case ne_newline => exact hne (by decide)
  case ne_nul => exact hne (by decide)

theorem plain_parserConfig {root : CparserNode} (hroot : root.type = .ROOT) (hroots : root.RootsBehindEnds)
    (hlists : ∀ node, Within root node → node.type = .LIST → node.paramList ≠ [])
    (hkeyword : ∀ node, Within root node → node.type = .KEYWORD → ∀ ch ∈ node.paramText, ch ∉ specialChars)
    (hlist : ∀ node, Within root node → ∀ keyword ∈ node.paramList, ∀ ch ∈ keyword, ch ∉ specialChars)
    : (parserConfig root).Plain := by
  constructor
  case root => exact hroot
  case roots => exact hroots
  case lists => exact hlists
  case erases_bs => exact .inl rfl
  case bs_ne_complete => exact show BS ≠ '\t' by decide
  case bs_ne_help => exact show BS ≠ '?' by decide
  case newline =>
    rintro (heq | heq)
    . exact absurd heq (show '\x08' ≠ '\n' by decide)
    . exact absurd heq (show '\x7f' ≠ '\n' by decide)
  case space => exact ordinary_of_not_mem (by decide)
  case keyword => exact fun node hnode htype ch hch => ordinary_of_not_mem (hkeyword node hnode htype ch hch)
  case list => exact fun node hnode keyword hmem ch hch => ordinary_of_not_mem (hlist node hnode keyword hmem ch hch)

structure RunInv (p : Cparser) : Prop where
  lines : p.lines.Valid
  ordinary : ∀ i, ∀ ch ∈ (p.lines.lines i).cursor.text, p.cfg.Ordinary ch
  roots : ∀ i ≤ p.root_level, ModeRoot p.cfg.root (p.root i)
  within : FsmWithin (Within p.cfg.root) p.fsm

structure ParserInv (p : Cparser) : Prop extends RunInv p where
  user : p.user.isSome → p.line.cursor = TextCursor.empty ∧ p.fsm = cparserFsmReset (p.root p.root_level)

def At (p : Cparser) (text : List Char) : Prop :=
  After p.cfg p.is_privileged_mode (p.root p.root_level) text p.fsm

def Synced (p : Cparser) : Prop := At p p.line.cursor.before

def LineFits (p : Cparser) : Prop := p.line.last < CPARSER_MAX_LINE_SIZE

variable {p p' q : Cparser} {ch : Char} {text : List Char} {call : LineCall} {env : Env} {key : Key}

structure SameSettings (p p' : Cparser) : Prop where
  cfg : p'.cfg = p.cfg
  root_level : p'.root_level = p.root_level
  root : p'.root = p.root
  is_privileged_mode : p'.is_privileged_mode = p.is_privileged_mode
  user : p'.user = p.user
  called : p'.called = p.called

theorem SameSettings.refl (p : Cparser) : SameSettings p p := ⟨rfl, rfl, rfl, rfl, rfl, rfl⟩

theorem SameSettings.trans (h : SameSettings p p') (h' : SameSettings p' q) : SameSettings p q :=
  ⟨h'.cfg.trans h.cfg, h'.root_level.trans h.root_level, h'.root.trans h.root,
    h'.is_privileged_mode.trans h.is_privileged_mode, h'.user.trans h.user, h'.called.trans h.called⟩

theorem same_lineCall (p : Cparser) (call : LineCall) : SameSettings p (p.lineCall call) :=
  ⟨rfl, rfl, rfl, rfl, rfl, rfl⟩

structure FsmStep (p q : Cparser) (ch : Char) : Prop where
  same : SameSettings p q
  lines : q.lines = p.lines
  fsm : inputFsm p.cfg p.is_privileged_mode p.fsm ch = some q.fsm

theorem fsmStep (h : p.fsmInput ch = some q) : FsmStep p q ch := by
  rcases Option.map_eq_some_iff.mp h with ⟨r, hr, rfl⟩
  exact ⟨⟨rfl, rfl, rfl, rfl, rfl, rfl⟩, rfl, congrArg (Option.map Prod.fst) hr⟩

theorem FsmStep.line (h : FsmStep p q ch) : q.line = p.line := congrArg LineBuffering.line h.lines

theorem SameSettings.at (hsame : SameSettings p q) (h : At p text) (hfsm : q.fsm = p.fsm) : At q text := by
  unfold At
  rw [hsame.cfg, hsame.is_privileged_mode, hsame.root, hsame.root_level, hfsm]
  exact h

theorem FsmStep.at (hstep : FsmStep p q ch) (h : At p text) : At q (leftText p.cfg text ch) := by
  unfold At
  rw [hstep.same.cfg, hstep.same.is_privileged_mode, hstep.same.root, hstep.same.root_level]
  exact h.input hstep.fsm

theorem cursor_lineCall (h : p.lines.Valid) (call : LineCall)
    : (p.lineCall call).line.cursor = (p.lines.editor.run call).line := by
  have hspec := (h.spec_run call).editor_eq
  rw [← hspec]
  rfl

theorem valid_lineCall (h : p.lines.Valid) (call : LineCall) : (p.lineCall call).lines.Valid :=
  (h.spec_run call).valid

theorem lines_lineCall (h : p.lines.Valid) (call : LineCall) (i : Nat)
    : ((p.lineCall call).lines.lines i).cursor = (p.lines.editor.run call).lines i := by
  have hspec := (h.spec_run call).editor_eq
  rw [← hspec]
  rfl

theorem editor_setLine_line (e : LineEditor) (cursor : TextCursor Char) : (e.setLine cursor).line = cursor := by
  unfold LineEditor.setLine LineEditor.line
  exact Function.update_self ..

theorem before_le_text (c : TextCursor Char) : c.before <+: c.text := ⟨c.right, rfl⟩

theorem ParserInv.typed_text (h : ParserInv p) (hfits : LineFits p) : Typed p.cfg p.line.cursor.text := by
  constructor
  case not_erases => exact fun ch hch => (h.ordinary p.lines.cur_line ch hch).not_erases
  case length_le =>
    rw [Cparser.line, h.lines.line.length_text]
    exact Nat.le_sub_one_of_lt hfits

theorem ParserInv.typed_before (h : ParserInv p) (hfits : LineFits p) : Typed p.cfg p.line.cursor.before :=
  (h.typed_text hfits).mono (before_le_text _)

theorem FsmStep.inv (hstep : FsmStep p q ch) (h : RunInv p) : RunInv q := by
  constructor
  case lines => exact hstep.lines ▸ h.lines
  case ordinary => exact hstep.lines ▸ hstep.same.cfg ▸ h.ordinary
  case roots =>
    rw [hstep.same.root_level, hstep.same.root, hstep.same.cfg]
    exact h.roots
  case within =>
    rw [hstep.same.cfg]
    exact fsmWithin_input (fun _ ha _ hb => ha.child hb) h.within hstep.fsm

theorem ordinary_setLine {cursor : TextCursor Char} (h : RunInv p)
    (heq : p.lines.editor.run call = p.lines.editor.setLine cursor)
    (hcursor : ∀ ch ∈ cursor.text, p.cfg.Ordinary ch)
    : ∀ i, ∀ ch ∈ ((p.lineCall call).lines.lines i).cursor.text, p.cfg.Ordinary ch := by
  intro i ch hch
  rw [lines_lineCall h.lines, heq] at hch
  unfold LineEditor.setLine at hch
  dsimp only at hch
  by_cases hi : i = p.lines.editor.cur_line
  . rw [hi, Function.update_self] at hch
    exact hcursor ch hch
  . rw [Function.update_of_ne hi] at hch
    exact h.ordinary i ch hch

theorem run_insert (h : p.lines.Valid) (hch : ch ≠ NUL)
    : p.lines.editor.run (.insert ch)
        =
      p.lines.editor.setLine
        (if CPARSER_MAX_LINE_SIZE ≤ p.line.last then p.line.cursor else p.line.cursor.insert ch) := by
  unfold LineEditor.run
  dsimp only
  rw [LineBuffering.editor_line, h.line.length_text]
  change (if ch = NUL ∨ CPARSER_MAX_LINE_SIZE ≤ p.line.last then p.lines.editor
    else p.lines.editor.setLine (p.line.cursor.insert ch)) = _
  by_cases hfull : CPARSER_MAX_LINE_SIZE ≤ p.line.last
  . rw [if_pos (Or.inr hfull), if_pos hfull]
    exact (p.lines.editor.setLine_line).symm
  . rw [if_neg (not_or.mpr ⟨hch, hfull⟩), if_neg hfull]

structure Grown (p p' : Cparser) : Prop where
  same : SameSettings p p'
  inv : ParserInv p'
  last_le : p.line.last ≤ p'.line.last
  synced : Synced p → LineFits p' → Synced p'

theorem Grown.refl (h : ParserInv p) : Grown p p :=
  ⟨SameSettings.refl p, h, Nat.le_refl _, fun hsync _ => hsync⟩

theorem Grown.trans (h : Grown p p') (h' : Grown p' q) : Grown p q :=
  ⟨h.same.trans h'.same, h'.inv, Nat.le_trans h.last_le h'.last_le,
    fun hsync hfits => h'.synced (h.synced hsync (Nat.lt_of_le_of_lt h'.last_le hfits)) hfits⟩

theorem last_eq (h : p.lines.Valid) : p.line.last = p.line.cursor.text.length := h.line.length_text.symm

theorem RunInv.parserInv (h : RunInv p) (huser : p.user = none) : ParserInv p :=
  ⟨h, fun hsome => by rw [huser] at hsome; contradiction⟩

theorem RunInv.insert (h : RunInv p) (hch : p.cfg.Ordinary ch) : RunInv (p.lineCall (.insert ch)) := by
  refine ⟨valid_lineCall h.lines _, ?_, h.roots, h.within⟩
  apply ordinary_setLine h (run_insert h.lines hch.ne_nul)
  intro c hc
  split at hc
  . exact h.ordinary p.lines.cur_line c hc
  . rw [text_insert, List.mem_append, List.mem_cons] at hc
    rcases hc with hc | rfl | hc
    . exact h.ordinary p.lines.cur_line c (List.mem_append_left _ hc)
    . exact hch
    . exact h.ordinary p.lines.cur_line c (List.mem_append_right _ hc)

theorem grown_insert (h : ParserInv p) (huser : p.user = none) (hch : p.cfg.Ordinary ch)
    (hstep : FsmStep (p.lineCall (.insert ch)) q ch) : Grown p q := by
  have hvalid := valid_lineCall h.lines (.insert ch)
  have hcursor := cursor_lineCall h.lines (.insert ch)
  rw [run_insert h.lines hch.ne_nul, editor_setLine_line] at hcursor
  have hlast := last_eq hvalid
  rw [hcursor] at hlast
  have hsame := (same_lineCall p (.insert ch)).trans hstep.same
  constructor
  case same => exact hsame
  case inv => exact (hstep.inv (h.toRunInv.insert hch)).parserInv (hsame.user.trans huser)
  case last_le =>
    rw [hstep.line, hlast, last_eq h.lines]
    split
    . exact Nat.le_refl _
    . rw [text_insert, TextCursor.text, List.length_append, List.length_append, List.length_cons]
      omega
  case synced =>
    intro hsync hfits
    unfold LineFits at hfits
    rw [hstep.line, hlast] at hfits
    have hroom : ¬CPARSER_MAX_LINE_SIZE ≤ p.line.last := by
      intro hfull
      rw [if_pos hfull, ← last_eq h.lines] at hfits
      omega
    rw [if_neg hroom] at hcursor hfits
    rw [text_insert, List.length_append, List.length_cons] at hfits
    have hinput := hstep.at ((same_lineCall p (.insert ch)).at hsync rfl)
    have hcfg : (p.lineCall (.insert ch)).cfg = p.cfg := rfl
    rw [leftText, hcfg, if_neg hch.not_erases, if_pos (by omega)] at hinput
    unfold Synced
    rw [hstep.line, hcursor, before_insert]
    exact hinput

theorem grown_inputRegular (h : ParserInv p) (huser : p.user = none) (hch : p.cfg.Ordinary ch)
    (hinput : inputRegular p ch = some q) : Grown p q := by
  unfold inputRegular at hinput
  rw [if_neg hch.not_erases] at hinput
  exact grown_insert h huser hch (fsmStep hinput)

theorem grown_inputText (h : ParserInv p) (huser : p.user = none) (htext : ∀ ch ∈ text, p.cfg.Ordinary ch)
    (hinput : inputText p text = some q) : Grown p q := by
  unfold inputText at hinput
  induction text generalizing p with
  | nil =>
    cases hinput
    exact Grown.refl h
  | cons ch text ih =>
    rw [List.foldlM_cons] at hinput
    rcases Option.bind_eq_some_iff.mp hinput with ⟨r, hr, hrest⟩
    have hfirst := grown_inputRegular h huser (htext ch List.mem_cons_self) hr
    refine hfirst.trans (ih hfirst.inv (hfirst.same.user.trans huser) ?_ hrest)
    rw [hfirst.same.cfg]
    exact fun c hc => htext c (List.mem_cons_of_mem ch hc)

end Invariant

section Complete

variable {p p' q : Cparser} {env : Env} {node m : CparserNode} {token : List Char}

theorem grown_prints (h : ParserInv p) (s : List Char) : Grown p (p.prints s) := by
  constructor
  case same => exact ⟨rfl, rfl, rfl, rfl, rfl, rfl⟩
  case inv => exact ⟨⟨h.lines, h.ordinary, h.roots, h.within⟩, h.user⟩
  case last_le => exact Nat.le_refl _
  case synced => exact fun hsync _ => hsync

theorem grown_printPrompt (h : ParserInv p) : Grown p (cparserPrintPrompt p) := by
  unfold cparserPrintPrompt
  split
  . have hplus := grown_prints h ['+']
    exact hplus.trans (grown_prints hplus.inv _)
  . exact grown_prints h _

theorem grown_helpPrintNode {add_lf print_desc : Bool} (h : ParserInv p)
    (hprint : cparserHelpPrintNode p node add_lf print_desc = some q) : Grown p q := by
  unfold cparserHelpPrintNode at hprint
  split at hprint
  . cases hprint
    exact Grown.refl h
  . split at hprint
    . contradiction
    . cases hprint
      split
      . have hlf := grown_prints h ['\n']
        exact hlf.trans (grown_prints hlf.inv _)
      . exact grown_prints h _

theorem grown_helpPrintMatch (h : ParserInv p) (hprint : helpPrintMatch token p node = some q) : Grown p q := by
  unfold helpPrintMatch at hprint
  split at hprint
  . cases hprint
    exact Grown.refl h
  . split at hprint
    . contradiction
    . split at hprint
      . exact grown_helpPrintNode h hprint
      . cases hprint
        exact Grown.refl h

theorem grown_foldlM {α : Type} {f : Cparser → α → Option Cparser} {nodes : List α}
    (hf : ∀ p q a, ParserInv p → f p a = some q → Grown p q) (h : ParserInv p) (hloop : nodes.foldlM f p = some q)
    : Grown p q := by
  induction nodes generalizing p with
  | nil =>
    cases hloop
    exact Grown.refl h
  | cons node nodes ih =>
    rw [List.foldlM_cons] at hloop
    rcases Option.bind_eq_some_iff.mp hloop with ⟨r, hr, hrest⟩
    have hnode := hf p r node h hr
    exact hnode.trans (ih hnode.inv hrest)

theorem grown_printError (h : ParserInv p) (msg : List Char) : Grown p (cparserPrintError p msg) := by
  have hlf := grown_prints h ['\n']
  exact hlf.trans (grown_prints hlf.inv _)

theorem grown_helpPrintChildren (h : ParserInv p) (hprint : helpPrintChildren p = some q) : Grown p q := by
  unfold helpPrintChildren at hprint
  dsimp only at hprint
  split at hprint
  . exact grown_foldlM (fun _ _ _ => grown_helpPrintNode) h hprint
  . have herror := grown_printError h "Last known good parse point.".toList
    exact herror.trans (grown_foldlM (fun _ _ _ => grown_helpPrintNode) herror.inv hprint)
  . exact grown_foldlM (fun _ _ _ => grown_helpPrintMatch) h hprint

theorem grown_help (h : ParserInv p) (hhelp : cparserHelp p = some q) : Grown p q := by
  rcases Option.map_eq_some_iff.mp hhelp with ⟨r, hr, rfl⟩
  have hnodes := grown_helpPrintChildren h hr
  have hlf := grown_prints hnodes.inv ['\n']
  have hprompt := grown_printPrompt hlf.inv
  exact ((hnodes.trans hlf).trans hprompt).trans (grown_prints hprompt.inv _)

theorem commonText_le (as bs : List Char) : commonText as bs <+: as := by
  induction as generalizing bs with
  | nil => exact List.nil_prefix
  | cons a as ih =>
    cases bs with
    | nil => exact List.nil_prefix
    | cons b bs =>
      unfold commonText
      split
      . exact List.cons_prefix_cons.mpr ⟨rfl, ih bs⟩
      . exact List.nil_prefix

theorem foldl_commonText_le (rest : List Char) (rests : List (List Char))
    : rests.foldl commonText rest <+: rest := by
  induction rests generalizing rest with
  | nil => exact List.prefix_rfl
  | cons other rests ih => exact (ih _).trans (commonText_le rest other)

theorem mem_listCompletion {keywords : List (List Char)} {ch : Char} (h : ch ∈ listCompletion keywords token)
    : ∃ keyword ∈ keywords, ch ∈ keyword := by
  unfold listCompletion at h
  split at h
  . contradiction
  . next rest rests heq =>
    have hrest : rest ∈ (keywords.filter fun keyword => strncmp keyword token token.length = 0).map (·.drop token.length) := by
      rw [heq]
      exact List.mem_cons_self
    rcases List.mem_map.mp hrest with ⟨keyword, hkeyword, rfl⟩
    exact ⟨keyword, (List.mem_filter.mp hkeyword).1,
      List.mem_of_mem_drop ((foldl_commonText_le _ rests).subset h)⟩

def completion (env : Env) (node : CparserNode) (token : List Char) : List Char :=
  match node.type with
  | .KEYWORD => node.paramText.drop token.length
  | .FILE =>
    match env.glob token with
    | [path] => path.drop token.length
    | _ => []
  | .LIST => listCompletion node.paramList token
  | _ => []

theorem completeFnTbl_eq : cparserCompleteFnTbl env p node token = inputText p (completion env node token) := by
  unfold cparserCompleteFnTbl completion
  cases node.type with
  | FILE =>
    dsimp only
    unfold cparserCompleteFile
    cases env.glob token with
    | nil => rfl
    | cons path paths =>
      cases paths with
      | nil => rfl
      | cons path' paths => rfl
  | _ => rfl

theorem ordinary_completion (hcfg : p.cfg.Plain) (henv : env.Plain p.cfg) (hnode : Within p.cfg.root node)
    : ∀ ch ∈ completion env node token, p.cfg.Ordinary ch := by
  intro ch hch
  unfold completion at hch
  split at hch
  . next htype => exact hcfg.keyword node hnode htype ch (List.mem_of_mem_drop hch)
  . split at hch
    . next path hpath => exact henv token path (by rw [hpath]; simp) ch (List.mem_of_mem_drop hch)
    . contradiction
  . rcases mem_listCompletion hch with ⟨keyword, hkeyword, hmem⟩
    exact hcfg.list node hnode keyword hkeyword ch hmem
  . contradiction

theorem grown_completeCommon (h : ParserInv p) (huser : p.user = none) {text : List Char} {offset : Nat}
    (htext : ∀ ch ∈ text, p.cfg.Ordinary ch) (hloop : completeCommon p offset text = some q) : Grown p q := by
  induction text generalizing p offset with
  | nil =>
    cases hloop
    exact Grown.refl h
  | cons ch text ih =>
    rw [completeCommon] at hloop
    rcases Option.bind_eq_some_iff.mp hloop with ⟨common, -, hloop⟩
    split at hloop
    . rcases Option.bind_eq_some_iff.mp hloop with ⟨r, hr, hrest⟩
      have hfirst := grown_inputRegular h huser (htext ch List.mem_cons_self) hr
      refine hfirst.trans (ih hfirst.inv (hfirst.same.user.trans huser) ?_ hrest)
      rw [hfirst.same.cfg]
      exact fun c hc => htext c (List.mem_cons_of_mem ch hc)
    . cases hloop
      exact Grown.refl h

theorem grown_word (h : ParserInv p) (hcfg : p.cfg.Plain) (huser : p.user = none) {text : List Char} {r : Cparser}
    (htext : ∀ ch ∈ text, p.cfg.Ordinary ch) (hinput : inputText p text = some q)
    (hspace : inputRegular q ' ' = some r) : Grown p r := by
  have hword := grown_inputText h huser htext hinput
  exact hword.trans (grown_inputRegular hword.inv (hword.same.user.trans huser) (hword.same.cfg ▸ hcfg.space) hspace)

theorem matchPrefixLoop_keyword {ch : Char} {offset : Nat} {children : List CparserNode} (hmem : m ∈ children)
    (husable : p.usable m = true) (hsome : (cparserMatchFnTbl m p.fsm.curToken.buf).isSome = true)
    (h : matchPrefixLoop p ch offset children = some true) : m.type = .KEYWORD := by
  induction children with
  | nil => contradiction
  | cons child children ih =>
    unfold matchPrefixLoop at h
    rcases List.mem_cons.mp hmem with rfl | hmem
    . have hnone : (cparserMatchFnTbl m p.fsm.curToken.buf).isNone = false := by
        rw [← Option.not_isSome, hsome]
        rfl
      rw [husable, hnone] at h
      split at h
      . contradiction
      . split at h
        . contradiction
        . split at h
          . contradiction
          . split at h
            . contradiction
            . next hkeyword =>
              rw [not_or, not_not] at hkeyword
              exact hkeyword.1
    . split at h
      . exact ih hmem h
      . split at h
        . contradiction
        . split at h
          . exact ih hmem h
          . split at h
            . contradiction
            . exact ih hmem h

theorem matchPrefix_keyword {ch : Char} {offset : Nat}
    (hm : Candidate p.is_privileged_mode p.fsm.cur_node p.fsm.curToken.buf m)
    (h : cparserMatchPrefix p ch offset = some true) : m.type = .KEYWORD :=
  matchPrefixLoop_keyword hm.mem hm.usable hm.isSome h

theorem grown_completeOneLevel {r : Cparser × Bool} (h : ParserInv p) (hcfg : p.cfg.Plain) (henv : env.Plain p.cfg)
    (huser : p.user = none) (hround : cparserCompleteOneLevel env p = some r) : Grown p r.1 := by
  have hchild {child : CparserNode} (hmem : child ∈ p.fsm.cur_node.children) : Within p.cfg.root child :=
    h.within.cur_node.child hmem
  have hhelp (hround : (cparserHelp p).map (·, false) = some r) : Grown p r.1 := by
    rcases Option.map_eq_some_iff.mp hround with ⟨q, hq, rfl⟩
    exact grown_help h hq
  unfold cparserCompleteOneLevel at hround
  cases hstate : p.fsm.state with
  | ERROR =>
    rw [hstate] at hround
    cases hround
    exact grown_prints h [BEL]
  | WHITESPACE =>
    rw [hstate] at hround
    dsimp only at hround
    split at hround
    . next child hchildren =>
      split at hround
      . next htype =>
        rcases Option.bind_eq_some_iff.mp hround with ⟨q, hq, hround⟩
        rcases Option.bind_eq_some_iff.mp hround with ⟨q', hq', hround⟩
        cases hround
        refine grown_word h hcfg huser (hcfg.keyword child (hchild ?_) htype) hq hq'
        rw [hchildren]
        exact List.mem_cons_self
      . exact hhelp hround
    . exact hhelp hround
  | TOKEN =>
    rw [hstate] at hround
    dsimp only at hround
    rcases Option.bind_eq_some_iff.mp hround with ⟨found, hfound, hround⟩
    rcases Option.bind_eq_some_iff.mp hround with ⟨m, hm, hround⟩
    rw [cparserMatch_eq_some hfound] at hm
    have hcand := candidate_of_found hm
    split at hround
    . rcases Option.bind_eq_some_iff.mp hround with ⟨q, hq, hround⟩
      rcases Option.bind_eq_some_iff.mp hround with ⟨q', hq', hround⟩
      cases hround
      rw [completeFnTbl_eq] at hq
      exact grown_word h hcfg huser (ordinary_completion hcfg henv (hchild hcand.mem)) hq hq'
    . split at hround
      . exact hhelp hround
      . next ch rest hdrop =>
        rcases Option.bind_eq_some_iff.mp hround with ⟨common, hcommon, hround⟩
        split at hround
        . next htrue =>
          rcases Option.map_eq_some_iff.mp hround with ⟨q, hq, rfl⟩
          apply grown_completeCommon h huser ?_ hq
          intro c hc
          rw [← hdrop] at hc
          exact hcfg.keyword m (hchild hcand.mem) (matchPrefix_keyword hcand (htrue ▸ hcommon)) c
            (List.mem_of_mem_drop hc)
        . exact hhelp hround

theorem grown_completeLoop {n : Nat} (h : ParserInv p) (hcfg : p.cfg.Plain) (henv : env.Plain p.cfg)
    (huser : p.user = none) (hloop : completeLoop env n p = some p') : Grown p p' := by
  induction n generalizing p with
  | zero => contradiction
  | succ n ih =>
    unfold completeLoop at hloop
    rcases Option.bind_eq_some_iff.mp hloop with ⟨r, hr, hloop⟩
    have hround : Grown p r.1 := grown_completeOneLevel h hcfg henv huser hr
    split at hloop
    . refine hround.trans (ih hround.inv ?_ ?_ (hround.same.user.trans huser) hloop)
      . rwa [hround.same.cfg]
      . rwa [hround.same.cfg]
    . cases hloop
      exact hround

end Complete

section Execute

variable {p p' : Cparser} {env : Env} {rc : CparserResult}

structure ActionSpec (p p' : Cparser) : Prop where
  inv : RunInv p'
  cfg : p'.cfg = p.cfg

theorem actionSpec_submodeEnter {prompt : List Char} (h : RunInv p) (hrun : cparserSubmodeEnter p prompt = some p')
    : ActionSpec p p' := by
  unfold cparserSubmodeEnter at hrun
  split at hrun
  . cases hrun
    exact ⟨h, rfl⟩
  . split at hrun
    . next new_root rest hchildren =>
      split at hrun
      . next htype =>
        cases hrun
        refine ⟨{ h with roots := ?_ }, rfl⟩
        intro i hi
        dsimp only
        by_cases hlevel : i = p.root_level + 1
        . rw [hlevel, Function.update_self]
          refine ⟨h.within.cur_node.child ?_, htype⟩
          rw [hchildren]
          exact List.mem_cons_self
        . rw [Function.update_of_ne hlevel]
          exact h.roots i (by dsimp only at hi; omega)
      . contradiction
    . contradiction

theorem actionSpec_api {call : ApiCall} (h : RunInv p) (hrun : call.run p = some p') : ActionSpec p p' := by
  cases call with
  | prints s =>
    cases hrun
    exact ⟨{ h with }, rfl⟩
  | submodeEnter prompt => exact actionSpec_submodeEnter h hrun
  | submodeExit =>
    cases hrun
    unfold cparserSubmodeExit
    split
    . exact ⟨h, rfl⟩
    . exact ⟨{ h with roots := fun i hi => h.roots i (Nat.le_trans hi (Nat.sub_le _ 1)) }, rfl⟩
  | setPrivilegedMode enable =>
    cases hrun
    exact ⟨{ h with }, rfl⟩
  | quit =>
    cases hrun
    exact ⟨{ h with }, rfl⟩
  | userInput prompt do_echo buf_size cb =>
    cases hrun
    unfold cparserUserInput
    split
    . exact ⟨h, rfl⟩
    . exact ⟨{ h with }, rfl⟩

theorem actionSpec_calls {calls : List ApiCall} (h : RunInv p) (hrun : calls.foldlM ApiCall.run p = some p')
    : ActionSpec p p' := by
  induction calls generalizing p with
  | nil =>
    cases hrun
    exact ⟨h, rfl⟩
  | cons call calls ih =>
    rw [List.foldlM_cons] at hrun
    rcases Option.bind_eq_some_iff.mp hrun with ⟨q, hq, hrun⟩
    have hcall := actionSpec_api h hq
    have hrest := ih hcall.inv hrun
    exact ⟨hrest.inv, hrest.cfg.trans hcall.cfg⟩

theorem actionSpec_glue {fn : List Char} (h : RunInv p) (hrun : runGlue env p fn = some p') : ActionSpec p p' := by
  unfold runGlue at hrun
  rcases Option.bind_eq_some_iff.mp hrun with ⟨path, -, hrun⟩
  rcases Option.bind_eq_some_iff.mp hrun with ⟨args, -, hrun⟩
  have hcalled : RunInv { p with called := p.called ++ [⟨fn, args⟩] } := { h with }
  have hspec := actionSpec_calls hcalled hrun
  exact ⟨hspec.inv, hspec.cfg⟩

structure Ready (cfg : CparserCfg) (p : Cparser) : Prop where
  inv : RunInv p
  fsm : p.fsm = cparserFsmReset (p.root p.root_level)
  cfg : p.cfg = cfg

theorem Ready.prints {cfg : CparserCfg} (h : Ready cfg p) (s : List Char) : Ready cfg (p.prints s) :=
  ⟨{ h.inv with }, h.fsm, h.cfg⟩

theorem Ready.printPrompt {cfg : CparserCfg} (h : Ready cfg p) : Ready cfg (cparserPrintPrompt p) := by
  unfold cparserPrintPrompt
  split
  . exact (h.prints _).prints _
  . exact h.prints _

theorem ready_reset (h : RunInv p) (rc : CparserResult) : Ready p.cfg (cparserRecordCommand p rc).fsmReset :=
  ⟨{ h with within := fsmWithin_reset (h.roots _ (Nat.le_refl _)).within }, rfl, rfl⟩

theorem ready_notExecuted (h : RunInv p) (rc : CparserResult) : Ready p.cfg (notExecuted p rc) := by
  unfold notExecuted
  dsimp only
  apply Ready.printPrompt
  split
  . exact (ready_reset h rc).prints _
  . exact ready_reset h rc

theorem ready_executeEnd {r : Cparser × CparserResult} (h : ParserInv p) (hrun : executeEnd env p = some r)
    : Ready p.cfg r.1 := by
  unfold executeEnd at hrun
  split at hrun
  . next child hfind =>
    have hchild := h.within.cur_node.child (List.mem_of_find?_eq_some hfind)
    rcases Option.bind_eq_some_iff.mp hrun with ⟨q, hq, hrun⟩
    cases hrun
    have hcur : RunInv ({ p with fsm := { p.fsm with cur_node := child } }.printc '\n') :=
      ⟨h.lines, h.ordinary, h.roots, ⟨hchild, h.within.parents⟩⟩
    have hspec := actionSpec_glue hcur hq
    have hready : Ready p.cfg (cparserRecordCommand q .OK).fsmReset :=
      ⟨(ready_reset hspec.inv .OK).inv, rfl, hspec.cfg⟩
    dsimp only
    split
    . exact hready
    . exact hready.printPrompt
  . split at hrun
    . cases hrun
      exact ready_notExecuted (grown_printError h _).inv.toRunInv _
    . cases hrun
      exact ready_notExecuted h.toRunInv _

theorem grown_completeSingle {n : Nat} (h : ParserInv p) (hcfg : p.cfg.Plain) (huser : p.user = none)
    (hrun : completeSingle n p = some p') : Grown p p' := by
  induction n generalizing p with
  | zero => contradiction
  | succ n ih =>
    unfold completeSingle at hrun
    split at hrun
    . contradiction
    . next child siblings hchildren =>
      split at hrun
      . next hsingle =>
        have hchild : Within p.cfg.root child := by
          apply h.within.cur_node.child
          rw [hchildren]
          exact List.mem_cons_self
        rcases Option.bind_eq_some_iff.mp hrun with ⟨q, hq, hrun⟩
        rcases Option.bind_eq_some_iff.mp hrun with ⟨q', hq', hrun⟩
        have hword := grown_word h hcfg huser
          (fun ch hch => hcfg.keyword child hchild hsingle.1 ch (List.mem_of_mem_drop hch)) hq hq'
        refine hword.trans (ih hword.inv ?_ (hword.same.user.trans huser) hrun)
        rwa [hword.same.cfg]
      . cases hrun
        exact Grown.refl h

theorem ready_executeCmd {r : Cparser × CparserResult} (h : ParserInv p) (hcfg : p.cfg.Plain)
    (henv : env.Plain p.cfg) (huser : p.user = none) (hrun : cparserExecuteCmd env p = some r)
    : Ready p.cfg r.1 := by
  have hsingle {q : Cparser} (hgrown : Grown p q)
      (hrun : (do let q ← completeSingle CPARSER_MAX_LINE_SIZE q; executeEnd env q) = some r) : Ready p.cfg r.1 := by
    rcases Option.bind_eq_some_iff.mp hrun with ⟨q', hq', hrun⟩
    have hq := grown_completeSingle hgrown.inv (hgrown.same.cfg ▸ hcfg) (hgrown.same.user.trans huser) hq'
    have hready := ready_executeEnd hq.inv hrun
    rwa [hq.same.cfg, hgrown.same.cfg] at hready
  have hincomplete : Ready p.cfg (notExecuted (cparserPrintError p "Incomplete command\n".toList) .ERR_INCOMP_CMD) :=
    ready_notExecuted (grown_printError h _).inv.toRunInv _
  unfold cparserExecuteCmd at hrun
  cases hstate : p.fsm.state with
  | TOKEN =>
    rw [hstate] at hrun
    dsimp only at hrun
    rcases Option.bind_eq_some_iff.mp hrun with ⟨found, hfound, hrun⟩
    split at hrun
    . next m hm =>
      rw [cparserMatch_eq_some hfound] at hm
      split at hrun
      . rcases Option.bind_eq_some_iff.mp hrun with ⟨q, hq, hrun⟩
        rcases Option.bind_eq_some_iff.mp hrun with ⟨q', hq', hrun⟩
        rw [completeFnTbl_eq] at hq
        refine hsingle (grown_word h hcfg huser (ordinary_completion hcfg henv ?_) hq hq') hrun
        exact h.within.cur_node.child (candidate_of_found hm).mem
      . cases hrun
        exact hincomplete
    . cases hrun
      exact hincomplete
  | WHITESPACE =>
    rw [hstate] at hrun
    exact hsingle (Grown.refl h) hrun
  | ERROR =>
    rw [hstate] at hrun
    cases hrun
    exact (ready_reset (grown_printError h _).inv.toRunInv _).printPrompt

end Execute

section Keys

variable {p p' q : Cparser} {env : Env} {key : Key} {ch : Char} {call : LineCall}
  {cursor : TextCursor Char} {text : List Char}

theorem RunInv.lineCall (h : RunInv p) (heq : p.lines.editor.run call = p.lines.editor.setLine cursor)
    (hcursor : ∀ ch ∈ cursor.text, p.cfg.Ordinary ch) : RunInv (p.lineCall call) :=
  ⟨valid_lineCall h.lines call, ordinary_setLine h heq hcursor, h.roots, h.within⟩

theorem RunInv.ordinary_line (h : RunInv p) : ∀ ch ∈ p.line.cursor.text, p.cfg.Ordinary ch :=
  h.ordinary p.lines.cur_line

structure Moved (p p' : Cparser) : Prop where
  same : SameSettings p p'
  inv : ParserInv p'
  last_eq : p'.line.last = p.line.last
  synced : Synced p → LineFits p → Synced p'

theorem Moved.refl (h : ParserInv p) : Moved p p :=
  ⟨SameSettings.refl p, h, rfl, fun hsync _ => hsync⟩

theorem Moved.trans (h : Moved p p') (h' : Moved p' q) : Moved p q :=
  ⟨h.same.trans h'.same, h'.inv, h'.last_eq.trans h.last_eq,
    fun hsync hfits => h'.synced (h.synced hsync hfits) (by unfold LineFits; rw [h.last_eq]; exact hfits)⟩

theorem moved_call (h : ParserInv p) (huser : p.user = none) (cursor : TextCursor Char)
    (heq : p.lines.editor.run call = p.lines.editor.setLine cursor) (htext : cursor.text = p.line.cursor.text)
    (hleft : LineFits p → cursor.before = leftText p.cfg p.line.cursor.before ch)
    (hstep : FsmStep (p.lineCall call) q ch) : Moved p q := by
  have hcursor := cursor_lineCall h.lines call
  rw [heq, editor_setLine_line] at hcursor
  have hinv : RunInv (p.lineCall call) := h.toRunInv.lineCall heq (htext ▸ h.toRunInv.ordinary_line)
  have hsame := (same_lineCall p call).trans hstep.same
  constructor
  case same => exact hsame
  case inv => exact (hstep.inv hinv).parserInv (hsame.user.trans huser)
  case last_eq => rw [hstep.line, last_eq hinv.lines, last_eq h.lines, hcursor, htext]
  case synced =>
    intro hsync hfits
    have hinput := hstep.at ((same_lineCall p call).at hsync rfl)
    unfold Synced
    rw [hstep.line, hcursor, hleft hfits]
    exact hinput

theorem moved_prevChar (h : ParserInv p) (hcfg : p.cfg.Plain) (huser : p.user = none)
    (hstep : FsmStep (p.lineCall .prevChar) q BS) : Moved p q := by
  apply moved_call h huser p.line.cursor.moveLeft rfl ?_ ?_ hstep
  . exact text_moveLeft _
  . intro _
    rw [leftText, if_pos hcfg.erases_bs, before_moveLeft]

theorem moved_nextChar (h : ParserInv p) (huser : p.user = none) (hch : (cparserLineNextChar p.line).1 ≠ NUL)
    (hstep : FsmStep (p.lineCall .nextChar) q (cparserLineNextChar p.line).1) : Moved p q := by
  have hnext : (cparserLineNextChar p.line).1 = p.line.cursor.right.headD NUL := h.lines.line.nextChar_eq
  rw [hnext] at hch hstep
  cases hright : p.line.cursor.right with
  | nil =>
    rw [hright] at hch
    exact absurd rfl hch
  | cons c rest =>
    rw [hright, List.headD_cons] at hstep
    apply moved_call h huser p.line.cursor.moveRight rfl ?_ ?_ hstep
    . exact text_moveRight _
    . intro hfits
      have hmem : c ∈ p.line.cursor.text := List.mem_append_right _ (by rw [hright]; exact List.mem_cons_self)
      have hlen : p.line.cursor.before.length + 1 ≤ p.line.last := by
        rw [last_eq h.lines, TextCursor.text, List.length_append, hright, List.length_cons]
        omega
      unfold LineFits at hfits
      rw [leftText, if_neg (h.toRunInv.ordinary_line c hmem).not_erases, if_pos (by omega), before_moveRight hright]

theorem lineCall_eq_self (hlines : (call.run p.lines).1 = p.lines) (hprinted : (call.run p.lines).2 = [])
    : p.lineCall call = p := by
  unfold Cparser.lineCall Cparser.prints
  rw [hlines, hprinted, List.append_nil]

theorem lineCall_prevChar_of_nul (hch : (cparserLinePrevChar p.line).1 = NUL) : p.lineCall .prevChar = p := by
  have heq : cparserLinePrevChar p.line = (NUL, p.line, []) := by
    unfold cparserLinePrevChar at hch ⊢
    split at hch
    . next hzero => rw [if_pos hzero]
    . exact absurd hch (show ¬BS = NUL by decide)
  apply lineCall_eq_self
  . change p.lines.setLine (cparserLinePrevChar p.line).2.1 = p.lines
    rw [heq]
    exact p.lines.setLine_line
  . change (cparserLinePrevChar p.line).2.2 = []
    rw [heq]

theorem lineCall_nextChar_of_nul (h : p.lines.Valid) (hch : (cparserLineNextChar p.line).1 = NUL)
    : p.lineCall .nextChar = p := by
  have heq : cparserLineNextChar p.line = (NUL, p.line, []) := by
    unfold cparserLineNextChar at hch ⊢
    split at hch
    . next hlast => rw [if_pos hlast]
    . next hlast =>
      have hcurrent := h.line.current_le
      exact absurd hch (h.line.ne_nul _ (lt_of_le_of_ne hcurrent (Ne.symm hlast)))
  apply lineCall_eq_self
  . change p.lines.setLine (cparserLineNextChar p.line).2.1 = p.lines
    rw [heq]
    exact p.lines.setLine_line
  . change (cparserLineNextChar p.line).2.2 = []
    rw [heq]

theorem nextChar_mem (h : p.lines.Valid) (hch : (cparserLineNextChar p.line).1 ≠ NUL)
    : (cparserLineNextChar p.line).1 ∈ p.line.cursor.text := by
  have hnext : (cparserLineNextChar p.line).1 = p.line.cursor.right.headD NUL := h.line.nextChar_eq
  rw [hnext] at hch ⊢
  apply List.mem_append_right
  cases hright : p.line.cursor.right with
  | nil =>
    rw [hright] at hch
    exact absurd rfl hch
  | cons c rest => exact List.mem_cons_self

theorem prevChar_eq_bs (hch : (cparserLinePrevChar p.line).1 ≠ NUL) : (cparserLinePrevChar p.line).1 = BS := by
  unfold cparserLinePrevChar at hch ⊢
  split
  . next hzero =>
    rw [if_pos hzero] at hch
    exact absurd rfl hch
  . rfl

theorem moved_inputFirst {n : Nat} (h : ParserInv p) (hcfg : p.cfg.Plain) (huser : p.user = none)
    (hloop : inputFirst n p = some q) : Moved p q := by
  induction n generalizing p with
  | zero =>
    cases hloop
    exact Moved.refl h
  | succ n ih =>
    unfold inputFirst at hloop
    dsimp only at hloop
    split at hloop
    . next hch =>
      rw [lineCall_prevChar_of_nul hch] at hloop
      cases hloop
      exact Moved.refl h
    . next hch =>
      rw [prevChar_eq_bs hch] at hloop
      rcases Option.bind_eq_some_iff.mp hloop with ⟨r, hr, hrest⟩
      have hmoved := moved_prevChar h hcfg huser (fsmStep hr)
      exact hmoved.trans (ih hmoved.inv (hmoved.same.cfg ▸ hcfg) (hmoved.same.user.trans huser) hrest)

theorem moved_inputLast {n : Nat} (h : ParserInv p) (huser : p.user = none) (hloop : inputLast n p = some q)
    : Moved p q := by
  induction n generalizing p with
  | zero =>
    cases hloop
    exact Moved.refl h
  | succ n ih =>
    unfold inputLast at hloop
    dsimp only at hloop
    split at hloop
    . next hch =>
      rw [lineCall_nextChar_of_nul h.lines hch] at hloop
      cases hloop
      exact Moved.refl h
    . next hch =>
      rcases Option.bind_eq_some_iff.mp hloop with ⟨r, hr, hrest⟩
      have hmoved := moved_nextChar h huser hch (fsmStep hr)
      exact hmoved.trans (ih hmoved.inv (hmoved.same.user.trans huser) hrest)

structure KeySpec (p p' : Cparser) : Prop where
  cfg : p'.cfg = p.cfg
  inv : ParserInv p'
  synced : Synced p → LineFits p → LineFits p' → Synced p'

theorem Grown.keySpec (h : Grown p p') : KeySpec p p' :=
  ⟨h.same.cfg, h.inv, fun hsync _ hfits' => h.synced hsync hfits'⟩

theorem Moved.keySpec (h : Moved p p') : KeySpec p p' :=
  ⟨h.same.cfg, h.inv, fun hsync hfits _ => h.synced hsync hfits⟩

structure FsmRun (p q : Cparser) (text : List Char) : Prop where
  same : SameSettings p q
  lines : q.lines = p.lines
  fsm : feed p.cfg p.is_privileged_mode p.fsm text = some q.fsm
  inv : RunInv p → RunInv q

theorem fsmRun (h : text.foldlM Cparser.fsmInput p = some q) : FsmRun p q text := by
  induction text generalizing p with
  | nil =>
    cases h
    exact ⟨SameSettings.refl _, rfl, rfl, id⟩
  | cons ch text ih =>
    rw [List.foldlM_cons] at h
    rcases Option.bind_eq_some_iff.mp h with ⟨r, hr, hrest⟩
    have hstep := fsmStep hr
    have hrun := ih hrest
    refine ⟨hstep.same.trans hrun.same, hrun.lines.trans hstep.lines, ?_, fun hinv => hrun.inv (hstep.inv hinv)⟩
    have hfed := hrun.fsm
    rw [hstep.same.cfg, hstep.same.is_privileged_mode] at hfed
    unfold feed at hfed ⊢
    rw [List.foldlM_cons, hstep.fsm]
    exact hfed

theorem FsmRun.at {before : List Char} (hrun : FsmRun p q text) (h : At p before)
    (htyped : Typed p.cfg (before ++ text)) : At q (before ++ text) := by
  rcases h.exists_feed with ⟨f, hf, hmask⟩
  unfold At
  rw [hrun.same.cfg, hrun.same.is_privileged_mode, hrun.same.root, hrun.same.root_level]
  refine ⟨htyped, ?_⟩
  rw [feed_append, hf, Option.bind_some, mask_feed_congr hmask, hrun.fsm]
  rfl

theorem keySpec_otherLine (h : ParserInv p) (huser : p.user = none)
    (hlines : (p.lines.editor.run call).lines = p.lines.editor.lines) (hinput : inputOtherLine p call = some q)
    : KeySpec p q := by
  have hcall : RunInv (p.lineCall call).fsmReset := by
    refine ⟨valid_lineCall h.lines call, ?_, h.roots, fsmWithin_reset (h.roots _ (Nat.le_refl _)).within⟩
    intro i ch hch
    change ch ∈ ((p.lineCall call).lines.lines i).cursor.text at hch
    rw [lines_lineCall h.lines, hlines] at hch
    exact h.ordinary i ch hch
  unfold inputOtherLine at hinput
  dsimp only at hinput
  have hrun := fsmRun hinput
  have hinv := (hrun.inv hcall).parserInv (hrun.same.user.trans huser)
  constructor
  case cfg => exact hrun.same.cfg
  case inv => exact hinv
  case synced =>
    intro _ _ hfits
    have htyped := hinv.typed_before hfits
    have hline : q.line = (p.lineCall call).fsmReset.line := congrArg LineBuffering.line hrun.lines
    have hbefore : q.line.cursor.before = slice (p.lineCall call).fsmReset.line.buf 0
        (p.lineCall call).fsmReset.line.current := by
      rw [hline]
      exact before_ofBuffer ..
    rw [hbefore, hrun.same.cfg] at htyped
    unfold Synced
    rw [hbefore]
    exact hrun.at (after_reset _ _ _) htyped

structure Untouched (p q : Cparser) : Prop where
  cfg : q.cfg = p.cfg
  lines : q.lines = p.lines
  root_level : q.root_level = p.root_level
  root : q.root = p.root
  fsm : q.fsm = p.fsm

theorem Untouched.trans {r : Cparser} (h : Untouched p q) (h' : Untouched q r) : Untouched p r :=
  ⟨h'.cfg.trans h.cfg, h'.lines.trans h.lines, h'.root_level.trans h.root_level, h'.root.trans h.root,
    h'.fsm.trans h.fsm⟩

theorem untouched_callbacks (calls : List CallbackCall) (p : Cparser)
    : Untouched p (calls.foldl CallbackCall.run p) := by
  induction calls generalizing p with
  | nil => exact ⟨rfl, rfl, rfl, rfl, rfl⟩
  | cons call calls ih =>
    have hcall : Untouched p (call.run p) := by
      cases call with
      | prints s => exact ⟨rfl, rfl, rfl, rfl, rfl⟩
      | setPrivilegedMode enable => exact ⟨rfl, rfl, rfl, rfl, rfl⟩
      | quit => exact ⟨rfl, rfl, rfl, rfl, rfl⟩
    exact hcall.trans (ih (call.run p))

theorem untouched_printPrompt (p : Cparser) : Untouched p (cparserPrintPrompt p) := by
  unfold cparserPrintPrompt
  split
  . exact ⟨rfl, rfl, rfl, rfl, rfl⟩
  . exact ⟨rfl, rfl, rfl, rfl, rfl⟩

theorem untouched_inputUser (env : Env) (p : Cparser) (user : UserInput) (key : Key)
    : Untouched p (inputUser env p user key) := by
  unfold inputUser
  split
  . split
    . have hcb := untouched_callbacks (env.input_cb user.cb user.buf) p
      have huser : Untouched p { (env.input_cb user.cb user.buf).foldl CallbackCall.run p with user := none } :=
        ⟨hcb.cfg, hcb.lines, hcb.root_level, hcb.root, hcb.fsm⟩
      exact huser.trans (untouched_printPrompt _)
    . split
      . dsimp only
        split
        . exact ⟨rfl, rfl, rfl, rfl, rfl⟩
        . exact ⟨rfl, rfl, rfl, rfl, rfl⟩
      . split
        . dsimp only
          split
          . exact ⟨rfl, rfl, rfl, rfl, rfl⟩
          . exact ⟨rfl, rfl, rfl, rfl, rfl⟩
        . exact ⟨rfl, rfl, rfl, rfl, rfl⟩
  . exact ⟨rfl, rfl, rfl, rfl, rfl⟩

theorem Untouched.keySpec (h : Untouched p q) (hinv : ParserInv p) (huser : p.user.isSome) : KeySpec p q := by
  have hempty := hinv.user huser
  have hline : q.line = p.line := congrArg LineBuffering.line h.lines
  constructor
  case cfg => exact h.cfg
  case inv =>
    refine ⟨⟨h.lines ▸ hinv.lines, ?_, ?_, ?_⟩, fun _ => ?_⟩
    . rw [h.lines, h.cfg]
      exact hinv.ordinary
    . rw [h.root_level, h.root, h.cfg]
      exact hinv.roots
    . rw [h.fsm, h.cfg]
      exact hinv.within
    . rw [hline, h.fsm, h.root, h.root_level]
      exact hempty
  case synced =>
    intro _ _ _
    unfold Synced At
    rw [hline, hempty.1, h.fsm, hempty.2, before_empty, h.root, h.root_level]
    exact after_reset _ _ _

theorem keySpec_advance (h : Ready p.cfg p') : KeySpec p (p'.lineCall .advance) := by
  have hcursor := cursor_lineCall h.inv.lines .advance
  have hempty : (p'.lineCall .advance).line.cursor = TextCursor.empty := by
    rw [hcursor]
    unfold LineEditor.run LineEditor.advance LineEditor.line
    exact Function.update_self ..
  constructor
  case cfg => exact h.cfg
  case inv =>
    refine ⟨⟨valid_lineCall h.inv.lines .advance, ?_, h.inv.roots, h.inv.within⟩, fun _ => ⟨hempty, h.fsm⟩⟩
    intro i ch hch
    rw [lines_lineCall h.inv.lines] at hch
    unfold LineEditor.run LineEditor.advance at hch
    dsimp only at hch
    by_cases hi : i = (p'.lines.editor.cur_line + 1) % CPARSER_MAX_LINES
    . rw [hi, Function.update_self] at hch
      exact absurd hch (by simp)
    . rw [Function.update_of_ne hi] at hch
      exact h.inv.ordinary i ch hch
  case synced =>
    intro _ _ _
    have hfsm : (p'.lineCall .advance).fsm
        = cparserFsmReset ((p'.lineCall .advance).root (p'.lineCall .advance).root_level) := h.fsm
    unfold Synced At
    rw [hempty, before_empty, hfsm]
    exact after_reset _ _ _

theorem keySpec_special (h : ParserInv p) (hcfg : p.cfg.Plain) (henv : env.Plain p.cfg) (huser : p.user = none)
    (hch : ch = p.cfg.ch_complete ∨ ch = p.cfg.ch_help ∨ ch = '\n')
    (hrun : handleSpecial env p ch = some p') : KeySpec p p' := by
  unfold handleSpecial at hrun
  split at hrun
  . exact (grown_completeLoop h hcfg henv huser hrun).keySpec
  . next hcomplete =>
    split at hrun
    . exact (grown_help h hrun).keySpec
    . next hhelp =>
      have hnewline : ch = '\n' := (hch.resolve_left hcomplete).resolve_left hhelp
      rw [if_pos hnewline] at hrun
      rcases Option.map_eq_some_iff.mp hrun with ⟨r, hr, rfl⟩
      exact keySpec_advance (ready_executeCmd h hcfg henv huser hr)

theorem handleSpecial_plain (hcomplete : ch ≠ p.cfg.ch_complete) (hhelp : ch ≠ p.cfg.ch_help) (hnewline : ch ≠ '\n')
    : handleSpecial env (p.lineCall call) ch = (p.lineCall call).fsmInput ch := by
  have hcfg : (p.lineCall call).cfg = p.cfg := rfl
  unfold handleSpecial
  rw [hcfg, if_neg hcomplete, if_neg hhelp, if_neg hnewline]

theorem keySpec_delete (h : ParserInv p) (huser : p.user = none) (herase : Erases p.cfg ch)
    (hstep : FsmStep (p.lineCall .delete) q ch) : KeySpec p q := by
  have hcursor := cursor_lineCall h.lines .delete
  have heq : p.lines.editor.run .delete = p.lines.editor.setLine p.line.cursor.delete := rfl
  rw [heq, editor_setLine_line] at hcursor
  have hinv : RunInv (p.lineCall .delete) := by
    refine h.toRunInv.lineCall heq ?_
    intro c hc
    apply h.toRunInv.ordinary_line c
    rw [text_delete, List.mem_append] at hc
    rcases hc with hc | hc
    . exact List.mem_append_left _ (List.mem_of_mem_dropLast hc)
    . exact List.mem_append_right _ hc
  constructor
  case cfg => exact hstep.same.cfg
  case inv => exact (hstep.inv hinv).parserInv (hstep.same.user.trans huser)
  case synced =>
    intro hsync _ _
    have hinput := hstep.at ((same_lineCall p .delete).at hsync rfl)
    have hcfg : (p.lineCall .delete).cfg = p.cfg := rfl
    rw [leftText, hcfg, if_pos herase] at hinput
    unfold Synced
    rw [hstep.line, hcursor, before_delete]
    exact hinput

theorem keySpec_newline {r : Cparser} {pos n : Nat} (h : ParserInv p) (hcfg : p.cfg.Plain) (henv : env.Plain p.cfg)
    (huser : p.user = none) (hcomplete : p.cfg.ch_complete ≠ '\n') (hhelp : p.cfg.ch_help ≠ '\n')
    (hinput : fsmInputFrom p pos n = some r) (hrun : handleSpecial env r '\n' = some p') : KeySpec p p' := by
  have hfsm := fsmRun hinput
  have hsame := hfsm.same
  have hinv := (hfsm.inv h.toRunInv).parserInv (hsame.user.trans huser)
  unfold handleSpecial at hrun
  rw [hsame.cfg, if_neg (Ne.symm hcomplete), if_neg (Ne.symm hhelp), if_pos rfl] at hrun
  rcases Option.map_eq_some_iff.mp hrun with ⟨r', hr', rfl⟩
  have hready := ready_executeCmd hinv (hsame.cfg ▸ hcfg) (hsame.cfg ▸ henv) (hsame.user.trans huser) hr'
  rw [hsame.cfg] at hready
  exact keySpec_advance hready

theorem keySpec_input (h : ParserInv p) (hcfg : p.cfg.Plain) (henv : env.Plain p.cfg)
    (hkey : key ≠ .REGULAR NUL) (hrun : cparserInput env p key = some p') : KeySpec p p' := by
  unfold cparserInput at hrun
  cases huser : p.user with
  | some user =>
    rw [huser] at hrun
    cases hrun
    exact (untouched_inputUser env p user key).keySpec h (by rw [huser]; rfl)
  | none =>
    rw [huser] at hrun
    cases key with
    | REGULAR ch =>
      dsimp only at hrun
      split at hrun
      . next hspecial =>
        refine keySpec_special h hcfg henv huser ?_ hrun
        rcases hspecial with heq | heq
        . exact .inl heq.symm
        . exact .inr (.inl heq.symm)
      . next hspecial =>
        rw [not_or] at hspecial
        split at hrun
        . next herase =>
          split at hrun
          . cases hrun
            exact (Grown.refl h).keySpec
          . have hnewline : ch ≠ '\n' := by
              rintro rfl
              exact hcfg.newline herase
            rw [handleSpecial_plain (Ne.symm hspecial.1) (Ne.symm hspecial.2) hnewline] at hrun
            exact keySpec_delete h huser herase (fsmStep hrun)
        . next herase =>
          split at hrun
          . next hnewline =>
            subst hnewline
            rcases Option.bind_eq_some_iff.mp hrun with ⟨r, hr, hrun⟩
            exact keySpec_newline h hcfg henv huser hspecial.1 hspecial.2 hr hrun
          . next hnewline =>
            rw [handleSpecial_plain (Ne.symm hspecial.1) (Ne.symm hspecial.2) hnewline] at hrun
            have hnul : ch ≠ NUL := by
              rintro rfl
              exact hkey rfl
            exact (grown_insert h huser ⟨herase, Ne.symm hspecial.1, Ne.symm hspecial.2, hnewline, hnul⟩
              (fsmStep hrun)).keySpec
    | UP_ARROW => exact keySpec_otherLine h huser rfl hrun
    | DOWN_ARROW => exact keySpec_otherLine h huser rfl hrun
    | LEFT_ARROW =>
      dsimp only at hrun
      split at hrun
      . next hch =>
        cases hrun
        rw [lineCall_prevChar_of_nul hch]
        exact (grown_prints h [BEL]).keySpec
      . next hch =>
        rw [prevChar_eq_bs hch, handleSpecial_plain hcfg.bs_ne_complete hcfg.bs_ne_help (by decide)] at hrun
        exact (moved_prevChar h hcfg huser (fsmStep hrun)).keySpec
    | RIGHT_ARROW =>
      dsimp only at hrun
      split at hrun
      . next hch =>
        cases hrun
        rw [lineCall_nextChar_of_nul h.lines hch]
        exact (grown_prints h [BEL]).keySpec
      . next hch =>
        have hordinary := h.toRunInv.ordinary_line _ (nextChar_mem h.lines hch)
        rw [handleSpecial_plain hordinary.ne_complete hordinary.ne_help hordinary.ne_newline] at hrun
        exact (moved_nextChar h huser hch (fsmStep hrun)).keySpec
    | FIRST => exact (moved_inputFirst h hcfg huser hrun).keySpec
    | LAST => exact (moved_inputLast h huser hrun).keySpec
    | UNKNOWN =>
      cases hrun
      exact (grown_prints h [BEL]).keySpec

end Keys

section Run

variable {cfg : CparserCfg} {p : Cparser} {events : List (Env × Key)}

theorem parserInv_init (hcfg : cfg.Plain) : ParserInv (cparserInit cfg) := by
  refine ⟨⟨linesSpec_init.valid, ?_, ?_, ?_⟩, ?_⟩
  . intro i ch hch
    exact absurd hch (by simp [cparserInit, LineBuffering.init])
  . exact fun _ _ => ⟨Relation.ReflTransGen.refl, hcfg.root⟩
  . exact fsmWithin_reset Relation.ReflTransGen.refl
  . exact nofun

theorem synced_init (cfg : CparserCfg) : Synced (cparserInit cfg) := after_reset _ _ _

/-- The environments and keys of a run: paths are ordinary texts and no key is a zero character. -/
def PlainEvents (cfg : CparserCfg) (events : List (Env × Key)) : Prop :=
  ∀ event ∈ events, event.1.Plain cfg ∧ event.2 ≠ .REGULAR NUL

/-- The line never fills up while the keys are pressed. -/
def NeverFull (cfg : CparserCfg) (events : List (Env × Key)) : Prop :=
  ∀ keys p, keys <+: events → runKeys (cparserInit cfg) keys = some p → LineFits p

theorem neverFull_of_inits
    (h : ∀ keys ∈ events.inits, (runKeys (cparserInit cfg) keys).all fun p => p.line.last < CPARSER_MAX_LINE_SIZE)
    : NeverFull cfg events := by
  intro keys p hkeys hrun
  have hfits := h keys ((List.mem_inits _ _).mpr hkeys)
  rw [hrun] at hfits
  exact show p.line.last < CPARSER_MAX_LINE_SIZE from of_decide_eq_true hfits

def textKeys (env : Env) (text : List Char) : List (Env × Key) := text.map fun ch => (env, .REGULAR ch)

theorem escapeKey_ne_regular (ch ch' : Char) : escapeKey ch ≠ .REGULAR ch' := by
  unfold escapeKey
  repeat' split
  all_goals simp

theorem ne_nul_of_terminal {root : CparserNode} {ch : Char}
    (h : isgraph ch ∨ ch = '\n' ∨ ch = ' ' ∨ ch = (parserConfig root).ch_erase ∨ ch = (parserConfig root).ch_del
      ∨ ch = (parserConfig root).ch_help ∨ ch = (parserConfig root).ch_complete) : ch ≠ NUL := by
  rintro rfl
  simp only [parserConfig] at h
  revert h
  decide

theorem cparserUnixGetch_ne_nul {root : CparserNode} {chars rest : List Char} {key : Key}
    (h : cparserUnixGetch (parserConfig root) chars = some (key, rest)) : key ≠ .REGULAR NUL := by
  unfold cparserUnixGetch at h
  split at h
  case h_1 => contradiction
  case h_2 ch chars =>
    split at h
    case isTrue =>
      split at h
      case h_1 => contradiction
      case h_2 c chars =>
        split at h
        case isTrue =>
          split at h
          case h_1 => contradiction
          case h_2 c' chars =>
            cases h
            exact escapeKey_ne_regular c' NUL
        case isFalse =>
          cases h
          decide
    case isFalse =>
      by_cases hregular : isgraph ch ∨ ch = '\n' ∨ ch = ' ' ∨ ch = (parserConfig root).ch_erase
          ∨ ch = (parserConfig root).ch_del ∨ ch = (parserConfig root).ch_help ∨ ch = (parserConfig root).ch_complete
      . have hne := ne_nul_of_terminal hregular
        rw [if_pos hregular] at h
        repeat' split at h
        all_goals
          cases h
          simp [hne]
      . rw [if_neg hregular] at h
        repeat' split at h
        all_goals
          cases h
          simp

def terminalKeys (cfg : CparserCfg) : Nat → List Char → List Key
  | 0, _ => []
  | n + 1, chars =>
    match cparserUnixGetch cfg chars with
    | none => []
    | some (key, rest) => key :: terminalKeys cfg n rest

theorem plainEvents_terminalKeys {env : Env} {root : CparserNode} (henv : env.Plain (parserConfig root)) (n : Nat)
    (chars : List Char) : PlainEvents (parserConfig root) ((terminalKeys (parserConfig root) n chars).map (env, ·)) := by
  induction n generalizing chars with
  | zero => exact fun _ h => absurd h List.not_mem_nil
  | succ n ih =>
    unfold terminalKeys
    cases hgetch : cparserUnixGetch (parserConfig root) chars with
    | none => exact fun _ h => absurd h List.not_mem_nil
    | some r => exact List.forall_mem_cons.mpr ⟨⟨henv, cparserUnixGetch_ne_nul hgetch⟩, ih r.2⟩

theorem runKeys_synced (hcfg : cfg.Plain) (hevents : PlainEvents cfg events) (hfull : NeverFull cfg events)
    (hrun : runKeys (cparserInit cfg) events = some p) : p.cfg = cfg ∧ ParserInv p ∧ Synced p := by
  induction events using List.reverseRecOn generalizing p with
  | nil =>
    cases hrun
    exact ⟨rfl, parserInv_init hcfg, synced_init cfg⟩
  | append_singleton events event ih =>
    have hkeys := hrun
    unfold runKeys at hkeys
    rw [List.foldlM_append] at hkeys
    rcases Option.bind_eq_some_iff.mp hkeys with ⟨q, hq, hlast⟩
    rw [List.foldlM_cons] at hlast
    rcases Option.bind_eq_some_iff.mp hlast with ⟨r, hr, hnil⟩
    cases hnil
    have hmem := hevents event (by simp)
    have hle : events <+: events ++ [event] := List.prefix_append _ _
    rcases ih (fun e he => hevents e (by simp [he])) (fun keys p hkeys => hfull keys p (hkeys.trans hle)) hq
      with ⟨hqcfg, hinv, hsync⟩
    have hspec := keySpec_input hinv (by rwa [hqcfg]) (by rw [hqcfg]; exact hmem.1) hmem.2 hr
    refine ⟨hspec.cfg.trans hqcfg, hspec.inv, hspec.synced hsync (hfull events q hle hq) ?_⟩
    exact hfull _ p List.prefix_rfl hrun

end Run

end SecFw.Client
