import SecFw.Client.Undo
import SecFw.TextCursor.Words

/-!
This module contains the meaning of the state machine: the words of the text lead from the root of the
parse tree to a node, and the machine is in the error state behind the longest text for which they do.
-/

namespace SecFw.Client

open TextCursor

section Resolve

variable {priv : Bool} {parent root m : CparserNode} {word v : List Char} {ws : List (List Char)}
  {path : List CparserNode}

structure Candidate (priv : Bool) (parent : CparserNode) (word : List Char) (m : CparserNode) : Prop where
  mem : m ∈ parent.children
  usable : nodeUsable priv m = true
  isSome : (cparserMatchFnTbl m word).isSome = true

theorem mem_candidates {cand : CparserNode × Bool}
    : cand ∈ candidates priv word parent.children
        ↔
      cand.1 ∈ parent.children ∧ nodeUsable priv cand.1 = true ∧ cparserMatchFnTbl cand.1 word = some cand.2 := by
  unfold candidates
  rw [List.mem_filterMap]
  constructor
  . rintro ⟨child, hmem, hcand⟩
    split at hcand
    . next husable =>
      rcases Option.map_eq_some_iff.mp hcand with ⟨is_complete, hmatch, rfl⟩
      exact ⟨hmem, husable, hmatch⟩
    . contradiction
  . rintro ⟨hmem, husable, hmatch⟩
    refine ⟨cand.1, hmem, ?_⟩
    rw [if_pos husable, hmatch]
    rfl

theorem candidate_of_mem {cand : CparserNode × Bool} (h : cand ∈ candidates priv word parent.children)
    : Candidate priv parent word cand.1 := by
  rcases mem_candidates.mp h with ⟨hmem, husable, hmatch⟩
  exact ⟨hmem, husable, by rw [hmatch]; rfl⟩

theorem candidate_of_found (h : (matchResult priv word parent).found = some m) : Candidate priv parent word m := by
  unfold matchResult best at h
  rcases Option.map_eq_some_iff.mp h with ⟨cand, hcand, rfl⟩
  apply candidate_of_mem
  rcases Option.or_eq_some_iff.mp hcand with hfind | ⟨-, hhead⟩
  . exact List.mem_of_find?_eq_some hfind
  . exact List.mem_of_mem_head? hhead

inductive Stands (priv : Bool) (parent : CparserNode) (word : List Char) (m : CparserNode) : Prop where
  | complete (h : cparserMatchFnTbl m word = some true)
  | abbreviates (htype : m.type = .KEYWORD) (hsole : ∀ other, Candidate priv parent word other → other = m)

structure Led (priv : Bool) (parent : CparserNode) (word : List Char) (m : CparserNode) : Prop
    extends Candidate priv parent word m where
  stands : Stands priv parent word m

theorem led_of_wordChild (h : wordChild priv parent word = some m) : Led priv parent word m := by
  unfold wordChild at h
  rcases Option.map_eq_some_iff.mp h with ⟨cand, hcand, rfl⟩
  rcases Option.or_eq_some_iff.mp hcand with hfind | ⟨-, hsole⟩
  . have hmem := List.mem_of_find?_eq_some hfind
    have hcomplete : cand.2 = true := List.find?_some hfind
    exact ⟨candidate_of_mem hmem, .complete (hcomplete ▸ (mem_candidates.mp hmem).2.2)⟩
  . rcases mem_of_soleKeyword hsole with ⟨hcands, htype⟩
    have hmem : cand ∈ candidates priv word parent.children := by
      rw [hcands]
      exact List.mem_singleton_self cand
    refine ⟨candidate_of_mem hmem, .abbreviates htype fun other hother => ?_⟩
    rcases Option.isSome_iff_exists.mp hother.isSome with ⟨is_complete, hmatch⟩
    have hother : (other, is_complete) ∈ candidates priv word parent.children :=
      mem_candidates.mpr ⟨hother.mem, hother.usable, hmatch⟩
    rw [hcands, List.mem_singleton] at hother
    rw [← hother]

theorem wordChild_isSome {child : CparserNode} (priv : Bool) (hmem : child ∈ parent.children)
    (husable : nodeUsable priv child = true) (hmatch : cparserMatchFnTbl child word = some true)
    : ∃ m, wordChild priv parent word = some m := by
  have hcand : (child, true) ∈ candidates priv word parent.children := mem_candidates.mpr ⟨hmem, husable, hmatch⟩
  have hfind : ((candidates priv word parent.children).find? (·.2)).isSome :=
    List.find?_isSome.mpr ⟨(child, true), hcand, rfl⟩
  rcases Option.isSome_iff_exists.mp hfind with ⟨cand, hcand⟩
  exact ⟨cand.1, by rw [wordChild, hcand]; rfl⟩

theorem Led.types (h : Led priv parent word m) : m.type ≠ .END ∧ m.type ≠ .ROOT := by
  have hmatch := h.isSome
  constructor
  . intro htype
    rw [cparserMatchFnTbl, htype] at hmatch
    contradiction
  . intro htype
    rw [cparserMatchFnTbl, htype] at hmatch
    contradiction

theorem cparserMatchFnTbl_keyword (htype : m.type = .KEYWORD) {u : List Char} (hv : v ≠ [])
    (h : (cparserMatchFnTbl m (v ++ u)).isSome) : cparserMatchFnTbl m v ≠ none := by
  unfold cparserMatchFnTbl at h ⊢
  rw [htype] at h ⊢
  exact (cparserMatchKeyword_recognizes m.paramText).of_append hv (Option.isSome_iff_ne_none.mp h)

theorem viable_iff_exists
    : Viable priv parent word
        ↔
      ∃ child ∈ parent.children, nodeUsable priv child = true ∧ cparserMatchFnTbl child word ≠ none := by
  constructor
  . intro h
    rcases List.exists_mem_of_ne_nil _ h with ⟨cand, hmem⟩
    rcases mem_candidates.mp hmem with ⟨hchild, husable, hmatch⟩
    exact ⟨cand.1, hchild, husable, by rw [hmatch]; exact Option.some_ne_none _⟩
  . rintro ⟨child, hmem, husable, hne⟩
    rcases Option.ne_none_iff_exists'.mp hne with ⟨is_complete, hmatch⟩
    have hcand : (child, is_complete) ∈ candidates priv word parent.children :=
      mem_candidates.mpr ⟨hmem, husable, hmatch⟩
    exact List.ne_nil_of_mem hcand

theorem viable_of_wordChild (hv : v ≠ []) (hle : v <+: word) (h : wordChild priv parent word = some m)
    : Viable priv parent v := by
  have hled := led_of_wordChild h
  rcases hle with ⟨u, rfl⟩
  refine viable_iff_exists.mpr ⟨m, hled.mem, hled.usable, ?_⟩
  cases hled.stands with
  | complete hmatch => exact cparserMatchFnTbl_append hv hmatch
  | abbreviates htype hsole => exact cparserMatchFnTbl_keyword htype hv hled.isSome

def resolve (priv : Bool) : CparserNode → List (List Char) → Option (List CparserNode)
  | _, [] => some []
  | parent, word :: ws =>
    if CPARSER_MAX_TOKEN_SIZE < word.length then none
    else (wordChild priv parent word).bind fun child => (resolve priv child ws).map (child :: ·)

theorem resolve_append
    : resolve priv parent (ws ++ [word])
        =
      (resolve priv parent ws).bind fun path =>
        if CPARSER_MAX_TOKEN_SIZE < word.length then none
        else (wordChild priv (path.getLastD parent) word).map fun child => path ++ [child] := by
  induction ws generalizing parent with
  | nil =>
    simp only [List.nil_append, resolve, Option.bind_some, List.getLastD_nil]
    split
    . rfl
    . cases wordChild priv parent word with
      | none => rfl
      | some child => rfl
  | cons first ws ih =>
    simp only [List.cons_append, resolve]
    split
    . rfl
    . cases wordChild priv parent first with
      | none => rfl
      | some child =>
        simp only [Option.bind_some]
        rw [ih]
        cases resolve priv child ws with
        | none => rfl
        | some path =>
          simp only [Option.bind_some, Option.map_some, List.getLastD_cons]
          split
          . rfl
          . cases wordChild priv (path.getLastD child) word with
            | none => rfl
            | some last => rfl

theorem length_resolve (h : resolve priv parent ws = some path) : path.length = ws.length := by
  induction ws generalizing parent path with
  | nil =>
    cases h
    rfl
  | cons word ws ih =>
    unfold resolve at h
    split at h
    . contradiction
    . rw [Option.bind_eq_some_iff] at h
      rcases h with ⟨child, -, h⟩
      rw [Option.map_eq_some_iff] at h
      rcases h with ⟨path', hpath', rfl⟩
      rw [List.length_cons, List.length_cons, ih hpath']

structure Open (priv : Bool) (parent : CparserNode) (word : List Char) : Prop where
  length_le : word.length ≤ CPARSER_MAX_TOKEN_SIZE
  viable : ∀ v, v ≠ [] → v <+: word → Viable priv parent v

theorem open_nil : Open priv parent [] :=
  ⟨Nat.zero_le _, fun _ hv hle => absurd (List.prefix_nil.mp hle) hv⟩

theorem Open.mono (h : Open priv parent word) (hle : v <+: word) : Open priv parent v :=
  ⟨Nat.le_trans hle.length_le h.length_le, fun u hu hle' => h.viable u hu (hle'.trans hle)⟩

theorem Open.append {ch : Char} (h : Open priv parent word) (hlen : word.length < CPARSER_MAX_TOKEN_SIZE)
    (hviable : Viable priv parent (word ++ [ch])) : Open priv parent (word ++ [ch]) := by
  constructor
  . rw [List.length_append]
    exact hlen
  . intro v hv hle
    rcases List.prefix_concat_iff.mp hle with rfl | hle
    . exact hviable
    . exact h.viable v hv hle

theorem open_of_wordChild (hlen : word.length ≤ CPARSER_MAX_TOKEN_SIZE)
    (h : wordChild priv parent word = some m) : Open priv parent word :=
  ⟨hlen, fun _ hv hle => viable_of_wordChild hv hle h⟩

end Resolve

section Accepts

variable {priv : Bool} {root : CparserNode} {text text' : List Char} {ch : Char}

def Accepts (priv : Bool) (root : CparserNode) (text : List Char) : Prop :=
  ∃ path, resolve priv root (closedWords ' ' text) = some path
    ∧ Open priv (path.getLastD root) (openWord ' ' text)

theorem closedWords_append_space
    : closedWords ' ' (text ++ [' '])
        =
      closedWords ' ' text ++ if openWord ' ' text = [] then [] else [openWord ' ' text] := by
  rw [closedWords_append_self, words_eq]

theorem resolve_closes (hopen : openWord ' ' text ≠ [])
    : resolve priv root (closedWords ' ' (text ++ [' ']))
        =
      (resolve priv root (closedWords ' ' text)).bind fun path =>
        if CPARSER_MAX_TOKEN_SIZE < (openWord ' ' text).length then none
        else (wordChild priv (path.getLastD root) (openWord ' ' text)).map fun child => path ++ [child] := by
  rw [closedWords_append_space, if_neg hopen, resolve_append]

theorem accepts_of_append (h : Accepts priv root (text ++ [ch])) : Accepts priv root text := by
  rcases h with ⟨path, hpath, hword⟩
  by_cases hch : ch = ' '
  . subst hch
    by_cases hopen : openWord ' ' text = []
    . rw [closedWords_append_space, if_pos hopen, List.append_nil] at hpath
      refine ⟨path, hpath, ?_⟩
      rw [hopen]
      exact open_nil
    . rw [resolve_closes hopen, Option.bind_eq_some_iff] at hpath
      rcases hpath with ⟨path', hpath', hchild⟩
      refine ⟨path', hpath', ?_⟩
      split at hchild
      . contradiction
      . next hlen =>
        rw [Option.map_eq_some_iff] at hchild
        rcases hchild with ⟨m, hm, -⟩
        exact open_of_wordChild (Nat.le_of_not_lt hlen) hm
  . rw [closedWords_append_of_ne hch] at hpath
    rw [openWord_append_of_ne hch] at hword
    exact ⟨path, hpath, hword.mono (List.prefix_append _ _)⟩

theorem Accepts.mono (h : Accepts priv root text) (hle : text' <+: text) : Accepts priv root text' := by
  rcases hle with ⟨rest, rfl⟩
  induction rest using List.reverseRecOn with
  | nil => rwa [List.append_nil] at h
  | append_singleton rest ch ih =>
    rw [← List.append_assoc] at h
    exact ih (accepts_of_append h)

end Accepts

section Parsed

variable {cfg : CparserCfg} {priv : Bool} {root m : CparserNode} {text : List Char} {ch : Char}
  {p p' : ParserFsm} {path : List CparserNode}

structure Parsed (root : CparserNode) (text : List Char) (path : List CparserNode) (p : ParserFsm) : Prop where
  state : p.state = if openWord ' ' text = [] then .WHITESPACE else .TOKEN
  cur_node : p.cur_node = path.getLastD root
  token_tos : p.token_tos = path.length
  closed : ∀ i < path.length, (p.tokens i).buf = (closedWords ' ' text).getD i []
    ∧ (p.tokens i).parent = (root :: path)[i]? ∧ (p.tokens i).node = path[i]?
  opened : p.curToken.buf = openWord ' ' text

structure ParsedInv (priv : Bool) (root : CparserNode) (text : List Char) (p : ParserFsm) : Prop where
  good : p.state ≠ .ERROR → ∃ path, resolve priv root (closedWords ' ' text) = some path
    ∧ Open priv (path.getLastD root) (openWord ' ' text) ∧ Parsed root text path p
  error : p.state = .ERROR → ∃ n < text.length, p.last_good + 1 = n
    ∧ Accepts priv root (text.take n) ∧ ¬Accepts priv root (text.take (n + 1))

theorem parsedInv_nil : ParsedInv priv root [] (cparserFsmReset root) := by
  constructor
  case good =>
    intro _
    refine ⟨[], rfl, open_nil, ?_⟩
    constructor
    case state => rfl
    case cur_node => rfl
    case token_tos => rfl
    case closed => exact fun i hi => absurd hi (Nat.not_lt_zero i)
    case opened => rfl
  case error => exact fun h => absurd h (show CparserState.WHITESPACE ≠ .ERROR by decide)

theorem Parsed.openWord_whitespace (h : Parsed root text path p) (hstate : p.state = .WHITESPACE)
    : openWord ' ' text = [] := by
  by_contra hne
  have hstate' := h.state
  rw [if_neg hne, hstate] at hstate'
  contradiction

theorem Parsed.openWord_token (h : Parsed root text path p) (hstate : p.state = .TOKEN)
    : openWord ' ' text ≠ [] := by
  intro hnil
  have hstate' := h.state
  rw [if_pos hnil, hstate] at hstate'
  contradiction

theorem Parsed.setToken_closed (h : Parsed root text path p) (token : CparserToken) {i : Nat}
    (hi : i < path.length) : (p.setToken p.token_tos token).tokens i = p.tokens i := by
  unfold ParserFsm.setToken
  dsimp only
  rw [Function.update_of_ne]
  rw [h.token_tos]
  exact Nat.ne_of_lt hi

theorem not_accepts_of_rejects (hrejects : Rejects priv p ch) (hstate : p.state ≠ .ERROR)
    (hpath : resolve priv root (closedWords ' ' text) = some path) (h : Parsed root text path p)
    : ¬Accepts priv root (text ++ [ch]) := by
  rintro ⟨path', hpath', hopen'⟩
  cases hrejects with
  | begins hws hch hmatch =>
    rw [closedWords_append_of_ne hch, hpath] at hpath'
    cases hpath'
    rw [openWord_append_of_ne hch, h.openWord_whitespace hws, ← h.cur_node] at hopen'
    exact hmatch (hopen'.viable [ch] (List.cons_ne_nil _ _) List.prefix_rfl)
  | closes htoken hch hword =>
    subst hch
    rw [resolve_closes (h.openWord_token htoken), hpath, Option.bind_some, ← h.cur_node, ← h.opened, hword] at hpath'
    simp at hpath'
  | full htoken hch hlen =>
    rw [openWord_append_of_ne hch, ← h.opened] at hopen'
    have hlength := hopen'.length_le
    rw [List.length_append, List.length_singleton] at hlength
    omega
  | continues htoken hch hmatch =>
    rw [closedWords_append_of_ne hch, hpath] at hpath'
    cases hpath'
    rw [openWord_append_of_ne hch, ← h.opened, ← h.cur_node] at hopen'
    exact hmatch (hopen'.viable _ (by simp) List.prefix_rfl)
  | rejected herror => exact hstate herror

theorem closedWords_space (hnil : openWord ' ' text = []) : closedWords ' ' (text ++ [' ']) = closedWords ' ' text := by
  rw [closedWords_append_space, if_pos hnil, List.append_nil]

theorem Parsed.space (h : Parsed root text path p) (hnil : openWord ' ' text = []) (hstate : p'.state = .WHITESPACE)
    (hcur : p'.cur_node = p.cur_node) (htos : p'.token_tos = p.token_tos) (htokens : p'.tokens = p.tokens)
    : Parsed root (text ++ [' ']) path p' := by
  constructor
  case state => rw [openWord_append_self, if_pos rfl, hstate]
  case cur_node => exact hcur.trans h.cur_node
  case token_tos => exact htos.trans h.token_tos
  case closed =>
    rw [closedWords_space hnil, htokens]
    exact h.closed
  case opened =>
    rw [openWord_append_self, ParserFsm.curToken, htokens, htos, ← hnil]
    exact h.opened

theorem Parsed.writes {token : CparserToken} (h : Parsed root text path p) (hch : ch ≠ ' ')
    (hbuf : token.buf = p.curToken.buf ++ [ch]) (hstate : p'.state = .TOKEN) (hcur : p'.cur_node = p.cur_node)
    (htos : p'.token_tos = p.token_tos) (htokens : p'.tokens = (p.setToken p.token_tos token).tokens)
    : Parsed root (text ++ [ch]) path p' := by
  constructor
  case state => simp [openWord_append_of_ne hch, hstate]
  case cur_node => exact hcur.trans h.cur_node
  case token_tos => exact htos.trans h.token_tos
  case closed =>
    intro i hi
    rw [closedWords_append_of_ne hch, htokens, h.setToken_closed _ hi]
    exact h.closed i hi
  case opened =>
    rw [openWord_append_of_ne hch, ← h.opened, ← hbuf, ParserFsm.curToken, htokens, htos]
    simp [ParserFsm.setToken]

theorem Parsed.closes {m : CparserNode} (h : Parsed root text path p) (hne : openWord ' ' text ≠ [])
    (hpath : resolve priv root (closedWords ' ' text) = some path)
    (hblank : p.tokens (p.token_tos + 1) = blankToken) (hstate : p'.state = .WHITESPACE) (hcur : p'.cur_node = m)
    (htos : p'.token_tos = p.token_tos + 1)
    (htokens : p'.tokens
      = (p.setToken p.token_tos { p.curToken with parent := some p.cur_node, node := some m }).tokens)
    : Parsed root (text ++ [' ']) (path ++ [m]) p' := by
  have hlength := length_resolve hpath
  constructor
  case state => rw [openWord_append_self, if_pos rfl, hstate]
  case cur_node => rw [hcur, List.getLastD_concat]
  case token_tos => rw [htos, h.token_tos, List.length_append, List.length_singleton]
  case closed =>
    intro i hi
    rw [closedWords_append_space, if_neg hne, htokens]
    rw [List.length_append, List.length_singleton] at hi
    by_cases hlt : i < path.length
    . rw [h.setToken_closed _ hlt, List.getD_append _ _ _ _ (by omega),
        List.getElem?_append_left hlt, ← List.cons_append, List.getElem?_append_left (by simp; omega)]
      exact h.closed i hlt
    . have hi : i = path.length := by omega
      subst hi
      have hlast : (root :: path)[path.length]? = some (path.getLastD root) := by
        rw [List.getLastD_eq_getLast?, ← List.getLast?_cons, List.getLast?_eq_getElem?]
        simp
      have hset (token : CparserToken) : (p.setToken p.token_tos token).tokens path.length = token := by
        rw [← h.token_tos]
        exact Function.update_self ..
      rw [hset]
      refine ⟨?_, ?_, ?_⟩
      . rw [hlength]
        simp [h.opened]
      . rw [← List.cons_append, List.getElem?_append_left (by simp), hlast, h.cur_node]
      . simp
  case opened =>
    rw [openWord_append_self, ParserFsm.curToken, htokens, htos]
    simp [ParserFsm.setToken, hblank, blankToken]

theorem ParsedInv.rejects (h : ParsedInv priv root text p) (hfed : FedText text p) (hrejects : Rejects priv p ch)
    : ∃ n < (text ++ [ch]).length, p.last_good + 1 = n
      ∧ Accepts priv root ((text ++ [ch]).take n) ∧ ¬Accepts priv root ((text ++ [ch]).take (n + 1)) := by
  by_cases hstate : p.state = .ERROR
  . rcases h.error hstate with ⟨n, hn, hgood, haccepts, hrejects⟩
    refine ⟨n, by simp; omega, hgood, ?_, ?_⟩
    . rwa [List.take_append_of_le_length (by omega)]
    . rwa [List.take_append_of_le_length hn]
  . rcases h.good hstate with ⟨path, hpath, hopen, hparsed⟩
    have hgood := hfed.inv.good hstate
    refine ⟨text.length, by simp, ?_, ?_, ?_⟩
    . rw [hgood, hfed.current_pos]
      omega
    . rw [List.take_left]
      exact ⟨path, hpath, hopen⟩
    . rw [List.take_of_length_le (by simp)]
      exact not_accepts_of_rejects hrejects hstate hpath hparsed

theorem ParsedInv.fed (h : ParsedInv priv root text p) (hfed : FedText text p) (hstep : Fed priv p ch p')
    : ParsedInv priv root (text ++ [ch]) p' := by
  cases hstep with
  | space hstate hch =>
    subst hch
    rcases h.good (by rw [hstate]; decide) with ⟨path, hpath, hopen, hparsed⟩
    have hnil := hparsed.openWord_whitespace hstate
    constructor
    case good =>
      intro _
      rw [closedWords_space hnil, openWord_append_self]
      exact ⟨path, hpath, open_nil, hparsed.space hnil hstate rfl rfl rfl⟩
    case error => exact fun herror => absurd (hstate.symm.trans herror) (by decide)
  | begins hstate hch hmatch =>
    rcases h.good (by rw [hstate]; decide) with ⟨path, hpath, hopen, hparsed⟩
    have hnil := hparsed.openWord_whitespace hstate
    constructor
    case good =>
      intro _
      rw [closedWords_append_of_ne hch, openWord_append_of_ne hch]
      refine ⟨path, hpath, ?_, hparsed.writes hch rfl rfl rfl rfl rfl⟩
      apply hopen.append
      . rw [hnil]
        decide
      . rwa [hnil, List.nil_append, ← hparsed.cur_node]
    case error => exact fun h => absurd h (show CparserState.TOKEN ≠ .ERROR by decide)
  | continues hstate hch hlen hmatch =>
    rcases h.good (by rw [hstate]; decide) with ⟨path, hpath, hopen, hparsed⟩
    constructor
    case good =>
      intro _
      rw [closedWords_append_of_ne hch, openWord_append_of_ne hch]
      refine ⟨path, hpath, ?_, hparsed.writes hch rfl hstate rfl rfl rfl⟩
      rw [hparsed.cur_node, hparsed.opened] at hmatch
      rw [hparsed.opened] at hlen
      exact hopen.append hlen hmatch
    case error => exact fun herror => absurd (hstate.symm.trans herror) (by decide)
  | closes m hstate hch hword htos =>
    subst hch
    rcases h.good (by rw [hstate]; decide) with ⟨path, hpath, hopen, hparsed⟩
    have hne := hparsed.openWord_token hstate
    have hblank := hfed.inv.above (p.token_tos + 1) (Nat.lt_succ_self _)
    rw [hparsed.opened, hparsed.cur_node] at hword
    constructor
    case good =>
      intro _
      rw [openWord_append_self]
      refine ⟨path ++ [m], ?_, open_nil, hparsed.closes hne hpath hblank rfl rfl rfl rfl⟩
      rw [resolve_closes hne, hpath, Option.bind_some, if_neg (Nat.not_lt.mpr hopen.length_le), hword]
      rfl
    case error => exact fun h => absurd h (show CparserState.WHITESPACE ≠ .ERROR by decide)
  | rejects hrejects =>
    constructor
    case good => exact fun h => absurd rfl h
    case error => exact fun _ => h.rejects hfed hrejects

theorem feed_parsedInv (h : Typed cfg text) (hfeed : feed cfg priv (cparserFsmReset root) text = some p)
    : ParsedInv priv root text p := by
  induction text using List.reverseRecOn generalizing p with
  | nil =>
    cases hfeed
    exact parsedInv_nil
  | append_singleton text ch ih =>
    have htext := h.mono (List.prefix_append text [ch])
    rw [feed_concat] at hfeed
    rcases Option.bind_eq_some_iff.mp hfeed with ⟨q, hq, hinput⟩
    exact (ih htext hq).fed (htext.fedText hq) (h.fed hq hinput)

theorem Parsed.of_mask {root : CparserNode} {f g : ParserFsm} (h : Parsed root text path g)
    (hmask : f.mask = g.mask) : Parsed root text path f := by
  have hsame := sameMask hmask
  constructor
  case state => rw [hsame.state, h.state]
  case cur_node => rw [hsame.cur_node, h.cur_node]
  case token_tos => rw [hsame.token_tos, h.token_tos]
  case closed =>
    intro i hi
    have hne : i ≠ g.token_tos := by
      rw [h.token_tos]
      exact Nat.ne_of_lt hi
    rw [hsame.tokens i hne]
    exact h.closed i hi
  case opened => exact hsame.buf.trans h.opened

theorem After.state_error (h : After cfg priv root text p) (hrejects : ¬Accepts priv root text)
    : p.state = .ERROR := by
  rcases h.exists_feed with ⟨f, hf, hmask⟩
  rw [← (sameMask hmask).state]
  by_contra hne
  rcases (feed_parsedInv h.typed hf).good hne with ⟨path, hpath, hopen, -⟩
  exact hrejects ⟨path, hpath, hopen⟩

theorem After.parsed (h : After cfg priv root text p) (haccepts : Accepts priv root text)
    (hpath : resolve priv root (closedWords ' ' text) = some path) : Parsed root text path p := by
  rcases h.exists_feed with ⟨f, hf, hmask⟩
  have hinv := feed_parsedInv h.typed hf
  have hstate : f.state ≠ .ERROR := by
    intro herror
    rcases hinv.error herror with ⟨n, -, -, -, hrejects⟩
    exact hrejects (haccepts.mono ( List.take_prefix _ _))
  rcases hinv.good hstate with ⟨path', hpath', -, hparsed⟩
  rw [hpath] at hpath'
  cases hpath'
  exact hparsed.of_mask hmask.symm

theorem After.blank (h : After cfg priv root text p) {i : Nat} (hi : p.token_tos < i) : p.tokens i = blankToken := by
  rcases h.exists_feed with ⟨f, hf, hmask⟩
  have hsame := sameMask hmask.symm
  rw [hsame.token_tos] at hi
  rw [hsame.tokens i (Nat.ne_of_gt hi)]
  exact (h.typed.fedText hf).inv.above i hi

end Parsed

end SecFw.Client
