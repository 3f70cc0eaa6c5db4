import SecFw.Client.Fsm

/-!
This module contains the effect of the erase character on the state machine: it takes back the
character before it, so that the state is always the one after the text that is left.
-/

namespace SecFw.Client

section Invariant

variable {cfg : CparserCfg} {priv : Bool} {p p' q : ParserFsm} {ch e : Char}

theorem Fed.current_pos (h : Fed priv p ch p') : p'.current_pos = p.current_pos + 1 := by
  cases h with
  | space hstate hch => rfl
  | begins hstate hch hmatch => rfl
  | continues hstate hch hlen hmatch => rfl
  | closes m hstate hch hword htos => rfl
  | rejects hrejects => rfl

theorem FsmInv.of_whitespace (hstate : p.state = .WHITESPACE)
    (above : ∀ n, p.token_tos < n → p.tokens n = blankToken)
    (below : 0 < p.token_tos → (p.tokens (p.token_tos - 1)).end_ptr < p.current_pos)
    (whitespace : p.curToken = blankToken) (good : p.last_good = p.current_pos - 1) : FsmInv p := by
  constructor
  case above => exact above
  case below => exact fun _ => below
  case whitespace => exact fun _ => whitespace
  case token_end => exact fun h => absurd (hstate.symm.trans h) (by decide)
  case token_open => exact fun h => absurd (hstate.symm.trans h) (by decide)
  case good => exact fun _ => good
  case error => exact fun h => absurd (hstate.symm.trans h) (by decide)

theorem FsmInv.of_token (hstate : p.state = .TOKEN)
    (above : ∀ n, p.token_tos < n → p.tokens n = blankToken)
    (token_end : p.curToken.end_ptr = p.current_pos)
    (token_open : p.curToken.parent = none ∧ p.curToken.node = none ∧ p.curToken.buf ≠ [])
    (good : p.last_good = p.current_pos - 1) : FsmInv p := by
  constructor
  case above => exact above
  case below => exact fun h => absurd (hstate.symm.trans h) (by decide)
  case whitespace => exact fun h => absurd (hstate.symm.trans h) (by decide)
  case token_end => exact fun _ => token_end
  case token_open => exact fun _ => token_open
  case good => exact fun _ => good
  case error => exact fun h => absurd (hstate.symm.trans h) (by decide)

theorem FsmInv.setToken_above (hinv : FsmInv p) (token : CparserToken) {n : Nat} (hn : p.token_tos < n)
    : (p.setToken p.token_tos token).tokens n = blankToken := by
  unfold ParserFsm.setToken
  dsimp only
  rw [Function.update_of_ne (Nat.ne_of_gt hn)]
  exact hinv.above n hn

theorem Fed.inv (hinv : FsmInv p) (h : Fed priv p ch p') : FsmInv p' := by
  cases h with
  | space hstate hch =>
    refine FsmInv.of_whitespace hstate hinv.above ?below (hinv.whitespace hstate) ?good
    case below =>
      intro htos
      have hbelow := hinv.below hstate htos
      dsimp only
      omega
    case good => simp
  | begins hstate hch hmatch =>
    have hblank : p.tokens p.token_tos = blankToken := hinv.whitespace hstate
    refine FsmInv.of_token rfl (fun n hn => hinv.setToken_above _ hn) ?token_end ?token_open ?good
    case token_end => simp [ParserFsm.curToken, ParserFsm.setToken, CparserToken.end_ptr, hblank, blankToken]
    case token_open => simp [ParserFsm.curToken, ParserFsm.setToken, hblank, blankToken]
    case good => simp
  | continues hstate hch hlen hmatch =>
    have hend : (p.tokens p.token_tos).end_ptr = p.current_pos := hinv.token_end hstate
    have hopen := hinv.token_open hstate
    refine FsmInv.of_token hstate (fun n hn => hinv.setToken_above _ hn) ?token_end ?token_open ?good
    case token_end =>
      simp [ParserFsm.curToken, ParserFsm.setToken, CparserToken.end_ptr] at hend ⊢
      omega
    case token_open => simpa [ParserFsm.curToken, ParserFsm.setToken] using And.intro hopen.1 hopen.2.1
    case good => simp
  | closes m hstate hch hword htos =>
    have hend : (p.tokens p.token_tos).end_ptr = p.current_pos := hinv.token_end hstate
    refine FsmInv.of_whitespace rfl (fun n hn => hinv.setToken_above _ (Nat.lt_of_succ_lt hn)) ?below
      (hinv.setToken_above _ (Nat.lt_succ_self _)) ?good
    case below =>
      intro _
      simp [ParserFsm.curToken, ParserFsm.setToken, CparserToken.end_ptr] at hend ⊢
      omega
    case good => simp
  | rejects hrejects =>
    constructor
    case above => exact hinv.above
    case below => exact fun h => absurd h (show CparserState.ERROR ≠ .WHITESPACE by decide)
    case whitespace => exact fun h => absurd h (show CparserState.ERROR ≠ .WHITESPACE by decide)
    case token_end => exact fun h => absurd h (show CparserState.ERROR ≠ .TOKEN by decide)
    case token_open => exact fun h => absurd h (show CparserState.ERROR ≠ .TOKEN by decide)
    case good => exact fun h => absurd rfl h
    case error =>
      intro _
      by_cases hstate : p.state = .ERROR
      . have herror := hinv.error hstate
        dsimp only
        omega
      . have hgood := hinv.good hstate
        dsimp only
        omega

theorem mask_congr (hcur : q.cur_node = p.cur_node) (hstate : q.state = p.state)
    (htos : q.token_tos = p.token_tos) (hpos : q.current_pos = p.current_pos)
    (hgood : q.last_good = p.last_good) (htokens : ∀ n ≠ p.token_tos, q.tokens n = p.tokens n)
    (hopen : { q.curToken with node := none } = { p.curToken with node := none }) : q.mask = p.mask := by
  unfold ParserFsm.mask
  rw [hopen]
  unfold ParserFsm.setToken
  rw [hcur, hstate, htos, hpos, hgood]
  congr 1
  funext n
  by_cases hn : n = p.token_tos
  . rw [hn, Function.update_self, Function.update_self]
  . rw [Function.update_of_ne hn, Function.update_of_ne hn, htokens n hn]

structure SameMask (f g : ParserFsm) : Prop where
  state : f.state = g.state
  cur_node : f.cur_node = g.cur_node
  token_tos : f.token_tos = g.token_tos
  tokens : ∀ i ≠ g.token_tos, f.tokens i = g.tokens i
  buf : f.curToken.buf = g.curToken.buf

theorem sameMask {f g : ParserFsm} (h : f.mask = g.mask) : SameMask f g := by
  have htos : f.mask.token_tos = g.mask.token_tos := by rw [h]
  constructor
  case state => exact (congrArg ParserFsm.state h :)
  case cur_node => exact (congrArg ParserFsm.cur_node h :)
  case token_tos => exact htos
  case tokens =>
    intro i hi
    have htoken : f.mask.tokens i = g.mask.tokens i := by rw [h]
    unfold ParserFsm.mask ParserFsm.setToken at htoken htos
    dsimp only at htoken htos
    rwa [htos, Function.update_of_ne hi, Function.update_of_ne hi] at htoken
  case buf =>
    have hopen : f.mask.curToken.buf = g.mask.curToken.buf := by rw [h]
    rwa [mask_curToken, mask_curToken] at hopen

theorem undo_rejects (hinv : FsmInv p)
    : ((cparserErrErase { p with state := .ERROR, current_pos := p.current_pos + 1 }).map (·.finish .erase)).map
        ParserFsm.mask
        =
      some p.mask := by
  unfold cparserErrErase
  dsimp only
  rw [if_neg (Nat.succ_ne_zero _)]
  cases hstate : p.state with
  | ERROR =>
    have herror := hinv.error hstate
    rw [if_neg (by omega)]
    simp [StateResult.finish, ← hstate]
  | TOKEN =>
    have hgood := hinv.good (by rw [hstate]; decide)
    have hend : (p.tokens p.token_tos).end_ptr = p.current_pos := hinv.token_end hstate
    unfold CparserToken.end_ptr at hend
    rw [if_pos (by omega), if_pos (by simp [ParserFsm.curToken]; omega)]
    simp [StateResult.finish, ← hstate, ← hgood]
  | WHITESPACE =>
    have hgood := hinv.good (by rw [hstate]; decide)
    have hblank : p.tokens p.token_tos = blankToken := hinv.whitespace hstate
    rw [if_pos (by omega), if_neg (by simp [ParserFsm.curToken, hblank, blankToken]; omega)]
    simp [StateResult.finish, ← hstate, ← hgood]

theorem Fed.undo (hinv : FsmInv p) (h : Fed priv p ch p') (he : Erases cfg e)
    : (inputFsm cfg priv p' e).map ParserFsm.mask = some p.mask := by
  rw [input_of_erases he (by rw [h.current_pos]; exact Nat.succ_ne_zero _)]
  unfold cparserStateFuncTbl
  cases h with
  | space hstate hch =>
    have hgood := hinv.good (by rw [hstate]; decide)
    have hbelow := hinv.below hstate
    unfold CparserToken.end_ptr at hbelow
    dsimp only
    rw [hstate]
    dsimp only
    unfold cparserWsErase
    dsimp only
    rw [if_pos (Nat.succ_pos _), if_neg (by simp; omega)]
    apply congrArg some
    apply mask_congr
    all_goals simp [StateResult.finish, ParserFsm.curToken, hstate, hgood]
  | begins hstate hch hmatch =>
    have hblank : p.tokens p.token_tos = blankToken := hinv.whitespace hstate
    have hgood := hinv.good (by rw [hstate]; decide)
    dsimp only
    unfold cparserTokErase
    dsimp only
    rw [if_pos (by simp [ParserFsm.curToken, ParserFsm.setToken, hblank, blankToken])]
    apply congrArg some
    apply mask_congr
    case htokens =>
      intro n hn
      simp [StateResult.finish, ParserFsm.setToken, Function.update_of_ne hn]
    all_goals simp [StateResult.finish, ParserFsm.curToken, ParserFsm.setToken, hblank, blankToken, hstate, hgood]
  | continues hstate hch hlen hmatch =>
    have hgood := hinv.good (by rw [hstate]; decide)
    have hopen : (p.tokens p.token_tos).buf ≠ [] := (hinv.token_open hstate).2.2
    dsimp only
    rw [show (p.setToken p.token_tos _).state = .TOKEN from hstate]
    dsimp only
    unfold cparserTokErase
    dsimp only
    rw [if_neg (by simpa [ParserFsm.curToken, ParserFsm.setToken] using hopen)]
    apply congrArg some
    apply mask_congr
    case htokens =>
      intro n hn
      simp [StateResult.finish, ParserFsm.setToken, Function.update_of_ne hn]
    all_goals simp [StateResult.finish, ParserFsm.curToken, ParserFsm.setToken, hstate, hgood]
  | closes m hstate hch hword htos =>
    have hgood := hinv.good (by rw [hstate]; decide)
    have hend : (p.tokens p.token_tos).end_ptr = p.current_pos := hinv.token_end hstate
    have hopen : (p.tokens p.token_tos).parent = none := (hinv.token_open hstate).1
    have habove := hinv.above (p.token_tos + 1) (Nat.lt_succ_self _)
    unfold CparserToken.end_ptr at hend
    dsimp only
    unfold cparserWsErase
    dsimp only
    rw [if_pos (Nat.succ_pos _), if_pos (by simp [ParserFsm.curToken, ParserFsm.setToken]; omega)]
    apply congrArg some
    apply mask_congr
    case htokens =>
      intro n hn
      by_cases hsucc : n = p.token_tos + 1
      . subst hsucc
        simp [StateResult.finish, ParserFsm.setToken, habove]
      . simp [StateResult.finish, ParserFsm.setToken, Function.update_of_ne hn, Function.update_of_ne hsucc]
    all_goals simp [StateResult.finish, ParserFsm.curToken, ParserFsm.setToken, hstate, hgood, hopen]
  | rejects hrejects => exact undo_rejects hinv

end Invariant

section Feed

variable {cfg : CparserCfg} {priv : Bool} {root : CparserNode} {text : List Char} {ch : Char}

structure Typed (cfg : CparserCfg) (text : List Char) : Prop where
  not_erases : ∀ ch ∈ text, ¬Erases cfg ch
  length_le : text.length ≤ CPARSER_MAX_LINE_SIZE - 1

theorem typed_nil : Typed cfg [] := ⟨nofun, Nat.zero_le _⟩

theorem Typed.mono {text' : List Char} (h : Typed cfg text) (hle : text' <+: text) : Typed cfg text' :=
  ⟨fun ch hch => h.not_erases ch (hle.subset hch), Nat.le_trans hle.length_le h.length_le⟩

@[simp]
theorem feed_nil (p : ParserFsm) : feed cfg priv p [] = some p := rfl

theorem feed_append (p : ParserFsm) (text text' : List Char)
    : feed cfg priv p (text ++ text') = (feed cfg priv p text).bind fun q => feed cfg priv q text' := by
  unfold feed
  rw [List.foldlM_append]
  rfl

theorem feed_concat (p : ParserFsm) (text : List Char) (ch : Char)
    : feed cfg priv p (text ++ [ch]) = (feed cfg priv p text).bind fun q => inputFsm cfg priv q ch := by
  rw [feed_append]
  congr 1
  funext q
  exact Option.bind_fun_some _

theorem mask_feed_congr {p q : ParserFsm} (h : p.mask = q.mask) (text : List Char)
    : (feed cfg priv p text).map ParserFsm.mask = (feed cfg priv q text).map ParserFsm.mask := by
  induction text using List.reverseRecOn with
  | nil => exact congrArg some h
  | append_singleton text ch ih =>
    rw [feed_concat, feed_concat]
    cases hp : feed cfg priv p text with
    | none =>
      rw [hp, Option.map_none, eq_comm, Option.map_eq_none_iff] at ih
      rw [ih]
    | some f =>
      rw [hp, Option.map_some, eq_comm] at ih
      rcases Option.map_eq_some_iff.mp ih with ⟨g, hg, hmask⟩
      rw [hg, Option.bind_some, Option.bind_some]
      exact mask_input_congr hmask.symm

structure FedText (text : List Char) (p : ParserFsm) : Prop where
  inv : FsmInv p
  current_pos : p.current_pos = text.length

variable {p q : ParserFsm}

theorem FedText.room (h : FedText text p) (htyped : Typed cfg (text ++ [ch]))
    : p.current_pos < CPARSER_MAX_LINE_SIZE - 1 := by
  have hlen := htyped.length_le
  rw [List.length_append, List.length_singleton] at hlen
  rw [h.current_pos]
  exact hlen

theorem Typed.fedText (h : Typed cfg text) (hfeed : feed cfg priv (cparserFsmReset root) text = some p)
    : FedText text p := by
  induction text using List.reverseRecOn generalizing p with
  | nil =>
    cases hfeed
    exact ⟨fsmInv_reset root, rfl⟩
  | append_singleton text ch ih =>
    rw [feed_concat] at hfeed
    rcases Option.bind_eq_some_iff.mp hfeed with ⟨q, hq, hinput⟩
    have ih := ih (h.mono (List.prefix_append text [ch])) hq
    have hfed := fed_input ih.inv (h.not_erases ch (by simp)) (ih.room h) hinput
    constructor
    . exact hfed.inv ih.inv
    . rw [List.length_append, ← ih.current_pos]
      exact hfed.current_pos

theorem Typed.fed (h : Typed cfg (text ++ [ch])) (hfeed : feed cfg priv (cparserFsmReset root) text = some p)
    (hinput : inputFsm cfg priv p ch = some q) : Fed priv p ch q := by
  have htext := (h.mono (List.prefix_append text [ch])).fedText hfeed
  exact fed_input htext.inv (h.not_erases ch (by simp)) (htext.room h) hinput

def leftText (cfg : CparserCfg) (text : List Char) (ch : Char) : List Char :=
  if Erases cfg ch then text.dropLast
  else if text.length < CPARSER_MAX_LINE_SIZE - 1 then text ++ [ch]
  else text

theorem Typed.leftText (h : Typed cfg text) (ch : Char) : Typed cfg (leftText cfg text ch) := by
  unfold Client.leftText
  split
  . exact h.mono ( List.dropLast_prefix text)
  split
  . next herase hlen =>
    constructor
    . intro c hc
      rcases List.mem_append.mp hc with hc | hc
      . exact h.not_erases c hc
      . rwa [List.mem_singleton.mp hc]
    . rw [List.length_append]
      exact hlen
  . exact h

theorem inputType_ne_erase (h : ¬Erases cfg ch) : inputType cfg ch ≠ .erase := by
  unfold inputType
  rw [if_neg h]
  split
  . decide
  . decide

theorem Typed.input_leftText (h : Typed cfg text) (hfeed : feed cfg priv (cparserFsmReset root) text = some p)
    (herases : Erases cfg ch → text ≠ [])
    : (inputFsm cfg priv p ch).map ParserFsm.mask
        =
      (feed cfg priv (cparserFsmReset root) (Client.leftText cfg text ch)).map ParserFsm.mask := by
  unfold Client.leftText
  by_cases herase : Erases cfg ch
  . rw [if_pos herase]
    induction text using List.reverseRecOn with
    | nil => exact absurd rfl (herases herase)
    | append_singleton text c ih =>
      rw [feed_concat] at hfeed
      rcases Option.bind_eq_some_iff.mp hfeed with ⟨q, hq, hinput⟩
      have hinv := ((h.mono (List.prefix_append text [c])).fedText hq).inv
      rw [List.dropLast_concat, hq, (h.fed hq hinput).undo hinv herase]
      rfl
  . rw [if_neg herase]
    split
    . rw [feed_concat, hfeed]
      rfl
    . next hfull =>
      rw [inputFsm_full (inputType_ne_erase herase), hfeed]
      rw [(h.fedText hfeed).current_pos]
      exact Nat.le_of_not_lt hfull

theorem Typed.erase_isSome (h : Typed cfg text) (hfeed : feed cfg priv (cparserFsmReset root) text = some p)
    (herase : Erases cfg ch) (hne : text ≠ []) : (inputFsm cfg priv p ch).isSome := by
  have hinput := h.input_leftText hfeed (fun _ : Erases cfg ch => hne)
  rw [Client.leftText, if_pos herase, ← List.dropLast_concat_getLast hne, List.dropLast_concat] at hinput
  rw [← List.dropLast_concat_getLast hne, feed_concat] at hfeed
  rcases Option.bind_eq_some_iff.mp hfeed with ⟨q, hq, -⟩
  rw [hq] at hinput
  rw [← Option.isSome_map, hinput]
  rfl

/-- An input fails an assertion when it erases nothing or when typing it behind the text fails one. -/
def FailsBehind (cfg : CparserCfg) (priv : Bool) (text : List Char) (p : ParserFsm) (ch : Char) : Prop :=
  if Erases cfg ch then text = [] else p.current_pos < CPARSER_MAX_LINE_SIZE - 1 ∧ Fails priv p ch

theorem Typed.input_eq_none_iff (h : Typed cfg text) (hfeed : feed cfg priv (cparserFsmReset root) text = some p)
    : inputFsm cfg priv p ch = none ↔ FailsBehind cfg priv text p ch := by
  have htext := h.fedText hfeed
  unfold FailsBehind
  by_cases herase : Erases cfg ch
  . rw [if_pos herase]
    constructor
    . intro hnone
      by_contra hne
      have hsome := h.erase_isSome hfeed herase hne
      rw [hnone] at hsome
      contradiction
    . rintro rfl
      exact inputFsm_erase_empty (if_pos herase) htext.current_pos
  . rw [if_neg herase]
    constructor
    . intro hnone
      by_cases hroom : p.current_pos < CPARSER_MAX_LINE_SIZE - 1
      . rcases fed_or_fails priv htext.inv herase hroom with ⟨q, hq, -⟩ | ⟨-, hfails⟩
        . rw [hnone] at hq
          contradiction
        . exact ⟨hroom, hfails⟩
      . rw [inputFsm_full (inputType_ne_erase herase) (Nat.le_of_not_lt hroom)] at hnone
        contradiction
    . exact fun h => input_of_fails htext.inv herase h.1 h.2

theorem Fails.of_mask (h : p.mask = q.mask) (hfails : Fails priv p ch) : Fails priv q ch := by
  have hsame := sameMask h
  cases hfails with
  | begins hstate hch hmatch => exact .begins (hsame.state ▸ hstate) hch (hsame.cur_node ▸ hmatch)
  | continues hstate hch hlen hmatch =>
    exact .continues (hsame.state ▸ hstate) hch (hsame.buf ▸ hlen) (hsame.cur_node ▸ hsame.buf ▸ hmatch)
  | closes hstate hch hmatch =>
    exact .closes (hsame.state ▸ hstate) hch (hsame.cur_node ▸ hsame.buf ▸ hmatch)
  | overflows hstate hch hword hfull =>
    exact .overflows (hsame.state ▸ hstate) hch (hsame.cur_node ▸ hsame.buf ▸ hword) (hsame.token_tos ▸ hfull)

/-- The state after the text that is left, apart from the node of the token that is not closed. -/
structure After (cfg : CparserCfg) (priv : Bool) (root : CparserNode) (text : List Char) (p : ParserFsm) : Prop where
  typed : Typed cfg text
  feed_eq : (feed cfg priv (cparserFsmReset root) text).map ParserFsm.mask = some p.mask

theorem after_reset (cfg : CparserCfg) (priv : Bool) (root : CparserNode)
    : After cfg priv root [] (cparserFsmReset root) :=
  ⟨typed_nil, rfl⟩

theorem After.exists_feed (h : After cfg priv root text p)
    : ∃ f, feed cfg priv (cparserFsmReset root) text = some f ∧ f.mask = p.mask :=
  Option.map_eq_some_iff.mp h.feed_eq

theorem After.input_eq_none_iff (h : After cfg priv root text p)
    : inputFsm cfg priv p ch = none ↔ FailsBehind cfg priv text p ch := by
  rcases h.exists_feed with ⟨f, hf, hmask⟩
  have hpos : f.current_pos = p.current_pos := (congrArg ParserFsm.current_pos hmask :)
  have hfails : Fails priv f ch ↔ Fails priv p ch := ⟨Fails.of_mask hmask, Fails.of_mask hmask.symm⟩
  rw [← Option.map_eq_none_iff (f := ParserFsm.mask), ← mask_input_congr hmask, Option.map_eq_none_iff,
    h.typed.input_eq_none_iff hf]
  unfold FailsBehind
  rw [hpos, hfails]

theorem After.input (h : After cfg priv root text p) (hinput : inputFsm cfg priv p ch = some q)
    : After cfg priv root (Client.leftText cfg text ch) q := by
  rcases h.exists_feed with ⟨f, hf, hmask⟩
  have herases : Erases cfg ch → text ≠ [] := by
    intro herase hnil
    rw [h.input_eq_none_iff.mpr ((if_pos herase).mpr hnil)] at hinput
    contradiction
  refine ⟨h.typed.leftText ch, ?_⟩
  rw [← h.typed.input_leftText hf herases, mask_input_congr hmask, hinput]
  rfl

/--
After any sequence of inputs the state is the one after the text that is left, and the next input fails an
assertion when it erases nothing or when typing it behind this text fails one.
-/
theorem feed_leftText (inputs : List Char) (hrun : feed cfg priv (cparserFsmReset root) inputs = some p)
    : After cfg priv root (inputs.foldl (leftText cfg) []) p
        ∧
      ∀ ch, cparserFsmInput cfg priv p ch = none ↔ FailsBehind cfg priv (inputs.foldl (leftText cfg) []) p ch := by
  have hafter : After cfg priv root (inputs.foldl (leftText cfg) []) p := by
    induction inputs using List.reverseRecOn generalizing p with
    | nil =>
      cases hrun
      exact after_reset cfg priv root
    | append_singleton inputs ch ih =>
      rw [feed_concat] at hrun
      rcases Option.bind_eq_some_iff.mp hrun with ⟨q, hq, hinput⟩
      rw [List.foldl_append]
      exact (ih hq).input hinput
  refine ⟨hafter, fun ch => ?_⟩
  rw [← hafter.input_eq_none_iff, inputFsm, Option.map_eq_none_iff]

def upTree : CparserNode :=
  .mk .ROOT [] .null none [.mk .KEYWORD [] (.text ['u', 'p']) none [.mk .END [] (.glue ['u', 'p']) none []]]

theorem feed_leftText_up
    : ∃ p, feed (parserConfig upTree) false (cparserFsmReset upTree) ['u', 'x', '\x08', 'p', ' '] = some p
        ∧ After (parserConfig upTree) false upTree
          (['u', 'x', '\x08', 'p', ' '].foldl (leftText (parserConfig upTree)) []) p
        ∧ (∀ ch, cparserFsmInput (parserConfig upTree) false p ch = none
          ↔ FailsBehind (parserConfig upTree) false
            (['u', 'x', '\x08', 'p', ' '].foldl (leftText (parserConfig upTree)) []) p ch)
        ∧ ['u', 'x', '\x08', 'p', ' '].foldl (leftText (parserConfig upTree)) [] = ['u', 'p', ' '] := by
  rcases Option.isSome_iff_exists.mp (show (feed (parserConfig upTree) false (cparserFsmReset upTree)
    ['u', 'x', '\x08', 'p', ' ']).isSome from rfl) with ⟨p, hp⟩
  have hleft := feed_leftText ['u', 'x', '\x08', 'p', ' '] hp
  exact ⟨p, hp, hleft.1, hleft.2, by decide⟩

end Feed

end SecFw.Client
