import SecFw.TextCursor.Basic

/-!
This module contains the line buffers of the command line parser: the line under the cursor, the ring
of the last lines and what is printed to keep the display in step. Every sequence of calls edits
the lines as an editor does that knows texts with a cursor only.
-/

namespace SecFw.Client

open TextCursor

abbrev CPARSER_MAX_LINES : Nat := 10

abbrev CPARSER_MAX_LINE_SIZE : Nat := 383

inductive CparserResult where
  | OK
  | NOT_OK
  | ERR_INVALID_PARAMS
  | ERR_NOT_EXIST
  | ERR_OUT_OF_RES
  | ERR_PARSE_ERR
  | ERR_INCOMP_CMD
  deriving DecidableEq, Repr

abbrev NUL : Char := '\x00'

abbrev BS : Char := '\x08'

structure CparserLine where
  -- `cparser_line_t`, the buffer has `CPARSER_MAX_LINE_SIZE + 1` characters
  last : Nat
  current : Nat
  buf : Nat → Char

def CparserLine.string (line : CparserLine) (pos : Nat) : List Char :=
  (slice line.buf pos (CPARSER_MAX_LINE_SIZE + 1 - pos)).takeWhile (· ≠ NUL)

def cparserLineReset : CparserLine where
  last := 0
  current := 0
  buf := fun _ => NUL

def moveBack (current : Nat) (buf : Nat → Char) : Nat → Nat → Char
  | 0 => buf
  | n + 1 =>
    if n + 1 > current then
      moveBack current (Function.update buf (n + 1) (buf n)) n
    else
      buf

def moveForward (buf : Nat → Char) (n : Nat) : Nat → Nat → Char
  -- `for (n = line->current; n < line->last; n++) line->buf[n-1] = line->buf[n];`, `k` steps
  | 0 => buf
  | k + 1 => moveForward (Function.update buf (n - 1) (buf n)) (n + 1) k

def moveCursorBack (line : CparserLine) : List Char := List.replicate (line.last - line.current) BS

def cparserLineInsert (line : CparserLine) (ch : Char) : CparserResult × CparserLine × List Char :=
  -- the result, the line and what is printed
  if ch = NUL then
    (.ERR_INVALID_PARAMS, line, [])
  else if CPARSER_MAX_LINE_SIZE ≤ line.last then
    (.ERR_OUT_OF_RES, line, [])
  else
    let buf := moveBack line.current line.buf line.last
    let last := line.last + 1
    let buf := Function.update buf last NUL
    let buf := Function.update buf line.current ch
    let line' : CparserLine := ⟨last, line.current + 1, buf⟩
    (.OK, line', ch :: line'.string line'.current ++ moveCursorBack line')

def cparserLineDelete (line : CparserLine) : CparserResult × CparserLine × List Char :=
  if line.last = 0 ∨ line.current = 0 then
    (.ERR_NOT_EXIST, line, [])
  else
    let buf := moveForward line.buf line.current (line.last - line.current)
    let current := line.current - 1
    let last := line.last - 1
    let buf := Function.update buf last NUL
    let line' : CparserLine := ⟨last, current, buf⟩
    (.OK, line', BS :: line'.string line'.current ++ [' ', BS] ++ moveCursorBack line')

def cparserLineNextChar (line : CparserLine) : Char × CparserLine × List Char :=
  -- the result is zero at the end of the line
  if line.last = line.current then
    (NUL, line, [])
  else
    let retval := line.buf line.current
    (retval, { line with current := line.current + 1 }, [retval])

def cparserLinePrevChar (line : CparserLine) : Char × CparserLine × List Char :=
  if line.current = 0 then
    (NUL, line, [])
  else
    (BS, { line with current := line.current - 1 }, [BS])

structure LineBuffering where
  max_line : Nat
  cur_line : Nat
  lines : Nat → CparserLine

namespace LineBuffering

def line (b : LineBuffering) : CparserLine := b.lines b.cur_line

def setLine (b : LineBuffering) (line : CparserLine) : LineBuffering :=
  { b with lines := Function.update b.lines b.cur_line line }

def init : LineBuffering where
  max_line := 0
  cur_line := 0
  lines := fun _ => cparserLineReset

end LineBuffering

def cparserLinePrint (line : CparserLine) : List Char := line.string 0 ++ moveCursorBack line

def eraseLine (last : Nat) : List Char := (List.replicate last [BS, ' ', BS]).flatten

def cparserLineNextLine (b : LineBuffering) : LineBuffering × List Char :=
  let erased := eraseLine b.line.last
  let cur_line := b.cur_line + 1
  let cur_line := if b.max_line < cur_line then 0 else cur_line
  let b := { b with cur_line := cur_line }
  (b, erased ++ cparserLinePrint b.line)

def cparserLinePrevLine (b : LineBuffering) : LineBuffering × List Char :=
  let erased := eraseLine b.line.last
  let cur_line := if b.cur_line = 0 then b.max_line else b.cur_line - 1
  let b := { b with cur_line := cur_line }
  (b, erased ++ cparserLinePrint b.line)

def cparserLineAdvance (b : LineBuffering) : LineBuffering :=
  let cur_line := b.cur_line + 1
  let cur_line := if CPARSER_MAX_LINES ≤ cur_line then 0 else cur_line
  let max_line := if b.max_line < cur_line then cur_line else b.max_line
  let b : LineBuffering := ⟨max_line, cur_line, b.lines⟩
  b.setLine cparserLineReset

section Line

variable {line : CparserLine} {buf : Nat → Char} {ch : Char} {current n k i : Nat}

def CparserLine.cursor (line : CparserLine) : TextCursor Char :=
  ofBuffer line.buf line.current line.last

structure CparserLine.Valid (line : CparserLine) : Prop where
  current_le : line.current ≤ line.last
  last_le : line.last ≤ CPARSER_MAX_LINE_SIZE
  terminated : line.buf line.last = NUL
  ne_nul : ∀ i < line.last, line.buf i ≠ NUL

theorem moveBack_eq (buf : Nat → Char) (n i : Nat)
    : moveBack current buf n i = if current < i ∧ i ≤ n then buf (i - 1) else buf i := by
  induction n generalizing buf with
  | zero =>
    rw [if_neg (by omega)]
    rfl
  | succ n ih =>
    unfold moveBack
    split
    . next hn =>
      rw [ih]
      by_cases hi : i = n + 1
      . subst hi
        rw [if_neg (by omega), if_pos (by omega)]
        simp
      . have h1 : Function.update buf (n + 1) (buf n) i = buf i := by simp [hi]
        have h2 (h : i ≤ n) : Function.update buf (n + 1) (buf n) (i - 1) = buf (i - 1) := by
          rw [Function.update_of_ne (by omega)]
        by_cases hle : current < i ∧ i ≤ n
        . rw [if_pos hle, if_pos (by omega), h2 hle.2]
        . rw [if_neg hle, if_neg (by omega), h1]
    . next hn => rw [if_neg (by omega)]

theorem moveForward_eq (buf : Nat → Char) (n k i : Nat) (hn : 0 < n)
    : moveForward buf n k i = if n ≤ i + 1 ∧ i + 1 < n + k then buf (i + 1) else buf i := by
  induction k generalizing buf n with
  | zero =>
    rw [if_neg (by omega)]
    rfl
  | succ k ih =>
    unfold moveForward
    rw [ih _ _ (by omega)]
    by_cases hi : i + 1 = n
    . subst hi
      rw [if_neg (by omega), if_pos (by omega)]
      simp
    . have h1 : Function.update buf (n - 1) (buf n) i = buf i := by
        rw [Function.update_of_ne (by omega)]
      by_cases hle : n + 1 ≤ i + 1 ∧ i + 1 < n + 1 + k
      . rw [if_pos hle, if_pos (by omega), Function.update_of_ne (by omega)]
      . rw [if_neg hle, if_neg (by omega), h1]

theorem CparserLine.Valid.string_eq (h : line.Valid) (hi : i ≤ line.last)
    : line.string i = slice line.buf i (line.last - i) := by
  have hlast := h.last_le
  have hlen : CPARSER_MAX_LINE_SIZE + 1 - i
      = line.last - i + (CPARSER_MAX_LINE_SIZE - line.last + 1) := by
    omega
  rw [CparserLine.string, hlen, slice_add, slice_cons, Nat.add_sub_cancel' hi, h.terminated,
    List.takeWhile_append_of_pos]
  . simp
  . intro ch hch
    rcases mem_slice.mp hch with ⟨k, hk, rfl⟩
    exact decide_eq_true (h.ne_nul (i + k) (by omega))

theorem cparserLinePrint_eq (h : line.Valid)
    : cparserLinePrint line
        =
      line.cursor.text ++ List.replicate (line.last - line.current) BS := by
  rw [cparserLinePrint, h.string_eq (Nat.zero_le _), Nat.sub_zero, CparserLine.cursor,
    text_ofBuffer h.current_le, moveCursorBack]

theorem CparserLine.length_left : line.cursor.left.length = line.current := by
  simp [CparserLine.cursor, ofBuffer]

theorem CparserLine.length_right : line.cursor.right.length = line.last - line.current := by
  simp [CparserLine.cursor, ofBuffer]

theorem CparserLine.left_eq_nil : line.cursor.left = [] ↔ line.current = 0 := by
  rw [← List.length_eq_zero_iff, CparserLine.length_left]

theorem CparserLine.right_eq_nil (h : line.current ≤ line.last)
    : line.cursor.right = [] ↔ line.last = line.current := by
  rw [← List.length_eq_zero_iff, CparserLine.length_right]
  omega

theorem CparserLine.Valid.length_text (h : line.Valid) : line.cursor.text.length = line.last := by
  rw [CparserLine.cursor, text_ofBuffer h.current_le, length_slice]

theorem valid_reset : cparserLineReset.Valid := by
  constructor
  case current_le => exact Nat.le_refl _
  case last_le => exact Nat.zero_le _
  case terminated => rfl
  case ne_nul =>
    intro i hi
    contradiction

@[simp]
theorem cursor_reset : cparserLineReset.cursor = TextCursor.empty := rfl

theorem buf_insert (buf : Nat → Char) {last : Nat} (h : current ≤ last) (i : Nat)
    : Function.update (Function.update (moveBack current buf last) (last + 1) NUL) current ch i
        =
      if i < current then buf i
      else if i = current then ch
      else if i ≤ last then buf (i - 1)
      else if i = last + 1 then NUL
      else buf i := by
  by_cases hi : i = current
  . subst hi
    simp
  rw [Function.update_of_ne hi]
  by_cases hlast : i = last + 1
  . subst hlast
    rw [Function.update_self, if_neg (by omega), if_neg hi, if_neg (by omega), if_pos rfl]
  rw [Function.update_of_ne hlast, moveBack_eq]
  by_cases hlt : i < current
  . rw [if_pos hlt, if_neg (by omega)]
  rw [if_neg hlt, if_neg hi]
  by_cases hle : i ≤ last
  . rw [if_pos (by omega), if_pos hle]
  . rw [if_neg (by omega), if_neg hle, if_neg hlast]

theorem buf_delete (buf : Nat → Char) {last : Nat} (h : current ≤ last) (hpos : 0 < current) (i : Nat)
    : Function.update (moveForward buf current (last - current)) (last - 1) NUL i
        =
      if i = last - 1 then NUL
      else if current ≤ i + 1 ∧ i + 1 < last then buf (i + 1)
      else buf i := by
  by_cases hi : i = last - 1
  . rw [hi, Function.update_self, if_pos rfl]
  . rw [Function.update_of_ne hi, if_neg hi, moveForward_eq _ _ _ _ hpos, Nat.add_sub_cancel' h]

structure LineSpec (line' : CparserLine) (cursor : TextCursor Char) : Prop where
  valid : line'.Valid
  cursor_eq : line'.cursor = cursor

theorem CparserLine.Valid.spec_insert (h : line.Valid) (hch : ch ≠ NUL)
    (hlast : line.last < CPARSER_MAX_LINE_SIZE)
    : LineSpec (cparserLineInsert line ch).2.1 (line.cursor.insert ch) := by
  have hcurrent := h.current_le
  unfold cparserLineInsert
  rw [if_neg hch, if_neg (Nat.not_le.mpr hlast)]
  dsimp only
  constructor
  case valid =>
    constructor
    case current_le => exact Nat.add_le_add_right hcurrent 1
    case last_le => exact hlast
    case terminated =>
      dsimp only
      rw [buf_insert _ hcurrent, if_neg (by omega), if_neg (by omega), if_neg (by omega), if_pos rfl]
    case ne_nul =>
      intro i hi
      dsimp only at hi ⊢
      rw [buf_insert _ hcurrent]
      split
      . exact h.ne_nul i (by omega)
      split
      . exact hch
      split
      . exact h.ne_nul (i - 1) (by omega)
      . omega
  case cursor_eq =>
    unfold CparserLine.cursor
    dsimp only
    apply ofBuffer_insert hcurrent
    . intro k hk
      rw [buf_insert _ hcurrent, if_pos hk]
    . rw [buf_insert _ hcurrent, if_neg (Nat.lt_irrefl _), if_pos rfl]
    . intro k hk1 hk2
      rw [buf_insert _ hcurrent, if_neg (by omega), if_neg (by omega), if_pos (by omega)]
      rfl

theorem CparserLine.Valid.spec_delete (h : line.Valid) (hpos : 0 < line.current)
    : LineSpec (cparserLineDelete line).2.1 line.cursor.delete := by
  have hcurrent := h.current_le
  have hlast := h.last_le
  unfold cparserLineDelete
  rw [if_neg (by omega)]
  dsimp only
  constructor
  case valid =>
    constructor
    case current_le => exact Nat.sub_le_sub_right hcurrent 1
    case last_le =>
      dsimp only
      omega
    case terminated =>
      dsimp only
      rw [buf_delete _ hcurrent hpos, if_pos rfl]
    case ne_nul =>
      intro i hi
      dsimp only at hi ⊢
      rw [buf_delete _ hcurrent hpos, if_neg (by omega)]
      split
      . exact h.ne_nul (i + 1) (by omega)
      . exact h.ne_nul i (by omega)
  case cursor_eq =>
    unfold CparserLine.cursor
    dsimp only
    apply ofBuffer_delete hcurrent hpos
    . intro k hk
      rw [buf_delete _ hcurrent hpos, if_neg (by omega), if_neg (by omega)]
    . intro k hk1 hk2
      rw [buf_delete _ hcurrent hpos, if_neg (by omega), if_pos (by omega)]
      congr 1
      omega

theorem CparserLine.Valid.spec_nextChar (h : line.Valid) (hlt : line.current < line.last)
    : LineSpec (cparserLineNextChar line).2.1 line.cursor.moveRight := by
  unfold cparserLineNextChar
  rw [if_neg (by omega)]
  constructor
  . exact { h with current_le := hlt }
  . exact ofBuffer_moveRight hlt

theorem CparserLine.Valid.spec_prevChar (h : line.Valid) (hpos : 0 < line.current)
    : LineSpec (cparserLinePrevChar line).2.1 line.cursor.moveLeft := by
  unfold cparserLinePrevChar
  rw [if_neg (by omega)]
  constructor
  . exact { h with current_le := Nat.le_trans (Nat.sub_le _ 1) h.current_le }
  . exact ofBuffer_moveLeft h.current_le hpos

theorem CparserLine.Valid.nextChar_eq (h : line.Valid)
    : (cparserLineNextChar line).1 = line.cursor.right.headD NUL := by
  unfold cparserLineNextChar
  split
  . next heq =>
    rw [(CparserLine.right_eq_nil h.current_le).mpr heq]
    rfl
  . next hne =>
    have hright : line.cursor.right
        = line.buf line.current :: slice line.buf (line.current + 1) (line.last - line.current - 1) := by
      have hcurrent := h.current_le
      rw [← slice_cons, CparserLine.cursor, ofBuffer]
      dsimp only
      congr 1
      omega
    rw [hright]
    rfl

end Line

section Calls

inductive LineCall where
  | insert (ch : Char)
  | delete
  | nextChar
  | prevChar
  | nextLine
  | prevLine
  | advance
  deriving DecidableEq, Repr

def LineCall.run (b : LineBuffering) : LineCall → LineBuffering × List Char
  | insert ch => (b.setLine (cparserLineInsert b.line ch).2.1, (cparserLineInsert b.line ch).2.2)
  | delete => (b.setLine (cparserLineDelete b.line).2.1, (cparserLineDelete b.line).2.2)
  | nextChar => (b.setLine (cparserLineNextChar b.line).2.1, (cparserLineNextChar b.line).2.2)
  | prevChar => (b.setLine (cparserLinePrevChar b.line).2.1, (cparserLinePrevChar b.line).2.2)
  | nextLine => cparserLineNextLine b
  | prevLine => cparserLinePrevLine b
  | advance => (cparserLineAdvance b, [])

def runLineCalls (b : LineBuffering) (calls : List LineCall) : LineBuffering :=
  calls.foldl (fun b call => (call.run b).1) b

structure LineEditor where
  max_line : Nat
  cur_line : Nat
  lines : Nat → TextCursor Char

namespace LineEditor

def line (e : LineEditor) : TextCursor Char := e.lines e.cur_line

def setLine (e : LineEditor) (line : TextCursor Char) : LineEditor :=
  { e with lines := Function.update e.lines e.cur_line line }

def init : LineEditor where
  max_line := 0
  cur_line := 0
  lines := fun _ => TextCursor.empty

def advance (e : LineEditor) : LineEditor :=
  let cur_line := (e.cur_line + 1) % CPARSER_MAX_LINES
  ⟨max e.max_line cur_line, cur_line, Function.update e.lines cur_line TextCursor.empty⟩

def run (e : LineEditor) : LineCall → LineEditor
  | .insert ch =>
    if ch = NUL ∨ CPARSER_MAX_LINE_SIZE ≤ e.line.text.length then e else e.setLine (e.line.insert ch)
  | .delete => e.setLine e.line.delete
  | .nextChar => e.setLine e.line.moveRight
  | .prevChar => e.setLine e.line.moveLeft
  | .nextLine => { e with cur_line := (e.cur_line + 1) % (e.max_line + 1) }
  | .prevLine => { e with cur_line := (e.cur_line + e.max_line) % (e.max_line + 1) }
  | .advance => e.advance

end LineEditor

def LineBuffering.editor (b : LineBuffering) : LineEditor :=
  ⟨b.max_line, b.cur_line, fun i => (b.lines i).cursor⟩

structure LineBuffering.Valid (b : LineBuffering) : Prop where
  cur_le : b.cur_line ≤ b.max_line
  max_lt : b.max_line < CPARSER_MAX_LINES
  lines : ∀ i, (b.lines i).Valid

/-- What a call does with the lines. -/
structure LinesSpec (b' : LineBuffering) (e : LineEditor) : Prop where
  valid : b'.Valid
  editor_eq : b'.editor = e

variable {b : LineBuffering} {line' : CparserLine} {cursor : TextCursor Char}

theorem linesSpec_init : LinesSpec LineBuffering.init LineEditor.init := by
  constructor
  . exact ⟨Nat.le_refl _, by decide, fun _ => valid_reset⟩
  . rfl

theorem LineBuffering.Valid.line (h : b.Valid) : b.line.Valid := h.lines b.cur_line

theorem LineBuffering.editor_line : b.editor.line = b.line.cursor := rfl

theorem LineBuffering.Valid.spec_setLine (h : b.Valid) (hspec : LineSpec line' cursor)
    : LinesSpec (b.setLine line') (b.editor.setLine cursor) := by
  constructor
  case valid =>
    constructor
    case cur_le => exact h.cur_le
    case max_lt => exact h.max_lt
    case lines =>
      intro i
      unfold LineBuffering.setLine
      dsimp only
      by_cases hi : i = b.cur_line
      . subst hi
        rw [Function.update_self]
        exact hspec.valid
      . rw [Function.update_of_ne hi]
        exact h.lines i
  case editor_eq =>
    unfold LineBuffering.editor LineBuffering.setLine LineEditor.setLine
    dsimp only
    congr 1
    funext i
    by_cases hi : i = b.cur_line
    . subst hi
      rw [Function.update_self, Function.update_self]
      exact hspec.cursor_eq
    . rw [Function.update_of_ne hi, Function.update_of_ne hi]

theorem LineEditor.setLine_line (e : LineEditor) : e.setLine e.line = e := by
  unfold LineEditor.setLine LineEditor.line
  rw [Function.update_eq_self]

theorem LineBuffering.setLine_line (b : LineBuffering) : b.setLine b.line = b := by
  unfold LineBuffering.setLine LineBuffering.line
  rw [Function.update_eq_self]

theorem LineBuffering.Valid.spec_same (h : b.Valid) (hline : line' = b.line)
    (hcursor : cursor = b.line.cursor) : LinesSpec (b.setLine line') (b.editor.setLine cursor) := by
  apply h.spec_setLine
  rw [hline, hcursor]
  exact ⟨h.line, rfl⟩

theorem LineBuffering.Valid.spec_insert (h : b.Valid) (ch : Char)
    : LinesSpec (LineCall.run b (.insert ch)).1 (b.editor.run (.insert ch)) := by
  unfold LineCall.run LineEditor.run
  dsimp only
  rw [LineBuffering.editor_line, h.line.length_text]
  split
  . next hreject =>
    have hline : (cparserLineInsert b.line ch).2.1 = b.line := by
      unfold cparserLineInsert
      split
      . rfl
      . next hch => rw [if_pos (hreject.resolve_left hch)]
    have hsame := h.spec_same hline rfl
    rw [← LineBuffering.editor_line, b.editor.setLine_line] at hsame
    exact hsame
  . next haccept =>
    rw [not_or, Nat.not_le] at haccept
    exact h.spec_setLine (h.line.spec_insert haccept.1 haccept.2)

theorem LineBuffering.Valid.spec_delete (h : b.Valid)
    : LinesSpec (LineCall.run b .delete).1 (b.editor.run .delete) := by
  unfold LineCall.run LineEditor.run
  rw [LineBuffering.editor_line]
  by_cases hzero : b.line.current = 0
  . have hleft : b.line.cursor.left = [] := CparserLine.left_eq_nil.mpr hzero
    apply h.spec_same
    . unfold cparserLineDelete
      rw [if_pos (Or.inr hzero)]
    . exact delete_of_nil hleft
  . exact h.spec_setLine (h.line.spec_delete (Nat.pos_of_ne_zero hzero))

theorem LineBuffering.Valid.spec_nextChar (h : b.Valid)
    : LinesSpec (LineCall.run b .nextChar).1 (b.editor.run .nextChar) := by
  unfold LineCall.run LineEditor.run
  rw [LineBuffering.editor_line]
  by_cases hlast : b.line.last = b.line.current
  . have hright : b.line.cursor.right = [] := CparserLine.right_eq_nil h.line.current_le |>.mpr hlast
    apply h.spec_same
    . unfold cparserLineNextChar
      rw [if_pos hlast]
    . exact moveRight_of_nil hright
  . exact h.spec_setLine (h.line.spec_nextChar (lt_of_le_of_ne h.line.current_le (Ne.symm hlast)))

theorem LineBuffering.Valid.spec_prevChar (h : b.Valid)
    : LinesSpec (LineCall.run b .prevChar).1 (b.editor.run .prevChar) := by
  unfold LineCall.run LineEditor.run
  rw [LineBuffering.editor_line]
  by_cases hzero : b.line.current = 0
  . have hleft : b.line.cursor.left = [] := CparserLine.left_eq_nil.mpr hzero
    apply h.spec_same
    . unfold cparserLinePrevChar
      rw [if_pos hzero]
    . exact moveLeft_of_nil hleft
  . exact h.spec_setLine (h.line.spec_prevChar (Nat.pos_of_ne_zero hzero))

theorem LineBuffering.Valid.spec_nextLine (h : b.Valid)
    : LinesSpec (LineCall.run b .nextLine).1 (b.editor.run .nextLine) := by
  have hcur := h.cur_le
  have heq : (if b.max_line < b.cur_line + 1 then 0 else b.cur_line + 1)
      = (b.cur_line + 1) % (b.max_line + 1) := by
    split
    . next hlt => rw [show b.cur_line = b.max_line by omega, Nat.mod_self]
    . next hge => rw [Nat.mod_eq_of_lt (by omega)]
  unfold LineCall.run LineEditor.run cparserLineNextLine
  dsimp only
  rw [heq]
  constructor
  . exact { h with cur_le := Nat.lt_succ_iff.mp (Nat.mod_lt _ (Nat.succ_pos _)) }
  . rfl

theorem LineBuffering.Valid.spec_prevLine (h : b.Valid)
    : LinesSpec (LineCall.run b .prevLine).1 (b.editor.run .prevLine) := by
  have hcur := h.cur_le
  have heq : (if b.cur_line = 0 then b.max_line else b.cur_line - 1)
      = (b.cur_line + b.max_line) % (b.max_line + 1) := by
    split
    . next hzero => rw [hzero, Nat.zero_add, Nat.mod_eq_of_lt (Nat.lt_succ_self _)]
    . next hpos =>
      rw [show b.cur_line + b.max_line = (b.cur_line - 1) + (b.max_line + 1) by omega,
        Nat.add_mod_right, Nat.mod_eq_of_lt (by omega)]
  unfold LineCall.run LineEditor.run cparserLinePrevLine
  dsimp only
  rw [heq]
  constructor
  . exact { h with cur_le := Nat.lt_succ_iff.mp (Nat.mod_lt _ (Nat.succ_pos _)) }
  . rfl

theorem LineBuffering.Valid.spec_advance (h : b.Valid)
    : LinesSpec (cparserLineAdvance b) b.editor.advance := by
  have hcur := h.cur_le
  have hmax := h.max_lt
  have heq : (if CPARSER_MAX_LINES ≤ b.cur_line + 1 then 0 else b.cur_line + 1)
      = (b.cur_line + 1) % CPARSER_MAX_LINES := by
    split
    . next hle => rw [show b.cur_line + 1 = CPARSER_MAX_LINES by omega, Nat.mod_self]
    . next hlt => rw [Nat.mod_eq_of_lt (by omega)]
  have hlt : (b.cur_line + 1) % CPARSER_MAX_LINES < CPARSER_MAX_LINES := Nat.mod_lt _ (by decide)
  have hmax' : (if b.max_line < (b.cur_line + 1) % CPARSER_MAX_LINES then (b.cur_line + 1) % CPARSER_MAX_LINES
      else b.max_line) = max b.max_line ((b.cur_line + 1) % CPARSER_MAX_LINES) := by
    split
    . next h => rw [Nat.max_eq_right (Nat.le_of_lt h)]
    . next h => rw [Nat.max_eq_left (Nat.le_of_not_lt h)]
  unfold cparserLineAdvance
  dsimp only
  rw [heq, hmax']
  refine LineBuffering.Valid.spec_setLine (b := ⟨_, _, b.lines⟩) ?_ ⟨valid_reset, rfl⟩
  constructor
  case cur_le => exact Nat.le_max_right _ _
  case max_lt => exact Nat.max_lt.mpr ⟨hmax, hlt⟩
  case lines => exact h.lines

theorem LineBuffering.Valid.spec_run (h : b.Valid) (call : LineCall)
    : LinesSpec (call.run b).1 (b.editor.run call) := by
  cases call with
  | insert ch => exact h.spec_insert ch
  | delete => exact h.spec_delete
  | nextChar => exact h.spec_nextChar
  | prevChar => exact h.spec_prevChar
  | nextLine => exact h.spec_nextLine
  | prevLine => exact h.spec_prevLine
  | advance => exact h.spec_advance

theorem LinesSpec.runLineCalls {e : LineEditor} (h : LinesSpec b e) (calls : List LineCall)
    : LinesSpec (runLineCalls b calls) (calls.foldl LineEditor.run e) := by
  induction calls using List.reverseRecOn with
  | nil => exact h
  | append_singleton calls call ih =>
    unfold Client.runLineCalls at ih ⊢
    rw [List.foldl_append, List.foldl_append, ← ih.editor_eq]
    exact ih.valid.spec_run call

/-- Every sequence of calls edits the lines as the editor does. -/
theorem runLineCalls_refines (calls : List LineCall)
    : LinesSpec (runLineCalls LineBuffering.init calls) (calls.foldl LineEditor.run LineEditor.init) :=
  linesSpec_init.runLineCalls calls

end Calls

end SecFw.Client
