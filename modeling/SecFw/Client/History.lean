import SecFw.Client.Line

/-!
This module contains the history of the command line: the lines that were entered come back in their
order, as long as the ring of lines has not given them up.
-/

namespace SecFw.Client

/-- The calls that stay in the line under the cursor. -/
def LineCall.Edits : LineCall → Prop
  | .insert _ | .delete | .nextChar | .prevChar => True
  | .nextLine | .prevLine | .advance => False

def enter (newer : List (List LineCall)) : List LineCall := newer.flatMap (· ++ [.advance])

structure Behind (saved : Nat) (t : TextCursor Char) (i : Nat) (e : LineEditor) : Prop where
  line_eq : e.lines saved = t
  cur_eq : e.cur_line = (saved + i) % CPARSER_MAX_LINES
  cur_le : e.cur_line ≤ e.max_line
  max_lt : e.max_line < CPARSER_MAX_LINES
  wrapped : CPARSER_MAX_LINES ≤ saved + i → e.max_line + 1 = CPARSER_MAX_LINES
  saved_lt : saved < CPARSER_MAX_LINES

section Behind

variable {saved i : Nat} {t : TextCursor Char} {e : LineEditor} {call : LineCall}
  {calls : List LineCall} {newer : List (List LineCall)}

theorem Behind.cur_ne (h : Behind saved t i e) (hpos : 0 < i) (hlt : i < CPARSER_MAX_LINES)
    : saved ≠ e.cur_line := by
  have hsaved := h.saved_lt
  have hcur := h.cur_eq
  intro heq
  unfold CPARSER_MAX_LINES at hsaved hcur hlt
  omega

theorem Behind.setLine (h : Behind saved t i e) (hpos : 0 < i) (hlt : i < CPARSER_MAX_LINES)
    (line : TextCursor Char) : Behind saved t i (e.setLine line) where
  line_eq := by
    unfold LineEditor.setLine
    dsimp only
    rw [Function.update_of_ne (h.cur_ne hpos hlt)]
    exact h.line_eq
  cur_eq := h.cur_eq
  cur_le := h.cur_le
  max_lt := h.max_lt
  wrapped := h.wrapped
  saved_lt := h.saved_lt

theorem Behind.edits (h : Behind saved t i e) (hpos : 0 < i) (hlt : i < CPARSER_MAX_LINES)
    (hedits : call.Edits) : Behind saved t i (e.run call) := by
  cases call with
  | insert ch =>
    unfold LineEditor.run
    dsimp only
    split
    . exact h
    . exact h.setLine hpos hlt _
  | delete => exact h.setLine hpos hlt _
  | nextChar => exact h.setLine hpos hlt _
  | prevChar => exact h.setLine hpos hlt _
  | nextLine => exact hedits.elim
  | prevLine => exact hedits.elim
  | advance => exact hedits.elim

theorem Behind.foldl_edits (h : Behind saved t i e) (hpos : 0 < i) (hlt : i < CPARSER_MAX_LINES)
    (hedits : ∀ call ∈ calls, call.Edits) : Behind saved t i (calls.foldl LineEditor.run e) := by
  induction calls generalizing e with
  | nil => exact h
  | cons call calls ih =>
    rw [List.forall_mem_cons] at hedits
    exact ih (h.edits hpos hlt hedits.1) hedits.2

theorem Behind.advance (h : Behind saved t i e) (hlt : i + 1 < CPARSER_MAX_LINES)
    : Behind saved t (i + 1) e.advance := by
  have hsaved := h.saved_lt
  have hmax := h.max_lt
  have hcur := h.cur_eq
  have hcur' : (e.cur_line + 1) % CPARSER_MAX_LINES = (saved + (i + 1)) % CPARSER_MAX_LINES := by
    rw [hcur, Nat.mod_add_mod, Nat.add_assoc]
  have hnext : (saved + (i + 1)) % CPARSER_MAX_LINES < CPARSER_MAX_LINES := Nat.mod_lt _ (by decide)
  unfold LineEditor.advance
  rw [hcur']
  constructor
  case line_eq =>
    dsimp only
    have hne : saved ≠ (saved + (i + 1)) % CPARSER_MAX_LINES := by
      unfold CPARSER_MAX_LINES at hsaved hlt ⊢
      omega
    rw [Function.update_of_ne hne]
    exact h.line_eq
  case cur_eq => rfl
  case cur_le => exact Nat.le_max_right _ _
  case max_lt => exact Nat.max_lt.mpr ⟨hmax, hnext⟩
  case wrapped =>
    intro hle
    have hwrapped := h.wrapped
    have hcur_le := h.cur_le
    dsimp only
    by_cases heq : CPARSER_MAX_LINES ≤ saved + i
    . have hmax' := hwrapped heq
      omega
    . have hlast : saved + i + 1 = CPARSER_MAX_LINES := by omega
      have hmod : (saved + i) % CPARSER_MAX_LINES = saved + i := Nat.mod_eq_of_lt (by omega)
      omega
  case saved_lt => exact hsaved

theorem Behind.prevLine (h : Behind saved t (i + 1) e)
    : Behind saved t i (e.run .prevLine) := by
  have hsaved := h.saved_lt
  have hmax := h.max_lt
  have hcur := h.cur_eq
  have hcur_le := h.cur_le
  have hwrapped := h.wrapped
  unfold LineEditor.run
  dsimp only
  constructor
  case line_eq => exact h.line_eq
  case cur_eq =>
    dsimp only
    by_cases heq : CPARSER_MAX_LINES ≤ saved + (i + 1)
    . have hmax' := hwrapped heq
      rw [hcur, hmax', Nat.mod_add_mod, show saved + (i + 1) + e.max_line = saved + i + CPARSER_MAX_LINES by omega,
        Nat.add_mod_right]
    . rw [Nat.mod_eq_of_lt (by omega)] at hcur
      rw [hcur, show saved + (i + 1) + e.max_line = saved + i + (e.max_line + 1) by omega, Nat.add_mod_right,
        Nat.mod_eq_of_lt (by omega), Nat.mod_eq_of_lt (by omega)]
  case cur_le => exact Nat.lt_succ_iff.mp (Nat.mod_lt _ (Nat.succ_pos _))
  case max_lt => exact hmax
  case wrapped =>
    intro hle
    exact hwrapped (by omega)
  case saved_lt => exact hsaved

theorem Behind.line_of_zero (h : Behind saved t 0 e) : e.line = t := by
  have hcur := h.cur_eq
  rw [Nat.add_zero, Nat.mod_eq_of_lt h.saved_lt] at hcur
  rw [LineEditor.line, hcur, h.line_eq]

theorem Behind.foldl_prevLine (h : Behind saved t i e)
    : Behind saved t 0 ((List.replicate i LineCall.prevLine).foldl LineEditor.run e) := by
  induction i generalizing e with
  | zero => exact h
  | succ i ih =>
    rw [List.replicate_succ, List.foldl_cons]
    exact ih h.prevLine

theorem Behind.foldl_enter (h : Behind saved t i e) (hpos : 0 < i)
    (hlt : i + newer.length < CPARSER_MAX_LINES) (hedits : ∀ calls ∈ newer, ∀ call ∈ calls, call.Edits)
    : Behind saved t (i + newer.length) ((enter newer).foldl LineEditor.run e) := by
  induction newer generalizing i e with
  | nil => exact h
  | cons calls newer ih =>
    rw [List.forall_mem_cons] at hedits
    rw [List.length_cons] at hlt ⊢
    have hentered := (h.foldl_edits hpos (by omega) hedits.1).advance (by omega)
    unfold enter at ih ⊢
    rw [List.flatMap_cons, List.foldl_append, List.foldl_append]
    have hlast := ih hentered (Nat.succ_pos i) (by omega) hedits.2
    rwa [Nat.add_assoc, Nat.add_comm 1] at hlast

end Behind

/--
A line that was left with the enter key comes back with its cursor when the key for the previous line is
pressed as often as lines were entered since, up to nine times.
-/
theorem line_recalled (pre : List LineCall) (newer : List (List LineCall))
    (hedits : ∀ calls ∈ newer, ∀ call ∈ calls, call.Edits) (hlen : newer.length + 1 < CPARSER_MAX_LINES)
    : (runLineCalls LineBuffering.init
          (pre ++ [.advance] ++ enter newer ++ List.replicate (newer.length + 1) .prevLine)).line.cursor
        =
      (runLineCalls LineBuffering.init pre).line.cursor := by
  have hpre := linesSpec_init.runLineCalls pre
  have hall := linesSpec_init.runLineCalls
    (pre ++ [.advance] ++ enter newer ++ List.replicate (newer.length + 1) .prevLine)
  generalize hb : runLineCalls LineBuffering.init pre = b at hpre
  have hbehind : Behind b.cur_line b.line.cursor 0 b.editor := by
    have hcur := hpre.valid.cur_le
    have hmax := hpre.valid.max_lt
    constructor
    case line_eq => rfl
    case cur_eq => exact (Nat.mod_eq_of_lt (Nat.lt_of_le_of_lt hcur hmax)).symm
    case cur_le => exact hcur
    case max_lt => exact hmax
    case wrapped =>
      intro hle
      omega
    case saved_lt => exact Nat.lt_of_le_of_lt hcur hmax
  rw [← LineBuffering.editor_line, hall.editor_eq, List.foldl_append, List.foldl_append, List.foldl_append,
    ← hpre.editor_eq]
  have hentered := (hbehind.advance (by decide)).foldl_enter (Nat.zero_lt_one) (by omega) hedits
  rw [Nat.add_comm 0 1, Nat.add_comm 1] at hentered
  exact hentered.foldl_prevLine.line_of_zero

theorem line_recalled_two
    : (runLineCalls LineBuffering.init
          ([.insert 'a'] ++ [.advance] ++ enter [[.insert 'b']] ++ List.replicate 2 .prevLine)).line.cursor
        =
      (runLineCalls LineBuffering.init [.insert 'a']).line.cursor := by
  apply line_recalled [.insert 'a'] [[.insert 'b']]
  . intro calls hcalls call hcall
    rw [List.mem_singleton.mp hcalls] at hcall
    rw [List.mem_singleton.mp hcall]
    trivial
  . decide

end SecFw.Client
