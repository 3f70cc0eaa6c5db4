import Mathlib.Data.List.Basic
import Mathlib.Data.List.Induction

/-!
This module contains the words of a text that is typed from left to right: the words that a separator
has closed and the word that is still open.
-/

namespace TextCursor

variable {α : Type} [DecidableEq α]

def words (sep : α) (text : List α) : List (List α) := (text.splitOn sep).filter (· ≠ [])

def closedWords (sep : α) (text : List α) : List (List α) := (text.splitOn sep).dropLast.filter (· ≠ [])

def openWord (sep : α) (text : List α) : List α := ((text.splitOn sep).getLast?).getD []

section Words

variable {sep a : α} {text : List α}

theorem splitOn_append_self : (text ++ [sep]).splitOn sep = text.splitOn sep ++ [[]] := by
  rw [List.splitOn_append_cons_self]
  rfl

theorem splitOn_append_of_ne (h : a ≠ sep)
    : (text ++ [a]).splitOn sep = (text.splitOn sep).dropLast ++ [openWord sep text ++ [a]] := by
  unfold openWord
  induction text with
  | nil => simp [List.splitOn_cons_eq_if_modifyHead, h]
  | cons c text ih =>
    rw [List.cons_append, List.splitOn_cons_eq_if_modifyHead, List.splitOn_cons_eq_if_modifyHead, ih]
    have hne := List.splitOn_ne_nil sep text
    cases hsplit : text.splitOn sep with
    | nil => exact absurd hsplit hne
    | cons part parts =>
      by_cases hc : c = sep
      . simp [hc]
      . cases parts with
        | nil => simp [hc]
        | cons part' parts => simp [hc]

@[simp]
theorem openWord_nil : openWord sep ([] : List α) = [] := rfl

@[simp]
theorem closedWords_nil : closedWords sep ([] : List α) = [] := rfl

@[simp]
theorem openWord_append_self : openWord sep (text ++ [sep]) = [] := by
  rw [openWord, splitOn_append_self, List.getLast?_concat]
  rfl

theorem openWord_append_of_ne (h : a ≠ sep) : openWord sep (text ++ [a]) = openWord sep text ++ [a] := by
  rw [openWord, splitOn_append_of_ne h, List.getLast?_concat]
  rfl

theorem closedWords_append_of_ne (h : a ≠ sep) : closedWords sep (text ++ [a]) = closedWords sep text := by
  rw [closedWords, splitOn_append_of_ne h, List.dropLast_concat]
  rfl

theorem closedWords_append_self : closedWords sep (text ++ [sep]) = words sep text := by
  rw [closedWords, splitOn_append_self, List.dropLast_concat]
  rfl

theorem words_eq
    : words sep text = closedWords sep text ++ if openWord sep text = [] then [] else [openWord sep text] := by
  have hsplit := List.dropLast_append_getLast (List.splitOn_ne_nil sep text)
  unfold words closedWords openWord
  rw [List.getLast?_eq_getLast_of_ne_nil (List.splitOn_ne_nil sep text)]
  conv_lhs => rw [← hsplit]
  rw [List.filter_append]
  simp [List.filter_cons]

theorem openWord_append {word : List α} (h : sep ∉ word)
    : openWord sep (text ++ word) = openWord sep text ++ word := by
  induction word using List.reverseRecOn with
  | nil => rw [List.append_nil, List.append_nil]
  | append_singleton word a ih =>
    have ha : a ≠ sep := by
      rintro rfl
      exact h (List.mem_append_right word (List.mem_singleton_self a))
    rw [← List.append_assoc, openWord_append_of_ne ha, ih (fun hmem => h (List.mem_append_left [a] hmem)),
      List.append_assoc]

theorem closedWords_append {word : List α} (h : sep ∉ word)
    : closedWords sep (text ++ word) = closedWords sep text := by
  induction word using List.reverseRecOn with
  | nil => rw [List.append_nil]
  | append_singleton word a ih =>
    have ha : a ≠ sep := by
      rintro rfl
      exact h (List.mem_append_right word (List.mem_singleton_self a))
    rw [← List.append_assoc, closedWords_append_of_ne ha, ih (fun hmem => h (List.mem_append_left [a] hmem))]

theorem closedWords_append_word {word : List α} (h : sep ∉ word) (hne : openWord sep text ++ word ≠ [])
    : closedWords sep (text ++ word ++ [sep]) = closedWords sep text ++ [openWord sep text ++ word] := by
  rw [closedWords_append_self, words_eq, closedWords_append h, openWord_append h, if_neg hne]

end Words

end TextCursor
