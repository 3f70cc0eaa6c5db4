import Mathlib

/-!
This module contains texts with a cursor, the operations of a line editor on them and the part of a
buffer that holds a text.
-/

/-- A text with a cursor. The elements before the cursor are listed nearest first. -/
@[ext]
structure TextCursor (α : Type) where
  left : List α
  right : List α
  deriving DecidableEq, Repr

namespace TextCursor

variable {α : Type}

def before (c : TextCursor α) : List α := c.left.reverse

def text (c : TextCursor α) : List α := c.before ++ c.right

def empty : TextCursor α := ⟨[], []⟩

def insert (a : α) (c : TextCursor α) : TextCursor α := ⟨a :: c.left, c.right⟩

def delete (c : TextCursor α) : TextCursor α := ⟨c.left.tail, c.right⟩

def moveLeft (c : TextCursor α) : TextCursor α :=
  match c.left with
  | [] => c
  | a :: l => ⟨l, a :: c.right⟩

def moveRight (c : TextCursor α) : TextCursor α :=
  match c.right with
  | [] => c
  | a :: r => ⟨a :: c.left, r⟩

section Operations

variable (a : α) (c : TextCursor α)

@[simp]
theorem before_empty : (empty : TextCursor α).before = [] := rfl

@[simp]
theorem text_empty : (empty : TextCursor α).text = [] := rfl

@[simp]
theorem before_insert : (c.insert a).before = c.before ++ [a] := by
  simp [before, insert]

theorem text_insert : (c.insert a).text = c.before ++ a :: c.right := by
  simp [text, insert, before]

@[simp]
theorem before_delete : c.delete.before = c.before.dropLast := by
  rw [before, delete, before, List.dropLast_reverse]

theorem text_delete : c.delete.text = c.before.dropLast ++ c.right := by
  rw [text, before_delete, delete]

@[simp]
theorem delete_insert : (c.insert a).delete = c := rfl

@[simp]
theorem text_moveLeft : c.moveLeft.text = c.text := by
  unfold moveLeft
  cases h : c.left with
  | nil => rfl
  | cons a l => simp [text, before, h]

@[simp]
theorem text_moveRight : c.moveRight.text = c.text := by
  unfold moveRight
  cases h : c.right with
  | nil => rfl
  | cons a r => simp [text, before, h]

@[simp]
theorem before_moveLeft : c.moveLeft.before = c.before.dropLast := by
  unfold moveLeft
  cases h : c.left with
  | nil => simp [before, h]
  | cons a l => simp [before, h]

theorem before_moveRight {c : TextCursor α} {a : α} {r : List α} (h : c.right = a :: r)
    : c.moveRight.before = c.before ++ [a] := by
  simp [moveRight, before, h]

theorem delete_of_nil {c : TextCursor α} (h : c.left = []) : c.delete = c := by
  rw [delete, h, List.tail_nil, ← h]

theorem moveLeft_of_nil {c : TextCursor α} (h : c.left = []) : c.moveLeft = c := by
  rw [moveLeft, h]

theorem moveRight_of_nil {c : TextCursor α} (h : c.right = []) : c.moveRight = c := by
  rw [moveRight, h]

end Operations

def slice (buf : Nat → α) (i n : Nat) : List α := (List.range n).map fun k => buf (i + k)

section Slice

variable {buf buf' : Nat → α} {i n m : Nat}

@[simp]
theorem length_slice : (slice buf i n).length = n := by
  simp [slice]

@[simp]
theorem slice_zero : slice buf i 0 = [] := rfl

theorem slice_congr {i' : Nat} (h : ∀ k < n, buf (i + k) = buf' (i' + k)) :
    slice buf i n = slice buf' i' n := by
  apply List.map_congr_left
  intro k hk
  exact h k (List.mem_range.mp hk)

theorem slice_succ : slice buf i (n + 1) = slice buf i n ++ [buf (i + n)] := by
  simp [slice, List.range_succ]

theorem slice_cons : slice buf i (n + 1) = buf i :: slice buf (i + 1) n := by
  simp [slice, List.range_succ_eq_map, Function.comp_def, Nat.add_left_comm, Nat.add_comm]

theorem slice_add : slice buf i (n + m) = slice buf i n ++ slice buf (i + n) m := by
  induction m with
  | zero => simp
  | succ m ih => rw [← Nat.add_assoc, slice_succ, ih, slice_succ, List.append_assoc, Nat.add_assoc]

theorem mem_slice {a : α} : a ∈ slice buf i n ↔ ∃ k < n, buf (i + k) = a := by
  simp [slice]

end Slice

def ofBuffer (buf : Nat → α) (current last : Nat) : TextCursor α :=
  ⟨(slice buf 0 current).reverse, slice buf current (last - current)⟩

section OfBuffer

variable {buf buf' : Nat → α} {current last : Nat}

@[simp]
theorem before_ofBuffer : (ofBuffer buf current last).before = slice buf 0 current := by
  simp [before, ofBuffer]

theorem text_ofBuffer (h : current ≤ last) : (ofBuffer buf current last).text = slice buf 0 last := by
  rw [text, before_ofBuffer, ofBuffer]
  have hadd : slice buf 0 (current + (last - current)) = slice buf 0 current ++ slice buf (0 + current) (last - current) :=
    slice_add
  rw [Nat.add_sub_cancel' h, Nat.zero_add] at hadd
  exact hadd.symm

theorem ofBuffer_insert {a : α} (h : current ≤ last) (hbefore : ∀ k < current, buf' k = buf k)
    (hat : buf' current = a) (hafter : ∀ k, current ≤ k → k < last → buf' (k + 1) = buf k)
    : ofBuffer buf' (current + 1) (last + 1) = (ofBuffer buf current last).insert a := by
  unfold ofBuffer insert
  have hleft : slice buf' 0 (current + 1) = slice buf 0 current ++ [a] := by
    rw [slice_succ, Nat.zero_add, hat]
    congr 1
    apply slice_congr
    intro k hk
    rw [Nat.zero_add]
    exact hbefore k hk
  have hright : slice buf' (current + 1) (last + 1 - (current + 1)) = slice buf current (last - current) := by
    rw [Nat.add_sub_add_right]
    apply slice_congr
    intro k hk
    rw [Nat.add_right_comm]
    exact hafter (current + k) (by omega) (by omega)
  rw [hleft, hright, List.reverse_append]
  rfl

theorem ofBuffer_delete (h : current ≤ last) (hpos : 0 < current)
    (hbefore : ∀ k, k + 1 < current → buf' k = buf k)
    (hafter : ∀ k, current ≤ k → k < last → buf' (k - 1) = buf k)
    : ofBuffer buf' (current - 1) (last - 1) = (ofBuffer buf current last).delete := by
  unfold ofBuffer delete
  have hleft : slice buf 0 current = slice buf' 0 (current - 1) ++ [buf (current - 1)] := by
    obtain ⟨n, rfl⟩ : ∃ n, current = n + 1 := ⟨current - 1, by omega⟩
    rw [slice_succ, Nat.add_sub_cancel, Nat.zero_add]
    congr 1
    apply slice_congr
    intro k hk
    rw [Nat.zero_add]
    exact (hbefore k (by omega)).symm
  have hright : slice buf' (current - 1) (last - 1 - (current - 1)) = slice buf current (last - current) := by
    have hlen : last - 1 - (current - 1) = last - current := by omega
    rw [hlen]
    apply slice_congr
    intro k hk
    have hafter := hafter (current + k) (by omega) (by omega)
    rw [← hafter]
    congr 1
    omega
  rw [hleft, hright, List.reverse_append]
  rfl

theorem ofBuffer_moveLeft (h : current ≤ last) (hpos : 0 < current)
    : ofBuffer buf (current - 1) last = (ofBuffer buf current last).moveLeft := by
  obtain ⟨n, rfl⟩ : ∃ n, current = n + 1 := ⟨current - 1, by omega⟩
  have hright : slice buf n (last - n) = buf n :: slice buf (n + 1) (last - (n + 1)) := by
    rw [← slice_cons]
    congr 1
    omega
  unfold ofBuffer moveLeft
  rw [slice_succ, Nat.add_sub_cancel, Nat.zero_add, List.reverse_append, hright]
  rfl

theorem ofBuffer_moveRight (h : current < last)
    : ofBuffer buf (current + 1) last = (ofBuffer buf current last).moveRight := by
  have hright : slice buf current (last - current) = buf current :: slice buf (current + 1) (last - (current + 1)) := by
    rw [← slice_cons]
    congr 1
    omega
  unfold ofBuffer moveRight
  rw [slice_succ, Nat.zero_add, List.reverse_append, hright]
  rfl

end OfBuffer

end TextCursor
