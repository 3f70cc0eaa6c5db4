import Mathlib

/-!
This module contains arrays of cells with bounds. A cell that was never written has no value, and
an access outside of the array fails.
-/

abbrev Cells (α : Type) : Type := List (Option α)

namespace Cells

variable {α β : Type}

def load (a : Cells α) (i : Nat) : Option α := a[i]?.join

def store (a : Cells α) (i : Nat) (v : α) : Option (Cells α) :=
  if i < a.length then some (a.set i (some v)) else none

def copy (dest : Cells α) (d : Nat) (source : Cells α) (s : Nat) : Nat → Option (Cells α)
  | 0 => some dest
  | n + 1 => do
    let dest ← copy dest d source s n
    dest.store (d + n) (← source.load (s + n))

def blank (n : Nat) : Cells α := List.replicate n none

def filled (xs : List α) : Cells α := xs.map some

def Holds (a : Cells α) (i : Nat) (xs : List α) : Prop :=
  ∀ j, j < xs.length → a.load (i + j) = xs[j]?

section Access

variable {a : Cells α} {i : Nat} {x : α} {xs ys : List α}

@[simp]
theorem length_blank (n : Nat) : (blank n : Cells α).length = n := by
  simp [blank]

@[simp]
theorem length_filled (xs : List α) : (filled xs).length = xs.length := by
  simp [filled]

@[simp]
theorem load_filled (xs : List α) (i : Nat) : (filled xs).load i = xs[i]? := by
  simp only [load, filled, List.getElem?_map]
  cases xs[i]? <;> rfl

theorem holds_nil (a : Cells α) (i : Nat) : a.Holds i [] := by
  intro j hj
  simp at hj

theorem holds_filled (xs : List α) : (filled xs).Holds 0 xs := by
  intro j hj
  rw [Nat.zero_add, load_filled]

theorem holds_cons : a.Holds i (x :: xs) ↔ a.load i = some x ∧ a.Holds (i + 1) xs := by
  constructor
  . intro h
    constructor
    . simpa using h 0 (by simp)
    . intro j hj
      have := h (j + 1) (by simpa using hj)
      rwa [← Nat.add_assoc, Nat.add_right_comm, List.getElem?_cons_succ] at this
  . intro h j hj
    cases j with
    | zero => simpa using h.1
    | succ j =>
      have := h.2 j (by simpa using hj)
      rwa [← Nat.add_assoc, Nat.add_right_comm, List.getElem?_cons_succ]

theorem holds_append : a.Holds i (xs ++ ys) ↔ a.Holds i xs ∧ a.Holds (i + xs.length) ys := by
  induction xs generalizing i with
  | nil => simp [holds_nil]
  | cons x xs ih =>
    have hpos : i + (x :: xs).length = i + 1 + xs.length := by
      rw [List.length_cons]
      omega
    rw [List.cons_append, holds_cons, holds_cons, ih, hpos, and_assoc]

theorem Holds.chunk {k : Nat} {f : β → List α} {bs : List β} (h : a.Holds i (bs.flatMap f))
    (hf : ∀ b ∈ bs, (f b).length = k) {n : Nat} {b : β} (hb : bs[n]? = some b)
    : a.Holds (i + n * k) (f b) := by
  induction bs generalizing i n with
  | nil => simp at hb
  | cons c bs ih =>
    rw [List.flatMap_cons, holds_append, hf c (by simp)] at h
    cases n with
    | zero =>
      rw [List.getElem?_cons_zero, Option.some.injEq] at hb
      simpa [← hb] using h.1
    | succ n =>
      have hpos : i + (n + 1) * k = i + k + n * k := by
        rw [Nat.add_mul, Nat.one_mul]
        omega
      rw [hpos]
      exact ih h.2 (fun b hb => hf b (by simp [hb])) hb

theorem Holds.congr {a' : Cells α} (h : a.Holds i xs)
    (heq : ∀ j, i ≤ j → j < i + xs.length → a'.load j = a.load j) : a'.Holds i xs := by
  intro j hj
  rw [heq (i + j) (by omega) (by omega)]
  exact h j hj

theorem Holds.initial (h : a.Holds i ys) (hinitial : xs <+: ys) : a.Holds i xs := by
  rcases hinitial with ⟨zs, rfl⟩
  exact (holds_append.mp h).1

theorem Holds.eq_filled (h : a.Holds 0 xs) (hlen : a.length = xs.length) : a = filled xs := by
  apply List.ext_getElem?
  intro j
  by_cases hj : j < xs.length
  . have hload := h j hj
    rw [Nat.zero_add, load, List.getElem?_eq_getElem (by omega), Option.join_some,
      List.getElem?_eq_getElem hj] at hload
    rw [List.getElem?_eq_getElem (by omega), hload, filled, List.getElem?_map,
      List.getElem?_eq_getElem hj, Option.map_some]
  . rw [List.getElem?_eq_none (by omega), List.getElem?_eq_none (by rw [length_filled]; omega)]

end Access

section Update

variable {a : Cells α} {i : Nat} {xs : List α}

theorem exists_store (hi : i < a.length) (v : α)
    : ∃ a', a.store i v = some a' ∧ a'.length = a.length
        ∧ ∀ j, a'.load j = if j = i then some v else a.load j := by
  refine ⟨a.set i (some v), by rw [store, if_pos hi], by simp, ?_⟩
  intro j
  unfold load
  split
  . next h =>
    subst h
    simp [hi]
  . next h => rw [List.getElem?_set_ne (Ne.symm h)]

theorem exists_copy {dest source : Cells α} {d s : Nat} (h : source.Holds s xs)
    (hd : d + xs.length ≤ dest.length) (n : Nat) (hn : n ≤ xs.length)
    : ∃ dest', dest.copy d source s n = some dest' ∧ dest'.length = dest.length
        ∧ ∀ j, dest'.load j = if d ≤ j ∧ j < d + n then xs[j - d]? else dest.load j := by
  induction n with
  | zero =>
    refine ⟨dest, rfl, rfl, ?_⟩
    intro j
    rw [if_neg (by omega)]
  | succ n ih =>
    rcases ih (by omega) with ⟨dest1, hcopy, hlen, hload⟩
    rcases exists_store (by omega : d + n < dest1.length) xs[n] with
      ⟨dest2, hstore, hlen2, hload2⟩
    refine ⟨dest2, ?_, hlen2.trans hlen, ?_⟩
    . have hv := h n (by omega)
      rw [List.getElem?_eq_getElem (by omega)] at hv
      simp only [copy, hcopy, hv, Option.bind_eq_bind, Option.bind_some]
      exact hstore
    . intro j
      rw [hload2, hload]
      by_cases hj : j = d + n
      . subst hj
        rw [if_pos rfl, if_pos (by omega), Nat.add_sub_cancel_left, List.getElem?_eq_getElem]
      . by_cases hin : d ≤ j ∧ j < d + n
        . rw [if_neg hj, if_pos hin, if_pos (by omega)]
        . rw [if_neg hj, if_neg hin, if_neg (by omega)]

theorem exists_copy_all {dest source : Cells α} {d s : Nat} (h : source.Holds s xs)
    (hd : d + xs.length ≤ dest.length)
    : ∃ dest', dest.copy d source s xs.length = some dest' ∧ dest'.length = dest.length
        ∧ dest'.Holds d xs
        ∧ ∀ j, j < d ∨ d + xs.length ≤ j → dest'.load j = dest.load j := by
  rcases exists_copy h hd xs.length le_rfl with ⟨dest', hcopy, hlen, hload⟩
  refine ⟨dest', hcopy, hlen, ?_, ?_⟩
  . intro j hj
    rw [hload, if_pos (by omega), Nat.add_sub_cancel_left]
  . intro j hj
    rw [hload, if_neg (by omega)]

theorem Holds.exists_set (h : a.Holds 0 xs) (hlen : xs.length ≤ a.length) (hi : i < xs.length)
    (v : α) : ∃ a', a.store i v = some a' ∧ a'.length = a.length ∧ a'.Holds 0 (xs.set i v) := by
  rcases exists_store (by omega : i < a.length) v with ⟨a', hstore, hlen', hload⟩
  refine ⟨a', hstore, hlen', ?_⟩
  intro j hj
  rw [List.length_set] at hj
  have := h j hj
  rw [Nat.zero_add] at this ⊢
  rw [hload]
  split
  . next heq =>
    subst heq
    rw [List.getElem?_set_self hj]
  . next hne => rw [List.getElem?_set_ne (Ne.symm hne), this]

theorem Holds.exists_push (h : a.Holds 0 xs) (hlen : xs.length < a.length) (v : α)
    : ∃ a', a.store xs.length v = some a' ∧ a'.length = a.length ∧ a'.Holds 0 (xs ++ [v]) := by
  rcases exists_store hlen v with ⟨a', hstore, hlen', hload⟩
  refine ⟨a', hstore, hlen', ?_⟩
  rw [holds_append]
  constructor
  . apply h.congr
    intro j _ hj
    rw [hload, if_neg (by omega)]
  . rw [holds_cons]
    refine ⟨?_, holds_nil _ _⟩
    rw [Nat.zero_add, hload, if_pos rfl]

end Update

end Cells
