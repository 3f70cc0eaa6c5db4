import Mathlib

/-!
This module contains lists that elements are taken from in turn. A request is served from the list
whose turn it is, and fails if nothing is left in it, whatever is left in the others. No list is passed
over for more than one round.
-/

/-- The lists, and the one whose turn it is. -/
@[ext]
structure Rotation (n : Nat) (α : Type) where
  turn : Fin n
  lists : Fin n → List α

namespace Rotation

variable {n : Nat} [NeZero n] {α : Type}

def taken (r : Rotation n α) : Option α := (r.lists r.turn).head?

def next (r : Rotation n α) : Rotation n α where
  turn := r.turn + 1
  lists := Function.update r.lists r.turn (r.lists r.turn).tail

def Exhausted (r : Rotation n α) : Prop := ∀ i, r.lists i = []

variable {r : Rotation n α} {i : Fin n} {a : α}

@[simp]
theorem turn_next (r : Rotation n α) : r.next.turn = r.turn + 1 := rfl

@[simp]
theorem lists_next_self (r : Rotation n α) : r.next.lists r.turn = (r.lists r.turn).tail :=
  Function.update_self ..

@[simp]
theorem lists_next_of_ne (h : i ≠ r.turn) : r.next.lists i = r.lists i := Function.update_of_ne h ..

omit [NeZero n] in
theorem taken_eq_none : r.taken = none ↔ r.lists r.turn = [] := List.head?_eq_none_iff

omit [NeZero n] in
theorem mem_of_taken (h : r.taken = some a) : a ∈ r.lists r.turn := List.mem_of_head? h

theorem turn_iterate (r : Rotation n α) (m : Nat) : (next^[m] r).turn = r.turn + Fin.ofNat n m := by
  induction m with
  | zero => simp
  | succ m ih =>
    rw [Function.iterate_succ_apply', turn_next, ih, add_assoc]
    ext
    simp [Fin.val_add]

theorem lists_iterate {m : Nat} (h : ∀ k < m, (next^[k] r).turn ≠ i)
    : (next^[m] r).lists i = r.lists i := by
  induction m with
  | zero => rfl
  | succ m ih =>
    have hne := h m (Nat.lt_succ_self m)
    rw [Function.iterate_succ_apply', lists_next_of_ne (Ne.symm hne)]
    exact ih fun k hk => h k (Nat.lt_succ_of_lt hk)

theorem lists_iterate_subset (r : Rotation n α) (m : Nat) (i : Fin n)
    : (next^[m] r).lists i ⊆ r.lists i := by
  induction m with
  | zero => exact List.Subset.refl _
  | succ m ih =>
    rw [Function.iterate_succ_apply']
    by_cases hi : i = (next^[m] r).turn
    . subst hi
      rw [lists_next_self]
      exact List.Subset.trans (List.tail_subset _) ih
    . rw [lists_next_of_ne hi]
      exact ih

theorem mem_of_taken_iterate {m : Nat} (h : (next^[m] r).taken = some a)
    : a ∈ r.lists (next^[m] r).turn :=
  r.lists_iterate_subset m _ (mem_of_taken h)

theorem exists_turn (r : Rotation n α) (i : Fin n)
    : ∃ m < n, (next^[m] r).turn = i ∧ (next^[m] r).lists i = r.lists i := by
  have hturn : ∃ m, (next^[m] r).turn = i := by
    refine ⟨(i - r.turn).val, ?_⟩
    rw [turn_iterate, Fin.ofNat_eq_cast, Fin.cast_val_eq_self, add_sub_cancel]
  classical
  refine ⟨Nat.find hturn, ?_, Nat.find_spec hturn, ?_⟩
  . apply Nat.lt_of_le_of_lt (Nat.find_min' hturn (m := (i - r.turn).val) _) (i - r.turn).isLt
    rw [turn_iterate, Fin.ofNat_eq_cast, Fin.cast_val_eq_self, add_sub_cancel]
  . apply lists_iterate
    intro k hk
    exact Nat.find_min hturn hk

theorem exists_taken (h : r.lists i ≠ []) : ∃ m < n, (next^[m] r).taken ≠ none := by
  rcases r.exists_turn i with ⟨m, hm, hturn, hlists⟩
  refine ⟨m, hm, ?_⟩
  rw [ne_eq, taken_eq_none, hturn, hlists]
  exact h

theorem exists_taken_eq (h : a ∈ r.lists i) : ∃ m, (next^[m] r).taken = some a := by
  generalize hxs : r.lists i = xs at h
  induction xs generalizing r with
  | nil => contradiction
  | cons b xs ih =>
    rcases r.exists_turn i with ⟨m, -, hturn, hlists⟩
    rw [hxs] at hlists
    rcases List.mem_cons.mp h with rfl | h
    . refine ⟨m, ?_⟩
      rw [taken, hturn, hlists, List.head?_cons]
    . have hnext : (next (next^[m] r)).lists i = xs := by
        have hself := lists_next_self (next^[m] r)
        rw [hturn, hlists] at hself
        exact hself
      rcases ih hnext h with ⟨m', htaken⟩
      refine ⟨m' + (m + 1), ?_⟩
      rw [Function.iterate_add_apply, Function.iterate_succ_apply']
      exact htaken

def left (r : Rotation n α) : Nat := ∑ i, (r.lists i).length

theorem left_next (r : Rotation n α)
    : r.next.left + (r.lists r.turn).length = r.left + (r.lists r.turn).tail.length := by
  have hsplit (lists : Fin n → List α) : ∑ i, (lists i).length
      = (lists r.turn).length + ∑ i ∈ Finset.univ.erase r.turn, (lists i).length :=
    (Finset.add_sum_erase _ _ (Finset.mem_univ r.turn)).symm
  have hrest : ∑ i ∈ Finset.univ.erase r.turn, (r.next.lists i).length
      = ∑ i ∈ Finset.univ.erase r.turn, (r.lists i).length := by
    apply Finset.sum_congr rfl
    intro j hj
    rw [lists_next_of_ne (Finset.ne_of_mem_erase hj)]
  rw [left, left, hsplit, hsplit r.lists, hrest, lists_next_self]
  omega

theorem left_iterate_le (r : Rotation n α) (m : Nat) : (next^[m] r).left ≤ r.left := by
  induction m with
  | zero => exact Nat.le_refl _
  | succ m ih =>
    have hnext := (next^[m] r).left_next
    rw [List.length_tail] at hnext
    rw [Function.iterate_succ_apply']
    omega

theorem exists_exhausted (r : Rotation n α) : ∃ m, (next^[m] r).Exhausted := by
  generalize hleft : r.left = k
  induction k using Nat.strong_induction_on generalizing r with
  | _ k ih =>
    by_cases h : r.Exhausted
    . exact ⟨0, h⟩
    . rw [Exhausted, not_forall] at h
      rcases h with ⟨i, hi⟩
      rcases exists_taken hi with ⟨m, -, htaken⟩
      rw [ne_eq, taken_eq_none, ← List.length_eq_zero_iff] at htaken
      have hless : (next^[m + 1] r).left < k := by
        have hle := r.left_iterate_le m
        have hnext := (next^[m] r).left_next
        rw [List.length_tail] at hnext
        rw [Function.iterate_succ_apply']
        omega
      rcases ih _ hless _ rfl with ⟨m', hexhausted⟩
      refine ⟨m' + (m + 1), ?_⟩
      rw [Function.iterate_add_apply]
      exact hexhausted

end Rotation
