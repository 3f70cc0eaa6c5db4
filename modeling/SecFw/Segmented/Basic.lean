import Mathlib

/-!
This module contains streams that arrive in segments. A read returns what is there of the first
segment, so that a reader who wants units of given lengths gets all of them in one read each exactly
when no unit is cut by the end of a segment.
-/

abbrev Segmented (α : Type) : Type := List (List α)

namespace Segmented

variable {α : Type}

def read (want : Nat) : Segmented α → List α × Segmented α
  | [] => ([], [])
  | seg :: s => if seg.length ≤ want then (seg, s) else (seg.take want, seg.drop want :: s)

def cuts (pos : Nat) : Segmented α → List Nat
  | [] => []
  | seg :: s => (pos + seg.length) :: cuts (pos + seg.length) s

/-- No unit of the stream that starts at `pos` has a cut in its inside. -/
def Uncut (s : Segmented α) (pos start : Nat) : List (List α) → Prop
  | [] => True
  | u :: us => (∀ p ∈ cuts pos s, ¬ (start < p ∧ p < start + u.length))
      ∧ Uncut s pos (start + u.length) us

variable {s : Segmented α} {pos start want : Nat}

theorem read_append (want : Nat) (s : Segmented α)
    : (read want s).1 ++ (read want s).2.flatten = s.flatten := by
  cases s with
  | nil => simp [read]
  | cons seg s =>
    rw [read]
    split
    . simp
    . simp [← List.append_assoc]

theorem length_read_le (want : Nat) (s : Segmented α) : (read want s).1.length ≤ want := by
  cases s with
  | nil => simp [read]
  | cons seg s =>
    rw [read]
    split
    . assumption
    . simp

theorem length_read (want : Nat) (s : Segmented α)
    : (read want s).1.length + (read want s).2.flatten.length = s.flatten.length := by
  rw [← List.length_append, read_append]

theorem ne_nil_of_read (hs : ∀ seg ∈ s, seg ≠ []) : ∀ seg ∈ (read want s).2, seg ≠ [] := by
  cases s with
  | nil => simp [read]
  | cons seg s =>
    rw [read]
    split
    . exact fun seg' h => hs seg' (List.mem_cons_of_mem seg h)
    . next hlen =>
      intro seg' h
      rcases List.mem_cons.mp h with rfl | h
      . intro hnil
        rw [List.drop_eq_nil_iff] at hnil
        omega
      . exact hs seg' (List.mem_cons_of_mem seg h)

theorem read_zero (hs : ∀ seg ∈ s, seg ≠ []) : read 0 s = ([], s) := by
  cases s with
  | nil => rfl
  | cons seg s =>
    have hseg := List.length_pos_iff.mpr (hs seg (List.mem_cons_self ..))
    rw [read, if_neg (by omega), List.take_zero, List.drop_zero]

theorem read_ne_nil (hs : ∀ seg ∈ s, seg ≠ []) (hne : s ≠ []) (hwant : 0 < want)
    : (read want s).1 ≠ [] := by
  cases s with
  | nil => contradiction
  | cons seg s =>
    have hseg := List.length_pos_iff.mpr (hs seg (List.mem_cons_self ..))
    rw [read]
    split
    . exact List.length_pos_iff.mp hseg
    . apply List.length_pos_iff.mp
      rw [List.length_take]
      omega

theorem pos_lt_of_mem_cuts (hs : ∀ seg ∈ s, seg ≠ []) {p : Nat} (hp : p ∈ cuts pos s) : pos < p := by
  induction s generalizing pos with
  | nil => simp [cuts] at hp
  | cons seg s ih =>
    have hseg := List.length_pos_iff.mpr (hs seg (List.mem_cons_self ..))
    rcases List.mem_cons.mp hp with rfl | hp
    . omega
    . have := ih (fun seg' h => hs seg' (List.mem_cons_of_mem seg h)) hp
      omega

theorem mem_cuts_read (hfull : (read want s).1.length = want) {p : Nat} (hp : pos + want < p)
    : p ∈ cuts (pos + want) (read want s).2 ↔ p ∈ cuts pos s := by
  cases s with
  | nil => simp [read, cuts]
  | cons seg s =>
    rw [read] at hfull ⊢
    by_cases hlen : seg.length ≤ want
    . rw [if_pos hlen] at hfull ⊢
      simp only [cuts, hfull, List.mem_cons]
      constructor
      . exact Or.inr
      . exact fun h => h.resolve_left (by omega)
    . have hpos : pos + want + (seg.length - want) = pos + seg.length := by omega
      simp only [if_neg hlen, cuts, List.length_drop, hpos]

theorem length_read_eq_iff (hs : ∀ seg ∈ s, seg ≠ []) (hwant : want ≤ s.flatten.length)
    : (read want s).1.length = want ↔ ∀ p ∈ cuts pos s, ¬ (pos < p ∧ p < pos + want) := by
  cases s with
  | nil =>
    simp only [List.flatten_nil, List.length_nil] at hwant
    simp [read, cuts]
    omega
  | cons seg s =>
    have hseg := List.length_pos_iff.mpr (hs seg (List.mem_cons_self ..))
    have hs' : ∀ seg' ∈ s, seg' ≠ [] := fun seg' h => hs seg' (List.mem_cons_of_mem seg h)
    constructor
    . intro hfull p hp hin
      have hle : want ≤ seg.length := by
        rw [← hfull]
        rw [read]
        split
        . exact Nat.le_refl _
        . rw [List.length_take]
          omega
      rcases List.mem_cons.mp hp with rfl | hp
      . omega
      . have := pos_lt_of_mem_cuts hs' hp
        omega
    . intro h
      have hfst := h (pos + seg.length) (List.mem_cons_self ..)
      rw [read]
      split
      . next hlen =>
        simp only
        omega
      . next hlen =>
        simp only [List.length_take]
        omega

theorem uncut_read_iff (hfull : (read want s).1.length = want) (hstart : pos + want ≤ start)
    (us : List (List α)) : Uncut (read want s).2 (pos + want) start us ↔ Uncut s pos start us := by
  induction us generalizing start with
  | nil => exact Iff.rfl
  | cons u us ih =>
    unfold Uncut
    rw [ih (by omega)]
    apply and_congr_left'
    constructor
    . intro h p hp hin
      exact h p ((mem_cuts_read hfull (by omega)).mpr hp) hin
    . intro h p hp hin
      exact h p ((mem_cuts_read hfull (by omega)).mp hp) hin

theorem uncut_cons_iff (hs : ∀ seg ∈ s, seg ≠ []) {u : List α} {us : List (List α)}
    (hflatten : s.flatten = u ++ us.flatten)
    : Uncut s pos pos (u :: us)
        ↔ (read u.length s).1 = u
          ∧ Uncut (read u.length s).2 (pos + u.length) (pos + u.length) us := by
  have happend := read_append u.length s
  have hlen : u.length ≤ s.flatten.length := by
    rw [hflatten, List.length_append]
    omega
  have heq : (read u.length s).1.length = u.length ↔ (read u.length s).1 = u := by
    constructor
    . intro h
      rw [hflatten] at happend
      exact (List.append_inj happend h).1
    . exact congrArg List.length
  rw [Uncut, ← length_read_eq_iff hs hlen]
  constructor
  . rintro ⟨hfull, h⟩
    exact ⟨heq.mp hfull, (uncut_read_iff hfull (Nat.le_refl _) us).mpr h⟩
  . rintro ⟨hread, h⟩
    have hfull := heq.mpr hread
    exact ⟨hfull, (uncut_read_iff hfull (Nat.le_refl _) us).mp h⟩

theorem flatten_read {u : List α} {us : List (List α)} (hflatten : s.flatten = u ++ us.flatten)
    (hread : (read u.length s).1 = u) : (read u.length s).2.flatten = us.flatten := by
  have happend := read_append u.length s
  rw [hread, hflatten] at happend
  exact List.append_cancel_left happend

end Segmented
