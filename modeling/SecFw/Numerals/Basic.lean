import Mathlib.Data.Nat.ModEq

/-!
This module contains numbers that are read digit by digit into a word, where each step checks that it
can be taken back.
-/

namespace Numerals

variable {α : Type}

def value (base : Nat) (digit : α → Option Nat) (old : Nat) (w : List α) : Nat :=
  w.foldl (fun n a => base * n + (digit a).getD 0) old

def checked (base m : Nat) (digit : α → Option Nat) (old : Nat) : List α → Option (Option Nat)
  | [] => some (some old)
  | a :: w =>
    match digit a with
    | none => none
    | some d =>
      let new := (old * base + d) % m
      if (new + m - d) % m / base ≠ old then some none else checked base m digit new w

section Checked

variable {base m old n d : Nat} {digit : α → Option Nat} {a : α} {w u : List α}

@[simp]
theorem value_nil : value base digit old ([] : List α) = old := rfl

theorem value_cons : value base digit old (a :: w) = value base digit (base * old + (digit a).getD 0) w := rfl

theorem value_modEq (h : old ≡ n [MOD m]) : value base digit old w ≡ value base digit n w [MOD m] := by
  induction w generalizing old n with
  | nil => exact h
  | cons a w ih => exact ih ((h.mul_left base).add_right _)

theorem le_value (hbase : 0 < base) : old ≤ value base digit old w := by
  induction w generalizing old with
  | nil => exact Nat.le_refl old
  | cons a w ih =>
    rw [value_cons]
    refine Nat.le_trans ?_ ih
    exact Nat.le_trans (Nat.le_mul_of_pos_left old hbase) (Nat.le_add_right _ _)

theorem check_iff (hbase : 0 < base) (hd : d < m)
    : ((old * base + d) % m + m - d) % m / base = old ↔ base * old < m := by
  have hsub : ((old * base + d) % m + m - d) % m = (base * old) % m := by
    have hcong : ((old * base + d) % m + m - d) + d ≡ base * old + d [MOD m] := by
      rw [Nat.sub_add_cancel (by omega)]
      unfold Nat.ModEq
      rw [Nat.add_mod_right, Nat.mod_mod, Nat.mul_comm]
    exact Nat.ModEq.add_right_cancel' d hcong
  rw [hsub]
  constructor
  . intro h
    by_contra hge
    have hlt : (base * old) % m < base * old := Nat.lt_of_lt_of_le (Nat.mod_lt _ (by omega)) (Nat.le_of_not_lt hge)
    have hdiv : (base * old) % m / base < old := Nat.div_lt_of_lt_mul hlt
    omega
  . intro h
    rw [Nat.mod_eq_of_lt h, Nat.mul_div_cancel_left old hbase]

theorem checked_cons (hbase : 0 < base) (hd : d < m) (ha : digit a = some d)
    : checked base m digit old (a :: w)
        =
      if base * old < m then checked base m digit ((base * old + d) % m) w else some none := by
  rw [checked, ha]
  dsimp only
  by_cases h : base * old < m
  . rw [if_neg (not_not.mpr ((check_iff hbase hd).mpr h)), if_pos h, Nat.mul_comm]
  . rw [if_pos ((check_iff hbase hd).not.mpr h), if_neg h]

def Digits (m : Nat) (digit : α → Option Nat) (w : List α) : Prop := ∀ a ∈ w, ∃ d < m, digit a = some d

theorem Digits.tail (h : Digits m digit (a :: w)) : Digits m digit w :=
  fun b hb => h b (List.mem_cons_of_mem a hb)

theorem checked_ne_none (hbase : 0 < base) (hw : Digits m digit w) : checked base m digit old w ≠ none := by
  induction w generalizing old with
  | nil => exact nofun
  | cons a w ih =>
    rcases hw a List.mem_cons_self with ⟨d, hd, ha⟩
    rw [checked_cons hbase hd ha]
    split
    . exact ih hw.tail
    . nofun

theorem checked_eq_some_iff (hbase : 0 < base) (hw : Digits m digit w) (hold : old < m)
    : checked base m digit old w = some (some n)
        ↔
      value base digit old w % m = n
        ∧ ∀ u, u <+: w → u ≠ w → base * (value base digit old u % m) < m := by
  induction w generalizing old with
  | nil =>
    rw [checked, value_nil, Nat.mod_eq_of_lt hold, Option.some_inj, Option.some_inj]
    constructor
    . exact fun h => ⟨h, fun u hu hne => absurd (List.prefix_nil.mp hu) hne⟩
    . exact And.left
  | cons a w ih =>
    rcases hw a List.mem_cons_self with ⟨d, hd, ha⟩
    have hvalue (u : List α) : value base digit ((base * old + d) % m) u % m = value base digit old (a :: u) % m := by
      rw [value_cons, ha]
      exact value_modEq (Nat.mod_modEq _ m)
    have hnil : base * (value base digit old ([] : List α) % m) = base * old := by
      rw [value_nil, Nat.mod_eq_of_lt hold]
    rw [checked_cons hbase hd ha]
    by_cases h : base * old < m
    . rw [if_pos h, ih hw.tail (Nat.mod_lt _ (by omega)), hvalue]
      apply and_congr_right
      intro _
      constructor
      . intro hall u hu hne
        cases u with
        | nil => rwa [hnil]
        | cons b u =>
          rw [List.cons_prefix_cons] at hu
          rcases hu with ⟨rfl, hu⟩
          rw [← hvalue]
          exact hall u hu (fun heq => hne (by rw [heq]))
      . intro hall u hu hne
        rw [hvalue]
        exact hall (a :: u) (List.cons_prefix_cons.mpr ⟨rfl, hu⟩) (fun heq => hne (List.cons.inj heq).2)
    . rw [if_neg h]
      constructor
      . nofun
      . rintro ⟨-, hall⟩
        have hlt := hall [] List.nil_prefix (List.cons_ne_nil a w).symm
        rw [hnil] at hlt
        exact absurd hlt h

theorem checked_of_lt (hbase : 0 < base) (hw : Digits m digit w) (h : value base digit old w < m)
    : checked base m digit old w = some (some (value base digit old w)) := by
  induction w generalizing old with
  | nil => rfl
  | cons a w ih =>
    rcases hw a List.mem_cons_self with ⟨d, hd, ha⟩
    rw [value_cons, ha, Option.getD_some] at h ⊢
    have hle : base * old + d ≤ value base digit (base * old + d) w := le_value hbase
    rw [checked_cons hbase hd ha, if_pos (by omega), Nat.mod_eq_of_lt (by omega)]
    exact ih hw.tail h

theorem checked_of_dvd (hbase : 0 < base) (hdvd : base ∣ m) (hw : Digits base digit w) (hold : old < m)
    : checked base m digit old w
        =
      some (if value base digit old w < m then some (value base digit old w) else none) := by
  induction w generalizing old with
  | nil =>
    rw [value_nil, if_pos hold]
    rfl
  | cons a w ih =>
    rcases hw a List.mem_cons_self with ⟨d, hd, ha⟩
    have hle : base ≤ m := Nat.le_of_dvd (by omega) hdvd
    rw [checked_cons hbase (by omega) ha, value_cons, ha, Option.getD_some]
    by_cases h : base * old < m
    . have hnew : base * old + d < m := by
        rcases hdvd with ⟨k, rfl⟩
        have hlt : old + 1 ≤ k := Nat.lt_of_mul_lt_mul_left h
        have hmul := Nat.mul_le_mul_left base hlt
        rw [Nat.mul_add, Nat.mul_one] at hmul
        omega
      rw [if_pos h, Nat.mod_eq_of_lt hnew]
      exact ih hw.tail hnew
    . have hge : base * old + d ≤ value base digit (base * old + d) w := le_value hbase
      rw [if_neg h, if_neg (by omega)]

end Checked

end Numerals
