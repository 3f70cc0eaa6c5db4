import Mathlib

/-!
This module contains ones-complement sums: words of `w` bits are added with an end-around carry, so
that a sum is known up to multiples of `2 ^ w - 1`, and is zero for words that are all zero only.
-/

namespace OnesComplement

variable {w a b : Nat} {ws : List Nat}

def fold (w n : Nat) : Nat := n / 2 ^ w + n % 2 ^ w

def add (w a b : Nat) : Nat := fold w (a + b)

def sum (w : Nat) (ws : List Nat) : Nat := ws.foldl (add w) 0

theorem fold_modEq (w n : Nat) : fold w n ≡ n [MOD 2 ^ w - 1] := by
  have hpos : 0 < 2 ^ w := Nat.two_pow_pos w
  have hpow : 2 ^ w ≡ 1 [MOD 2 ^ w - 1] := ((Nat.modEq_iff_dvd' hpos).mpr (Nat.dvd_refl _)).symm
  have hmul := hpow.mul_right (n / 2 ^ w)
  rw [Nat.one_mul] at hmul
  calc fold w n
    _ ≡ 2 ^ w * (n / 2 ^ w) + n % 2 ^ w [MOD 2 ^ w - 1] := hmul.symm.add_right _
    _ = n := Nat.div_add_mod n (2 ^ w)

theorem fold_eq_zero {n : Nat} : fold w n = 0 ↔ n = 0 := by
  have hdiv := Nat.div_add_mod n (2 ^ w)
  unfold fold
  constructor
  . intro h
    rw [(Nat.add_eq_zero_iff.mp h).1, (Nat.add_eq_zero_iff.mp h).2] at hdiv
    rw [← hdiv, Nat.mul_zero]
  . intro h
    rw [h, Nat.zero_div, Nat.zero_mod]

theorem add_lt (ha : a < 2 ^ w) (hb : b < 2 ^ w) : add w a b < 2 ^ w := by
  unfold add fold
  by_cases hlt : a + b < 2 ^ w
  . rw [Nat.div_eq_of_lt hlt, Nat.mod_eq_of_lt hlt, Nat.zero_add]
    exact hlt
  . have hsub : a + b - 2 ^ w < 2 ^ w := by omega
    rw [Nat.div_eq_sub_div (Nat.two_pow_pos w) (Nat.le_of_not_lt hlt), Nat.div_eq_of_lt hsub,
      Nat.mod_eq_sub_mod (Nat.le_of_not_lt hlt), Nat.mod_eq_of_lt hsub]
    omega

theorem sum_concat (ws : List Nat) (a : Nat) : sum w (ws ++ [a]) = add w (sum w ws) a := by
  rw [sum, sum, List.foldl_concat]

theorem sum_lt (h : ∀ a ∈ ws, a < 2 ^ w) : sum w ws < 2 ^ w := by
  induction ws using List.reverseRecOn with
  | nil => exact Nat.two_pow_pos w
  | append_singleton ws a ih =>
    rw [sum_concat]
    apply add_lt
    . exact ih fun b hb => h b (List.mem_append_left _ hb)
    . exact h a (by simp)

theorem sum_modEq (w : Nat) (ws : List Nat) : sum w ws ≡ ws.sum [MOD 2 ^ w - 1] := by
  induction ws using List.reverseRecOn with
  | nil => rfl
  | append_singleton ws a ih =>
    rw [sum_concat, List.sum_append, List.sum_singleton]
    exact (fold_modEq w _).trans (ih.add_right a)

theorem sum_eq_zero : sum w ws = 0 ↔ ws.sum = 0 := by
  induction ws using List.reverseRecOn with
  | nil => exact Iff.rfl
  | append_singleton ws a ih =>
    rw [sum_concat, List.sum_append, List.sum_singleton, add, fold_eq_zero, Nat.add_eq_zero_iff,
      Nat.add_eq_zero_iff, ih]

theorem sum_eq_max_iff (hw : 0 < w) (h : ∀ a ∈ ws, a < 2 ^ w)
    : sum w ws = 2 ^ w - 1 ↔ 2 ^ w - 1 ∣ ws.sum ∧ ws.sum ≠ 0 := by
  have hlt := sum_lt h
  have hpow : 2 ^ 1 ≤ 2 ^ w := Nat.pow_le_pow_right (by decide) hw
  constructor
  . intro hmax
    have hmod := (sum_modEq w ws).symm
    rw [hmax] at hmod
    refine ⟨(Nat.modEq_zero_iff_dvd.mp (hmod.trans ?_)), ?_⟩
    . exact Nat.modEq_zero_iff_dvd.mpr (Nat.dvd_refl _)
    . rw [ne_eq, ← sum_eq_zero (w := w), hmax]
      omega
  . intro hsum
    have hdvd := Nat.modEq_zero_iff_dvd.mp
      ((sum_modEq w ws).trans (Nat.modEq_zero_iff_dvd.mpr hsum.1))
    have hne := mt (sum_eq_zero (w := w)).mp hsum.2
    have hle := Nat.le_of_dvd (Nat.pos_of_ne_zero hne) hdvd
    omega

end OnesComplement
