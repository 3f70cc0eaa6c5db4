import Mathlib

/-!
This module contains prefixes of numbers: the numbers that agree with a given one from some bit on
form a block, and the ends of the block of a number are computed digit by digit.
-/

namespace Prefixes

variable {a b k w hi lo : Nat}

def Same (k a b : Nat) : Prop := ∀ i, k ≤ i → a.testBit i = b.testBit i

def first (k b : Nat) : Nat := b / 2 ^ k * 2 ^ k

def last (k b : Nat) : Nat := b / 2 ^ k * 2 ^ k + (2 ^ k - 1)

theorem same_iff_div : Same k a b ↔ a / 2 ^ k = b / 2 ^ k := by
  constructor
  . intro h
    apply Nat.eq_of_testBit_eq
    intro i
    rw [Nat.testBit_div_two_pow, Nat.testBit_div_two_pow]
    apply h
    omega
  . intro h i hi
    have hbit : (a / 2 ^ k).testBit (i - k) = (b / 2 ^ k).testBit (i - k) := by rw [h]
    rw [Nat.testBit_div_two_pow, Nat.testBit_div_two_pow, Nat.sub_add_cancel hi] at hbit
    exact hbit

theorem mem_block_iff : first k b ≤ a ∧ a ≤ last k b ↔ Same k a b := by
  have hpos : 0 < 2 ^ k := Nat.two_pow_pos k
  rw [same_iff_div, Nat.div_eq_iff hpos]
  unfold first last
  omega

theorem last_eq (k b : Nat) : last k b = first k b + (2 ^ k - 1) := rfl

theorem last_lt (hk : k ≤ w) (hb : b < 2 ^ w) : last k b < 2 ^ w := by
  have hpow : 2 ^ w = 2 ^ (w - k) * 2 ^ k := by rw [← Nat.pow_add, Nat.sub_add_cancel hk]
  have hdiv : b / 2 ^ k < 2 ^ (w - k) := by
    rw [Nat.div_lt_iff_lt_mul (Nat.two_pow_pos k), ← hpow]
    exact hb
  calc last k b
    _ < (b / 2 ^ k + 1) * 2 ^ k := by
      have := Nat.two_pow_pos k
      rw [last, Nat.add_mul, Nat.one_mul]
      omega
    _ ≤ 2 ^ w := by
      rw [hpow]
      exact Nat.mul_le_mul_right _ hdiv

theorem first_digit (h : k ≤ w) : first k (hi * 2 ^ w + lo) = hi * 2 ^ w + first k lo := by
  have hpow : 2 ^ w = 2 ^ (w - k) * 2 ^ k := by rw [← Nat.pow_add, Nat.sub_add_cancel h]
  have hpos : 0 < 2 ^ k := Nat.two_pow_pos k
  rw [first, first, hpow, ← Nat.mul_assoc, Nat.add_comm, Nat.add_mul_div_right _ _ hpos, Nat.add_mul,
    Nat.add_comm]

theorem last_digit (h : k ≤ w) : last k (hi * 2 ^ w + lo) = hi * 2 ^ w + last k lo := by
  rw [last_eq, last_eq, first_digit h, Nat.add_assoc]

theorem first_digits (hlo : lo < 2 ^ w) : first (w + k) (hi * 2 ^ w + lo) = first k hi * 2 ^ w := by
  have hpos : 0 < 2 ^ w := Nat.two_pow_pos w
  rw [first, first, Nat.pow_add, ← Nat.div_div_eq_div_mul, Nat.add_comm,
    Nat.add_mul_div_right _ _ hpos, Nat.div_eq_of_lt hlo, Nat.zero_add, Nat.mul_assoc,
    Nat.mul_comm (2 ^ w)]

theorem last_digits (hlo : lo < 2 ^ w)
    : last (w + k) (hi * 2 ^ w + lo) = last k hi * 2 ^ w + (2 ^ w - 1) := by
  have hw : 0 < 2 ^ w := Nat.two_pow_pos w
  have hk : 0 < 2 ^ k := Nat.two_pow_pos k
  have hsplit : 2 ^ (w + k) - 1 = (2 ^ k - 1) * 2 ^ w + (2 ^ w - 1) := by
    rw [Nat.pow_add, Nat.sub_mul, Nat.one_mul, Nat.mul_comm]
    have : 2 ^ w ≤ 2 ^ k * 2 ^ w := Nat.le_mul_of_pos_left _ hk
    omega
  rw [last_eq, first_digits hlo, hsplit, last_eq, Nat.add_mul, Nat.add_assoc]

theorem and_not_mask {n x : Nat} (hk : k ≤ n) (hx : x < 2 ^ n)
    : x &&& (2 ^ n - 1 - (2 ^ k - 1)) = first k x := by
  have hmask : 2 ^ k - 1 < 2 ^ n := by
    have := Nat.pow_le_pow_right (show 0 < 2 by decide) hk
    have := Nat.two_pow_pos k
    omega
  apply Nat.eq_of_testBit_eq
  intro i
  have hsub : 2 ^ n - 1 - (2 ^ k - 1) = 2 ^ n - (2 ^ k - 1 + 1) := by omega
  rw [Nat.testBit_and, hsub, Nat.testBit_two_pow_sub_succ hmask, Nat.testBit_two_pow_sub_one, first,
    Nat.testBit_mul_two_pow, Nat.testBit_div_two_pow]
  by_cases hin : i < n
  . by_cases hki : k ≤ i
    . simp [hin, hki, Nat.not_lt.mpr hki]
    . simp [hki, Nat.lt_of_not_le hki]
  . have hbit : x.testBit i = false :=
      Nat.testBit_lt_two_pow (Nat.lt_of_lt_of_le hx
        (Nat.pow_le_pow_right (by decide) (Nat.le_of_not_lt hin)))
    by_cases hki : k ≤ i
    . simp [hbit, hki]
    . simp [hbit, hki]

theorem first_or_mask (k b : Nat) : first k b ||| (2 ^ k - 1) = last k b := by
  have hlt : 2 ^ k - 1 < 2 ^ k := Nat.sub_lt (Nat.two_pow_pos k) (by decide)
  rw [last, first, Nat.mul_comm, Nat.two_pow_add_eq_or_of_lt hlt]

section Digits

variable {xs ys : List Nat} {o d : Nat}

def ofDigits (w : Nat) (ds : List Nat) : Nat := ds.foldl (fun acc d => acc * 2 ^ w + d) 0

theorem ofDigits_concat (ds : List Nat) (d : Nat)
    : ofDigits w (ds ++ [d]) = ofDigits w ds * 2 ^ w + d := by
  rw [ofDigits, ofDigits, List.foldl_concat]

theorem ofDigits_lt {ds : List Nat} (h : ∀ d ∈ ds, d < 2 ^ w)
    : ofDigits w ds < 2 ^ (ds.length * w) := by
  induction ds using List.reverseRecOn with
  | nil => simp [ofDigits]
  | append_singleton ds d ih =>
    have hd := h d (by simp)
    have hds := ih fun d hd => h d (List.mem_append_left _ hd)
    rw [ofDigits_concat, List.length_append, List.length_singleton, Nat.add_mul, Nat.one_mul,
      Nat.pow_add]
    calc ofDigits w ds * 2 ^ w + d
      _ < (ofDigits w ds + 1) * 2 ^ w := by rw [Nat.add_mul]; omega
      _ ≤ 2 ^ (ds.length * w) * 2 ^ w := Nat.mul_le_mul_right _ hds

theorem first_ofDigits (xs : List Nat) (o : Nat) (hk : k ≤ w) (hys : ∀ d ∈ ys, d < 2 ^ w)
    : first (ys.length * w + k) (ofDigits w (xs ++ o :: ys))
        =
      ofDigits w (xs ++ first k o :: List.replicate ys.length 0) := by
  induction ys using List.reverseRecOn with
  | nil =>
    rw [List.length_nil, Nat.zero_mul, Nat.zero_add, List.replicate_zero, ofDigits_concat,
      ofDigits_concat, first_digit hk]
  | append_singleton ys d ih =>
    have hd := hys d (by simp)
    have hrest := ih fun d hd => hys d (List.mem_append_left _ hd)
    have hlen : (ys.length + 1) * w + k = w + (ys.length * w + k) := by ring
    rw [List.length_append, List.length_singleton, hlen, List.replicate_succ', ← List.cons_append,
      ← List.append_assoc, ofDigits_concat, first_digits hd, hrest, ← List.cons_append,
      ← List.append_assoc, ofDigits_concat, Nat.add_zero]

theorem last_ofDigits (xs : List Nat) (o : Nat) (hk : k ≤ w) (hys : ∀ d ∈ ys, d < 2 ^ w)
    : last (ys.length * w + k) (ofDigits w (xs ++ o :: ys))
        =
      ofDigits w (xs ++ last k o :: List.replicate ys.length (2 ^ w - 1)) := by
  induction ys using List.reverseRecOn with
  | nil =>
    rw [List.length_nil, Nat.zero_mul, Nat.zero_add, List.replicate_zero, ofDigits_concat,
      ofDigits_concat, last_digit hk]
  | append_singleton ys d ih =>
    have hd := hys d (by simp)
    have hrest := ih fun d hd => hys d (List.mem_append_left _ hd)
    have hlen : (ys.length + 1) * w + k = w + (ys.length * w + k) := by ring
    rw [List.length_append, List.length_singleton, hlen, List.replicate_succ', ← List.cons_append,
      ← List.append_assoc, ofDigits_concat, last_digits hd, hrest, ← List.cons_append,
      ← List.append_assoc, ofDigits_concat]

end Digits

end Prefixes
