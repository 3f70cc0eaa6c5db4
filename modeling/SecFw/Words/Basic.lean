import Mathlib

/-!
This module contains fixed length big-endian arrays of 32 bit words, the numbers they denote and
the order these numbers induce on the arrays.
-/

/--
An array of exactly `n` 32 bit words, most significant word first.
-/
structure Words (n : Nat) where
  toList : List UInt32
  length_eq : toList.length = n
  deriving DecidableEq, Repr

namespace Words

def radix : Nat := 2 ^ 32

theorem one_lt_radix : 1 < radix := by decide

theorem toNat_lt_radix (w : UInt32) : w.toNat < radix := UInt32.toNat_lt w

def value (ws : List UInt32) : Nat :=
  Nat.ofDigits radix (ws.reverse.map UInt32.toNat)

@[simp]
theorem value_nil : value [] = 0 := by
  simp [value]

@[simp]
theorem value_cons (w : UInt32) (ws : List UInt32)
    : value (w :: ws) = value ws + radix ^ ws.length * w.toNat := by
  simp [value, Nat.ofDigits_append]

theorem value_append (xs ys : List UInt32)
    : value (xs ++ ys) = value ys + radix ^ ys.length * value xs := by
  simp [value, Nat.ofDigits_append]

@[simp]
theorem value_replicate_zero (k : Nat) : value (List.replicate k 0) = 0 := by
  induction k with
  | zero => simp
  | succ k ih => simp [List.replicate_succ, ih]

theorem value_lt (ws : List UInt32) : value ws < radix ^ ws.length := by
  have := Nat.ofDigits_lt_base_pow_length (l := ws.reverse.map UInt32.toNat) one_lt_radix
    (by simp [toNat_lt_radix])
  rw [List.length_map, List.length_reverse] at this
  exact this

theorem value_inj {xs ys : List UInt32} (hlen : xs.length = ys.length)
    (h : value xs = value ys) : xs = ys := by
  have hdigits := Nat.ofDigits_inj_of_len_eq one_lt_radix (by simpa using hlen)
    (by simp [toNat_lt_radix]) (by simp [toNat_lt_radix]) h
  have := List.map_injective_iff.mpr (fun _ _ => UInt32.toNat_inj.mp) hdigits
  simpa using this

def val (a : Words n) : Nat := value a.toList

theorem val_lt (a : Words n) : a.val < radix ^ n := by
  have := value_lt a.toList
  rw [a.length_eq] at this
  exact this

theorem val_injective : Function.Injective (val : Words n → Nat) := by
  intro a b h
  cases a with
  | mk as has =>
    cases b with
    | mk bs hbs =>
      simp only [mk.injEq]
      apply value_inj
      . omega
      . exact h

instance : LinearOrder (Words n) := LinearOrder.lift' val val_injective

theorem le_iff_val {a b : Words n} : a ≤ b ↔ a.val ≤ b.val := Iff.rfl

theorem lt_iff_val {a b : Words n} : a < b ↔ a.val < b.val := Iff.rfl

theorem eq_iff_val {a b : Words n} : a = b ↔ a.val = b.val := val_injective.eq_iff.symm

theorem covBy_of_val {a b : Words n} (h : a.val + 1 = b.val) : a ⋖ b := by
  constructor
  . rw [lt_iff_val]
    omega
  . intro c hac hcb
    rw [lt_iff_val] at hac hcb
    omega

def ofNat.go : Nat → Nat → List UInt32 → List UInt32
  | 0, _, acc => acc
  | n + 1, v, acc => go n (v / radix) (UInt32.ofNat v :: acc)

theorem ofNat.length_go (n v : Nat) (acc : List UInt32)
    : (go n v acc).length = n + acc.length := by
  induction n generalizing v acc with
  | zero => simp [go]
  | succ n ih =>
    simp only [go, ih, List.length_cons]
    omega

theorem ofNat.value_go (n v : Nat) (acc : List UInt32)
    : value (go n v acc) = value acc + radix ^ acc.length * (v % radix ^ n) := by
  induction n generalizing v acc with
  | zero => simp [go, Nat.mod_one]
  | succ n ih =>
    have hmod : v % radix ^ (n + 1) = v % radix + radix * (v / radix % radix ^ n) := by
      rw [pow_succ', Nat.mod_mul]
    have hword : (UInt32.ofNat v).toNat = v % radix := UInt32.toNat_ofNat'
    rw [go, ih, value_cons, List.length_cons, hmod, hword]
    ring

def ofNat (n : Nat) (v : Nat) : Words n :=
  ⟨ofNat.go n v [], by simp [ofNat.length_go]⟩

@[simp]
theorem val_ofNat (n v : Nat) : (ofNat n v).val = v % radix ^ n := by
  have := ofNat.value_go n v []
  simpa [val, ofNat] using this

def widen (a : Words n) (h : n ≤ m) : Words m :=
  ⟨List.replicate (m - n) 0 ++ a.toList, by simp [a.length_eq]; omega⟩

@[simp]
theorem val_widen (a : Words n) (h : n ≤ m) : (a.widen h).val = a.val := by
  simp [val, widen, value_append]

def low (a : Words m) (h : n ≤ m) : Words n :=
  ⟨a.toList.drop (m - n), by simp [a.length_eq]; omega⟩

@[simp]
theorem val_low (a : Words m) (h : n ≤ m) : (a.low h).val = a.val % radix ^ n := by
  have hsplit := value_append (a.toList.take (m - n)) (a.toList.drop (m - n))
  have hlen : (a.toList.drop (m - n)).length = n := by
    simp [a.length_eq]
    omega
  have hlt := value_lt (a.toList.drop (m - n))
  rw [List.take_append_drop] at hsplit
  rw [hlen] at hsplit hlt
  simp only [val, low]
  rw [hsplit, Nat.add_mul_mod_self_left, Nat.mod_eq_of_lt hlt]

theorem val_low_of_lt (a : Words m) (h : n ≤ m) (hlt : a.val < radix ^ n)
    : (a.low h).val = a.val := by
  rw [val_low, Nat.mod_eq_of_lt hlt]

end Words
