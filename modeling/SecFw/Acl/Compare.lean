import SecFw.Acl.Basic

/-!
This module contains the arithmetic of the classifier on end points: the comparison functions, the
copies between arrays of different width and the increment and decrement of a 128 bit array.
-/

namespace SecFw.Acl

def compareWords : List UInt32 → List UInt32 → Int
  | a :: as, b :: bs => if a < b then -1 else if a = b then compareWords as bs else 1
  | _, _ => 0

def segPointCompare32 (a b : Words n) : Int := compareWords (a.toList.take 1) (b.toList.take 1)

def segPointCompare64128 (a b : Words n) : Int := compareWords a.toList b.toList

def segPointCompare64128Nsf (a b : Words n) : Int := compareWords a.toList b.toList

def segPointCompare128 (a b : Words n) : Int := compareWords a.toList b.toList

def assignDiffBits (source : Words n) (h : n ≤ 4) : Words 4 := source.widen h

def subtract.go : List UInt32 → List UInt32
  | [] => []
  | w :: ws => if w = 0 then (w - 1) :: go ws else (w - 1) :: ws

@[simp]
theorem subtract.length_go (ws : List UInt32) : (go ws).length = ws.length := by
  induction ws with
  | nil => rfl
  | cons w ws ih =>
    simp only [go]
    split <;> simp [ih]

def subtract (array : Words n) : Words n :=
  ⟨(subtract.go array.toList.reverse).reverse, by simp [array.length_eq]⟩

def add.go : List UInt32 → List UInt32
  | [] => []
  | w :: ws => if w + 1 > 0 then (w + 1) :: ws else (w + 1) :: go ws

@[simp]
theorem add.length_go (ws : List UInt32) : (go ws).length = ws.length := by
  induction ws with
  | nil => rfl
  | cons w ws ih =>
    simp only [go]
    split <;> simp [ih]

def add (array : Words n) : Words n :=
  ⟨(add.go array.toList.reverse).reverse, by simp [array.length_eq]⟩

section Compare

theorem compareWords_spec {as bs : List UInt32} (hlen : as.length = bs.length)
    : compareWords as bs = if Words.value as < Words.value bs then -1
        else if Words.value as = Words.value bs then 0 else 1 := by
  induction as generalizing bs with
  | nil =>
    cases bs with
    | nil => simp [compareWords]
    | cons b bs => simp at hlen
  | cons a as ih =>
    cases bs with
    | nil => simp at hlen
    | cons b bs =>
      have htail : as.length = bs.length := by simpa using hlen
      have ha := Words.value_lt as
      have hb := Words.value_lt bs
      rw [htail] at ha
      simp only [compareWords, Words.value_cons, htail]
      split
      . next hlt =>
        have hmul : Words.radix ^ bs.length * (a.toNat + 1) ≤ Words.radix ^ bs.length * b.toNat :=
          Nat.mul_le_mul_left _ (UInt32.lt_iff_toNat_lt.mp hlt)
        rw [Nat.mul_add] at hmul
        rw [if_pos (by omega)]
      . next hnlt =>
        split
        . next heq =>
          rw [ih htail, heq]
          simp only [Nat.add_lt_add_iff_right, Nat.add_right_cancel_iff]
        . next hne =>
          have hne' : a.toNat ≠ b.toNat := fun h => hne (UInt32.toNat_inj.mp h)
          have hgt : b.toNat + 1 ≤ a.toNat := by
            rw [UInt32.lt_iff_toNat_lt] at hnlt
            omega
          have hmul : Words.radix ^ bs.length * (b.toNat + 1) ≤ Words.radix ^ bs.length * a.toNat :=
            Nat.mul_le_mul_left _ hgt
          rw [Nat.mul_add] at hmul
          rw [if_neg (by omega), if_neg (by omega)]

variable {a b : Words n}

theorem segPointCompare64128_eq (a b : Words n)
    : segPointCompare64128 a b = if a < b then -1 else if a = b then 0 else 1 := by
  simp only [segPointCompare64128, Words.lt_iff_val, Words.eq_iff_val]
  exact compareWords_spec (a.length_eq.trans b.length_eq.symm)

theorem segPointCompare64128Nsf_eq (a b : Words n)
    : segPointCompare64128Nsf a b = segPointCompare64128 a b := rfl

theorem segPointCompare32_eq (a b : Words 1)
    : segPointCompare32 a b = segPointCompare64128 a b := by
  have ha := List.take_of_length_le a.length_eq.le
  have hb := List.take_of_length_le b.length_eq.le
  simp only [segPointCompare32, segPointCompare64128, ha, hb]

@[simp]
theorem segPointCompare64128_lt_zero : segPointCompare64128 a b < 0 ↔ a < b := by
  rw [segPointCompare64128_eq]
  split <;> [skip; split] <;> simp_all

@[simp]
theorem segPointCompare64128_eq_zero : segPointCompare64128 a b = 0 ↔ a = b := by
  rw [segPointCompare64128_eq]
  split
  . next h => simp [h.ne]
  . split <;> simp_all

@[simp]
theorem segPointCompare64128_le_zero : segPointCompare64128 a b ≤ 0 ↔ a ≤ b := by
  rw [le_iff_lt_or_eq, le_iff_lt_or_eq]
  simp

@[simp]
theorem segPointCompare64128_gt_zero : 0 < segPointCompare64128 a b ↔ b < a := by
  rw [← not_le, segPointCompare64128_le_zero, not_le]

@[simp]
theorem segPointCompare64128_ge_zero : 0 ≤ segPointCompare64128 a b ↔ b ≤ a := by
  rw [← not_lt, segPointCompare64128_lt_zero, not_lt]

@[simp]
theorem segPointCompare64128_ne_neg_one : segPointCompare64128 a b ≠ -1 ↔ b ≤ a := by
  rw [segPointCompare64128_eq]
  split
  . next h => simpa using h
  . next h => split <;> simpa using h

end Compare

section Arith

theorem subtract.value_go (ws : List UInt32) (h : 0 < Nat.ofDigits Words.radix (ws.map UInt32.toNat))
    : Nat.ofDigits Words.radix ((go ws).map UInt32.toNat) + 1
        =
      Nat.ofDigits Words.radix (ws.map UInt32.toNat) := by
  induction ws with
  | nil => simp at h
  | cons w ws ih =>
    simp only [go]
    split
    . next hzero =>
      subst hzero
      have hpos : 0 < Nat.ofDigits Words.radix (ws.map UInt32.toNat) := by
        apply Nat.pos_of_ne_zero
        intro hzero
        simp [Nat.ofDigits_cons, hzero] at h
      have := ih hpos
      have hw : (0 - 1 : UInt32).toNat + 1 = Words.radix := by decide
      simp only [List.map_cons, Nat.ofDigits_cons, UInt32.toNat_zero]
      rw [← this, Nat.mul_add]
      omega
    . next hne =>
      have hpos : w.toNat ≠ 0 := fun h => hne (UInt32.toNat_inj.mp h)
      have hw : (w - 1).toNat = w.toNat - 1 := by
        rw [UInt32.toNat_sub_of_le]
        . rfl
        . rw [UInt32.le_iff_toNat_le]
          have hone : (1 : UInt32).toNat = 1 := rfl
          omega
      simp only [List.map_cons, Nat.ofDigits_cons, hw]
      omega

theorem val_subtract (array : Words n) (h : 0 < array.val)
    : (subtract array).val + 1 = array.val := by
  have := subtract.value_go array.toList.reverse (by simpa [Words.val, Words.value] using h)
  simpa [Words.val, Words.value, subtract] using this

theorem add.value_go (ws : List UInt32)
    (h : Nat.ofDigits Words.radix (ws.map UInt32.toNat) + 1 < Words.radix ^ ws.length)
    : Nat.ofDigits Words.radix ((go ws).map UInt32.toNat)
        =
      Nat.ofDigits Words.radix (ws.map UInt32.toNat) + 1 := by
  induction ws with
  | nil => simp at h
  | cons w ws ih =>
    have hone : (1 : UInt32).toNat = 1 := rfl
    simp only [go]
    split
    . next hpos =>
      have hw : (w + 1).toNat = w.toNat + 1 := by
        rw [gt_iff_lt, UInt32.lt_iff_toNat_lt, UInt32.toNat_zero, UInt32.toNat_add] at hpos
        have := UInt32.toNat_lt w
        rw [UInt32.toNat_add]
        omega
      simp only [List.map_cons, Nat.ofDigits_cons, hw]
      omega
    . next hzero =>
      have hlast : (w + 1).toNat = 0 := by
        rw [gt_iff_lt, UInt32.lt_iff_toNat_lt, UInt32.toNat_zero] at hzero
        omega
      have hw : w.toNat + 1 = Words.radix := by
        have := UInt32.toNat_lt w
        rw [UInt32.toNat_add] at hlast
        rw [Words.radix]
        omega
      simp only [List.map_cons, Nat.ofDigits_cons, List.length_cons, pow_succ'] at h ⊢
      have hrest : Nat.ofDigits Words.radix (ws.map UInt32.toNat) + 1 < Words.radix ^ ws.length := by
        apply Nat.lt_of_mul_lt_mul_left (a := Words.radix)
        rw [Nat.mul_add]
        omega
      rw [hlast, ih hrest, Nat.mul_add]
      omega

theorem val_add (array : Words n) (h : array.val + 1 < Words.radix ^ n)
    : (add array).val = array.val + 1 := by
  have := add.value_go array.toList.reverse
    (by simpa [Words.val, Words.value, array.length_eq] using h)
  simpa [Words.val, Words.value, add] using this

theorem add_subtract (array : Words n) (h : 0 < array.val) : add (subtract array) = array := by
  have hsub := val_subtract array h
  have hlt := array.val_lt
  rw [← hsub] at hlt
  rw [Words.eq_iff_val, val_add _ hlt, hsub]

@[simp]
theorem val_assignDiffBits (source : Words n) (h : n ≤ 4)
    : (assignDiffBits source h).val = source.val :=
  Words.val_widen source h

end Arith

end SecFw.Acl
