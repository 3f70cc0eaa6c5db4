import Mathlib

/-!
This module contains numbers as byte strings: big-endian encoding and decoding at a fixed width,
and the comparison of byte strings.
-/

namespace Bytes

def bigEndian : Nat → Nat → List UInt8
  | 0, _ => []
  | k + 1, n => bigEndian k (n / 256) ++ [UInt8.ofNat n]

def ofBigEndian (bs : List UInt8) : Nat := bs.foldl (fun acc b => acc * 256 + b.toNat) 0

@[simp]
theorem length_bigEndian (k n : Nat) : (bigEndian k n).length = k := by
  induction k generalizing n with
  | zero => rfl
  | succ k ih => simp [bigEndian, ih]

theorem ofBigEndian_concat (bs : List UInt8) (b : UInt8)
    : ofBigEndian (bs ++ [b]) = ofBigEndian bs * 256 + b.toNat := by
  simp [ofBigEndian]

theorem ofBigEndian_lt (bs : List UInt8) : ofBigEndian bs < 256 ^ bs.length := by
  induction bs using List.reverseRecOn with
  | nil => simp [ofBigEndian]
  | append_singleton bs b ih =>
    have := UInt8.toNat_lt b
    rw [ofBigEndian_concat, List.length_append, List.length_singleton, pow_succ]
    omega

theorem ofBigEndian_bigEndian {k n : Nat} (h : n < 256 ^ k) : ofBigEndian (bigEndian k n) = n := by
  induction k generalizing n with
  | zero =>
    rw [pow_zero, Nat.lt_one_iff] at h
    subst h
    rfl
  | succ k ih =>
    rw [pow_succ] at h
    rw [bigEndian, ofBigEndian_concat, ih (by omega), UInt8.toNat_ofNat']
    omega

theorem bigEndian_ofBigEndian {k : Nat} {bs : List UInt8} (h : bs.length = k)
    : bigEndian k (ofBigEndian bs) = bs := by
  induction bs using List.reverseRecOn generalizing k with
  | nil =>
    subst h
    rfl
  | append_singleton bs b ih =>
    rw [List.length_append, List.length_singleton] at h
    subst h
    have hb := UInt8.toNat_lt b
    have hdiv : (ofBigEndian bs * 256 + b.toNat) / 256 = ofBigEndian bs := by omega
    have hmod : UInt8.ofNat (ofBigEndian bs * 256 + b.toNat) = b := by
      apply UInt8.toNat_inj.mp
      rw [UInt8.toNat_ofNat']
      omega
    rw [ofBigEndian_concat, bigEndian, hdiv, hmod, ih rfl]

def field (bs : List UInt8) (pos k : Nat) : Nat := ofBigEndian ((bs.drop pos).take k)

theorem bigEndian_field {bs : List UInt8} {pos k : Nat} (h : pos + k ≤ bs.length)
    : bigEndian k (field bs pos k) = (bs.drop pos).take k := by
  apply bigEndian_ofBigEndian
  rw [List.length_take, List.length_drop]
  omega

theorem field_lt (bs : List UInt8) (pos k : Nat) : field bs pos k < 256 ^ k := by
  apply Nat.lt_of_lt_of_le (ofBigEndian_lt _)
  apply Nat.pow_le_pow_right (by decide)
  exact List.length_take_le _ _

theorem field_one (bs : List UInt8) (pos : Nat) : field bs pos 1 = (bs.getD pos 0).toNat := by
  cases h : bs.drop pos with
  | nil =>
    have hlen := List.drop_eq_nil_iff.mp h
    rw [List.getD_eq_default _ _ hlen, field, h]
    rfl
  | cons b rest =>
    have hget : bs[pos]? = some b := by rw [← List.head?_drop, h, List.head?_cons]
    rw [List.getD_eq_getElem?_getD, hget, field, h]
    simp [ofBigEndian]

theorem field_two {bs : List UInt8} {pos : Nat} (h : pos + 2 ≤ bs.length)
    : field bs pos 2 = ofBigEndian [bs.getD pos 0, bs.getD (pos + 1) 0] := by
  have htake : (bs.drop pos).take 2 = [bs.getD pos 0, bs.getD (pos + 1) 0] := by
    rw [List.drop_eq_getElem_cons (by omega), List.drop_eq_getElem_cons (by omega),
      List.getD_eq_getElem _ _ (by omega), List.getD_eq_getElem _ _ (by omega)]
    rfl
  rw [field, htake]

theorem bigEndian_uint16_field {bs : List UInt8} {pos : Nat} (h : pos + 2 ≤ bs.length)
    : bigEndian 2 (UInt16.ofNat (field bs pos 2)).toNat = (bs.drop pos).take 2 := by
  have := field_lt bs pos 2
  rw [UInt16.toNat_ofNat_of_lt' (by simpa using this), bigEndian_field h]

theorem bigEndian_uint32_field {bs : List UInt8} {pos : Nat} (h : pos + 4 ≤ bs.length)
    : bigEndian 4 (UInt32.ofNat (field bs pos 4)).toNat = (bs.drop pos).take 4 := by
  have := field_lt bs pos 4
  rw [UInt32.toNat_ofNat_of_lt' (by simpa using this), bigEndian_field h]

def vector (n : Nat) (bs : List UInt8) (pos : Nat) : Vector UInt8 n :=
  Vector.ofFn fun i => bs.getD (pos + i) 0

theorem toList_vector {n : Nat} {bs : List UInt8} {pos : Nat} (h : pos + n ≤ bs.length)
    : (vector n bs pos).toList = (bs.drop pos).take n := by
  apply List.ext_getElem
  . simp only [Vector.length_toList, List.length_take, List.length_drop]
    omega
  . intro i hi hi'
    rw [Vector.length_toList] at hi
    simp only [vector, Vector.getElem_toList, Vector.getElem_ofFn, List.getElem_take,
      List.getElem_drop]
    rw [List.getD_eq_getElem]

theorem take_append_drop_drop (bs : List UInt8) (pos k : Nat)
    : (bs.drop pos).take k ++ bs.drop (pos + k) = bs.drop pos := by
  rw [← List.drop_drop, List.take_append_drop]

@[simp]
theorem uint16_ofBigEndian_bigEndian (w : UInt16)
    : UInt16.ofNat (ofBigEndian (bigEndian 2 w.toNat)) = w := by
  rw [ofBigEndian_bigEndian (w.toNat_lt : w.toNat < 256 ^ 2), UInt16.ofNat_toNat]

@[simp]
theorem uint32_ofBigEndian_bigEndian (w : UInt32)
    : UInt32.ofNat (ofBigEndian (bigEndian 4 w.toNat)) = w := by
  rw [ofBigEndian_bigEndian (w.toNat_lt : w.toNat < 256 ^ 4), UInt32.ofNat_toNat]

theorem bigEndian_injective {k m n : Nat} (hm : m < 256 ^ k) (hn : n < 256 ^ k)
    (h : bigEndian k m = bigEndian k n) : m = n := by
  rw [← ofBigEndian_bigEndian hm, h, ofBigEndian_bigEndian hn]

theorem take_drop_flatten {size : Nat} {blocks : List (List UInt8)} {b : List UInt8} {k : Nat}
    (hsize : ∀ b ∈ blocks, b.length = size) (hk : blocks[k]? = some b)
    : (blocks.flatten.drop (k * size)).take size = b := by
  induction blocks generalizing k with
  | nil => simp at hk
  | cons c blocks ih =>
    have hc := hsize c (List.mem_cons_self ..)
    cases k with
    | zero =>
      simp only [List.getElem?_cons_zero, Option.some.injEq] at hk
      subst hk
      simp [hc]
    | succ k =>
      rw [List.getElem?_cons_succ] at hk
      have hrest := ih (fun b hb => hsize b (List.mem_cons_of_mem c hb)) hk
      have hpos : (k + 1) * size = c.length + k * size := by
        rw [hc]
        ring
      rw [List.flatten_cons, hpos, ← List.drop_drop, List.drop_left]
      exact hrest

def memcmp : List UInt8 → List UInt8 → Int
  | a :: as, b :: bs => if a = b then memcmp as bs else (a.toNat : Int) - b.toNat
  | _, _ => 0

theorem memcmp_eq_zero {as bs : List UInt8} (h : as.length = bs.length)
    : memcmp as bs = 0 ↔ as = bs := by
  induction as generalizing bs with
  | nil =>
    cases bs with
    | nil => simp [memcmp]
    | cons b bs => simp at h
  | cons a as ih =>
    cases bs with
    | nil => simp at h
    | cons b bs =>
      rw [memcmp]
      split
      . next heq =>
        rw [ih (by simpa using h), heq]
        simp
      . next hne =>
        have : a.toNat ≠ b.toNat := fun heq => hne (UInt8.toNat_inj.mp heq)
        simp only [List.cons.injEq, hne, false_and, iff_false]
        omega

end Bytes
