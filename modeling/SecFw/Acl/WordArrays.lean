import SecFw.Acl.PointTable

/-!
This module contains the accesses to the arrays of end points word by word: the comparisons and
copies with the `number_bits` they are given, and the fill of the array with the ends of all ranges.
-/

namespace SecFw.Acl

namespace Arrays

def segPointCompare32 (a : Cells UInt32) (i : Nat) (b : Cells UInt32) (j : Nat) : Option Int := do
  -- `SegPointCompare32` of the words at two positions
  let x ← a.load i
  let y ← b.load j
  some (if x < y then -1 else if x = y then 0 else 1)

def compareFrom (a : Cells UInt32) (i : Nat) (b : Cells UInt32) (j : Nat) : Nat → Option Int
  | 0 => some 0
  | k + 1 => do
    let x ← a.load i
    let y ← b.load j
    if x < y then
      some (-1)
    else if x = y then
      compareFrom a (i + 1) b (j + 1) k
    else
      some 1

def segPointCompare64128 (number_bits : Nat) (a : Cells UInt32) (i : Nat) (b : Cells UInt32)
    (j : Nat) : Option Int :=
  -- it reads the global `number_bits`
  if number_bits &&& 0x1F ≠ 0 then
    none
  else
    compareFrom a i b j (number_bits >>> 5)

def assign (number_bits : Nat) (destination : Cells UInt32) (d : Nat) (source : Cells UInt32)
    (s : Nat) (number_of_bits : Nat) : Option (Cells UInt32) :=
  -- the check is made on the global `number_bits`
  if number_bits &&& 0x1F ≠ 0 then
    none
  else
    destination.copy d source s (number_of_bits >>> 5)

def fillWords (number_bits num : Nat) (range : Fin 2 → Words n) (segPoints : Cells UInt32)
    : Nat → Option (Cells UInt32)
  | 0 => some segPoints
  | i + 1 => do
    let segPoints ← fillWords number_bits num range segPoints i
    let segPoints ← segPoints.store ((number_bits >>> 4) * num + i) (← (range 0).toList[i]?)
    segPoints.store ((number_bits >>> 4) * num + i + (number_bits >>> 5)) (← (range 1).toList[i]?)

def fillSegPoints.go (number_bits : Nat)
    : Nat → List (Fin 2 → Words n) → Cells UInt32 → Option (Cells UInt32)
  | _, [], segPoints => some segPoints
  | num, range :: ranges, segPoints => do
    let segPoints ← fillWords number_bits num range segPoints (number_bits >>> 5)
    go number_bits (num + 1) ranges segPoints

def fillSegPoints (number_bits : Nat) (ranges : List (Fin 2 → Words n)) (segPoints : Cells UInt32)
    : Option (Cells UInt32) :=
  fillSegPoints.go number_bits 0 ranges segPoints

end Arrays

section Bits

theorem bits_and (n : Nat) : (32 * n) &&& 0x1F = 0 := by
  have : (32 * n) &&& 0x1F = (32 * n) % 32 := Nat.and_two_pow_sub_one_eq_mod (32 * n) 5
  omega

theorem bits_shiftRight_five (n : Nat) : (32 * n) >>> 5 = n := by
  rw [Nat.shiftRight_eq_div_pow]
  omega

theorem bits_shiftRight_four (n : Nat) : (32 * n) >>> 4 = 2 * n := by
  rw [Nat.shiftRight_eq_div_pow]
  omega

theorem bits_offset (num n : Nat) : num * (32 * n) / 32 = num * n := by
  rw [Nat.mul_left_comm, Nat.mul_div_cancel_left _ (by decide)]

end Bits

section Words

variable {a b : Cells UInt32} {i j : Nat} {xs ys : List UInt32}

theorem compareFrom_eq (ha : a.Holds i xs) (hb : b.Holds j ys) (hlen : xs.length = ys.length)
    : Arrays.compareFrom a i b j xs.length = some (compareWords xs ys) := by
  induction xs generalizing i j ys with
  | nil =>
    cases ys with
    | nil => rfl
    | cons y ys => simp at hlen
  | cons x xs ih =>
    cases ys with
    | nil => simp at hlen
    | cons y ys =>
      rw [Cells.holds_cons] at ha hb
      have htail := ih ha.2 hb.2 (by simpa using hlen)
      simp only [List.length_cons, Arrays.compareFrom, ha.1, hb.1, Option.bind_eq_bind,
        Option.bind_some, compareWords, htail]
      split
      . rfl
      . split <;> rfl

variable {p q : Words n}

theorem arrays_segPointCompare64128 (ha : a.Holds i p.toList) (hb : b.Holds j q.toList)
    : Arrays.segPointCompare64128 (32 * n) a i b j = some (segPointCompare64128 p q) := by
  have hcompare := compareFrom_eq ha hb (p.length_eq.trans q.length_eq.symm)
  rw [p.length_eq] at hcompare
  rw [Arrays.segPointCompare64128, bits_and, bits_shiftRight_five]
  exact hcompare

theorem arrays_segPointCompare32 (hn : n = 1) (ha : a.Holds i p.toList) (hb : b.Holds j q.toList)
    : Arrays.segPointCompare32 a i b j = some (segPointCompare64128 p q) := by
  rcases List.length_eq_one_iff.mp (p.length_eq.trans hn) with ⟨x, hx⟩
  rcases List.length_eq_one_iff.mp (q.length_eq.trans hn) with ⟨y, hy⟩
  rw [hx, Cells.holds_cons] at ha
  rw [hy, Cells.holds_cons] at hb
  simp only [Arrays.segPointCompare32, ha.1, hb.1, Option.bind_eq_bind, Option.bind_some,
    segPointCompare64128, hx, hy, compareWords]

theorem exists_assign (m : Nat) {destination source : Cells UInt32} {d s : Nat}
    (h : source.Holds s p.toList) (hd : d + n ≤ destination.length)
    : ∃ destination', Arrays.assign (32 * m) destination d source s (32 * n) = some destination'
        ∧ destination'.length = destination.length ∧ destination'.Holds d p.toList
        ∧ ∀ j, j < d ∨ d + n ≤ j → destination'.load j = destination.load j := by
  rw [← p.length_eq] at hd
  rcases Cells.exists_copy_all h hd with ⟨destination', hcopy, hlen, hholds, hframe⟩
  rw [p.length_eq] at hcopy hframe
  refine ⟨destination', ?_, hlen, hholds, hframe⟩
  rw [Arrays.assign, bits_and, bits_shiftRight_five]
  exact hcopy

end Words

section Fill

theorem length_flatMap_toList (points : List (Words n))
    : (points.flatMap Words.toList).length = points.length * n := by
  induction points with
  | nil => simp
  | cons p points ih =>
    rw [List.flatMap_cons, List.length_append, ih, p.length_eq, List.length_cons, Nat.add_mul,
      Nat.one_mul, Nat.add_comm]

theorem length_rangePoints (ranges : List (Fin 2 → Words n))
    : (rangePoints ranges).length = 2 * ranges.length := by
  induction ranges with
  | nil => rfl
  | cons range ranges ih =>
    have hcons : rangePoints (range :: ranges) = range 0 :: range 1 :: rangePoints ranges := rfl
    rw [hcons, List.length_cons, List.length_cons, ih, List.length_cons]
    omega

variable {ranges : List (Fin 2 → Words n)} {segPoints : Cells UInt32}

theorem exists_fillWords (range : Fin 2 → Words n) {num : Nat}
    (hlen : 2 * n * num + 2 * n ≤ segPoints.length) (i : Nat) (hi : i ≤ n)
    : ∃ segPoints', Arrays.fillWords (32 * n) num range segPoints i = some segPoints'
        ∧ segPoints'.length = segPoints.length
        ∧ ∀ j, segPoints'.load j =
          if 2 * n * num ≤ j ∧ j < 2 * n * num + i then (range 0).toList[j - 2 * n * num]?
          else if 2 * n * num + n ≤ j ∧ j < 2 * n * num + n + i then
            (range 1).toList[j - (2 * n * num + n)]?
          else segPoints.load j := by
  induction i with
  | zero =>
    refine ⟨segPoints, rfl, rfl, ?_⟩
    intro j
    rw [if_neg (by omega), if_neg (by omega)]
  | succ i ih =>
    rcases ih (by omega) with ⟨seg1, hfill, hlen1, hload1⟩
    have h0 := (range 0).length_eq
    have h1 := (range 1).length_eq
    have hw0 : (range 0).toList[i]? = some (range 0).toList[i] :=
      List.getElem?_eq_getElem (by omega)
    have hw1 : (range 1).toList[i]? = some (range 1).toList[i] :=
      List.getElem?_eq_getElem (by omega)
    rcases Cells.exists_store (by omega : 2 * n * num + i < seg1.length)
      (range 0).toList[i] with ⟨seg2, hstore2, hlen2, hload2⟩
    rcases Cells.exists_store (by omega : 2 * n * num + i + n < seg2.length)
      (range 1).toList[i] with ⟨seg3, hstore3, hlen3, hload3⟩
    refine ⟨seg3, ?_, by omega, ?_⟩
    . simp only [Arrays.fillWords, hfill, bits_shiftRight_four, bits_shiftRight_five, hw0, hw1,
        Option.bind_eq_bind, Option.bind_some, hstore2, hstore3]
    . intro j
      rw [hload3, hload2, hload1]
      by_cases hj0 : j = 2 * n * num + i
      . rw [if_neg (by omega), if_pos hj0, if_pos (by omega), hj0, Nat.add_sub_cancel_left, hw0]
      . by_cases hj1 : j = 2 * n * num + i + n
        . have hsub : j - (2 * n * num + n) = i := by omega
          rw [if_pos hj1, if_neg (by omega), if_pos (by omega), hsub, hw1]
        . rw [if_neg hj1, if_neg hj0]
          by_cases hin0 : 2 * n * num ≤ j ∧ j < 2 * n * num + i
          . rw [if_pos hin0, if_pos (by omega)]
          . by_cases hin1 : 2 * n * num + n ≤ j ∧ j < 2 * n * num + n + i
            . rw [if_neg hin0, if_pos hin1, if_neg (by omega), if_pos (by omega)]
            . rw [if_neg hin0, if_neg hin1, if_neg (by omega), if_neg (by omega)]

theorem exists_fillSegPoints_go (num : Nat) {done : List UInt32} (hdone : done.length = 2 * n * num)
    (hholds : segPoints.Holds 0 done)
    (hlen : 2 * n * (num + ranges.length) ≤ segPoints.length)
    : ∃ segPoints', Arrays.fillSegPoints.go (32 * n) num ranges segPoints = some segPoints'
        ∧ segPoints'.length = segPoints.length
        ∧ segPoints'.Holds 0 (done ++ (rangePoints ranges).flatMap Words.toList) := by
  induction ranges generalizing num done segPoints with
  | nil => exact ⟨segPoints, rfl, rfl, by simpa [rangePoints] using hholds⟩
  | cons range ranges ih =>
    rw [List.length_cons] at hlen
    have hroom : 2 * n * num + 2 * n ≤ segPoints.length := by
      have : 2 * n * (num + 1) ≤ 2 * n * (num + (ranges.length + 1)) :=
        Nat.mul_le_mul_left _ (by omega)
      rw [Nat.mul_add, Nat.mul_one] at this
      omega
    rcases exists_fillWords range hroom n le_rfl with ⟨seg1, hfill, hlen1, hload1⟩
    have h0 := (range 0).length_eq
    have h1 := (range 1).length_eq
    have hholds1 : seg1.Holds 0 (done ++ ((range 0).toList ++ (range 1).toList)) := by
      rw [Cells.holds_append, Cells.holds_append, Nat.zero_add, hdone, h0]
      refine ⟨?_, ?_, ?_⟩
      . apply hholds.congr
        intro j _ hj
        rw [hload1, if_neg (by omega), if_neg (by omega)]
      . intro j hj
        rw [hload1, if_pos (by omega), Nat.add_sub_cancel_left]
      . intro j hj
        rw [hload1, if_neg (by omega), if_pos (by omega), Nat.add_sub_cancel_left]
    have hdone1 : (done ++ ((range 0).toList ++ (range 1).toList)).length
        = 2 * n * (num + 1) := by
      simp only [List.length_append, hdone, h0, h1]
      ring
    rcases ih (num + 1) hdone1 hholds1
      (by rw [hlen1]; convert hlen using 2; omega) with ⟨seg2, hrest, hlen2, hholds2⟩
    refine ⟨seg2, ?_, hlen2.trans hlen1, ?_⟩
    . simp only [Arrays.fillSegPoints.go, bits_shiftRight_five, hfill, Option.bind_eq_bind,
        Option.bind_some, hrest]
    . simpa [rangePoints] using hholds2

theorem exists_fillSegPoints (hlen : segPoints.length = 2 * ranges.length * n)
    : ∃ segPoints', Arrays.fillSegPoints (32 * n) ranges segPoints = some segPoints'
        ∧ segPoints' = Cells.filled ((rangePoints ranges).flatMap Words.toList) := by
  have hroom : 2 * n * (0 + ranges.length) ≤ segPoints.length := by
    rw [hlen, Nat.zero_add]
    exact le_of_eq (by ring)
  rcases exists_fillSegPoints_go 0 (by simp) (Cells.holds_nil segPoints 0) hroom with
    ⟨segPoints', hfill, hlen', hholds⟩
  refine ⟨segPoints', hfill, hholds.eq_filled ?_⟩
  rw [hlen', hlen, List.nil_append, length_flatMap_toList, length_rangePoints]

end Fill

end SecFw.Acl
