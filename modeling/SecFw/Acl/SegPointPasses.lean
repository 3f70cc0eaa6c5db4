import SecFw.Acl.PointArrays
import SecFw.Acl.Lookup

/-!
This module contains the pass that counts the points of every dimension and the pass that writes
those of the selected dimension. Both collect the same points, so that the array of the second pass
has the size that the first one has counted.
-/

namespace SecFw.Acl

namespace Arrays

def fillSegPoints32 : Nat → List (Fin 2 → Words n) → Cells UInt32 → Option (Cells UInt32)
  | _, [], segPoints => some segPoints
  | num, range :: ranges, segPoints => do
    let segPoints ← segPoints.store (num <<< 1) (← (range 0).toList[0]?)
    let segPoints ← segPoints.store ((num <<< 1) + 1) (← (range 1).toList[0]?)
    fillSegPoints32 (num + 1) ranges segPoints

def assignSegmentPoints32 (ranges : List (Fin 2 → Words n)) (segPoints : Cells UInt32)
    (tempPoints_32 : List SegmentPtCells) : Option (List SegmentPtCells) :=
  if 32 * n > 32 then
    none
  else do
    let segPoints ← fillSegPoints32 0 ranges segPoints
    let points ← (points32Ops segPoints).collect (2 * ranges.length) tempPoints_32
    some points.table

def assignSegmentPoints64 (global_number_bits : Nat) (ranges : List (Fin 2 → Words n))
    (segPoints : Cells UInt32) (tempPoints_128 : List SegmentPtCells)
    : Option (List SegmentPtCells) :=
  if 32 * n ≤ 32 then
    none
  else do
    let segPoints ← fillSegPoints (32 * n) ranges segPoints
    let points ← (points64128Ops segPoints global_number_bits (32 * n)).collect
      (2 * ranges.length) tempPoints_128
    some points.table

def assignSegmentPoints128 (global_number_bits : Nat) (ranges : List (Fin 2 → Words n))
    (segPoints : Cells UInt32) (tempPoints_128 : List SegmentPtCells)
    : Option (List SegmentPtCells) :=
  if 32 * n ≤ 32 then
    none
  else do
    let segPoints ← fillSegPoints (32 * n) ranges segPoints
    let points ← (points64128Ops segPoints global_number_bits (32 * n)).collect
      (2 * ranges.length) tempPoints_128
    some points.table

def assignPoints (number_bits : Nat) (ranges : List (Fin 2 → Words n)) (maxDiffSegPts : Nat)
    : Option (List SegmentPtCells) :=
  let segPoints := Cells.blank ((ranges.length <<< 1) * (number_bits >>> 5))
  if number_bits = 32 then
    assignSegmentPoints32 ranges segPoints (mallocPoints maxDiffSegPts 1)
  else if number_bits = 64 then
    assignSegmentPoints64 number_bits ranges segPoints (mallocPoints maxDiffSegPts 2)
  else
    assignSegmentPoints128 number_bits ranges segPoints (mallocPoints maxDiffSegPts 4)

def countPoints (number_bits : Nat) (ranges : List (Fin 2 → Words n)) : Option (Nat × Nat) := do
  -- `diffSegPts` and `diffSegPts_All` of a dimension with the given ranges
  let zeros := Cells.filled (List.replicate ((ranges.length <<< 1) * (number_bits >>> 5)) 0)
  let segPoints ← fillSegPoints number_bits ranges zeros
  let points ← (flatOps segPoints number_bits number_bits).collect (2 * ranges.length)
    ⟨zeros, Cells.blank (ranges.length <<< 1)⟩
  some (points.diffSegPts, points.diffSegPts_All)

def selectDim (ruleset : RuleSet) : Option Selection :=
  (List.finRange DIM).foldlM step ⟨1, 1, 0⟩
where
  step (sel : Selection) (dim : Fin DIM) : Option Selection := do
    let (diffSegPts, diffSegPts_All) ← countPoints (numberBits dim)
      (ruleset.map fun r => r.range dim)
    if sel.maxDiffSegPts_All < diffSegPts_All then
      some ⟨diffSegPts_All, diffSegPts, dim⟩
    else
      some sel

end Arrays

section Passes

variable {ranges : List (Fin 2 → Words n)} {acc : List (SegmentPt n) × Nat}

theorem fillSegPoints32_eq (num : Nat) (ranges : List (Fin 2 → Words n))
    (segPoints : Cells UInt32)
    : Arrays.fillSegPoints32 num ranges segPoints
        =
      Arrays.fillSegPoints.go 32 num ranges segPoints := by
  induction ranges generalizing num segPoints with
  | nil => rfl
  | cons range ranges ih =>
    have hpos : num <<< 1 = 2 * num := by
      rw [Nat.shiftLeft_eq]
      omega
    simp only [Arrays.fillSegPoints32, Arrays.fillSegPoints.go, Arrays.fillWords, ih, hpos,
      Nat.reduceShiftRight, Option.bind_eq_bind, Option.bind_some, Option.bind_assoc, Nat.add_zero]

theorem segPoints_size (ranges : List (Fin 2 → Words n))
    : (ranges.length <<< 1) * ((32 * n) >>> 5) = 2 * ranges.length * n := by
  rw [bits_shiftRight_five, Nat.shiftLeft_eq]
  ring

theorem countPoints_eq (hpos : 0 < n)
    (hcollect : collectPoints segPointCompare64128 (rangePoints ranges) = some acc)
    : Arrays.countPoints (32 * n) ranges = some (acc.1.length, acc.2) := by
  have hcap := collectPoints_length_le hcollect
  have hzeros : (Cells.filled (List.replicate (2 * ranges.length * n) (0 : UInt32))).length
      = 2 * ranges.length * n := by simp
  rcases exists_fillSegPoints hzeros with ⟨segPoints, hfill, hseg⟩
  have hbits : 32 * n ≤ 32 → 32 * n = 32 ∧ n = 1 := by omega
  have himpl := flatOps_implements (rangePoints ranges).length (hseg ▸ Cells.holds_filled _) hbits
  have hrep : HoldsEntries (rangePoints ranges).length
      ⟨Cells.filled (List.replicate (2 * ranges.length * n) 0), Cells.blank (ranges.length <<< 1)⟩
      ([] : List (SegmentPt n)) := by
    refine ⟨Cells.holds_nil _ _, Cells.holds_nil _ _, by simp, ?_, ?_⟩
    . rw [length_rangePoints, hzeros]
    . rw [length_rangePoints, Cells.length_blank, Nat.shiftLeft_eq]
      omega
  rcases himpl.collect hrep hcollect hcap with ⟨points, hrun, htracks⟩
  rw [length_rangePoints] at hrun
  simp only [Arrays.countPoints, segPoints_size, hfill, hrun, Option.bind_eq_bind,
    Option.bind_some, htracks.diffSegPts, htracks.diffSegPts_All]

theorem FilledPoints.eq_cells {tempPoints : List SegmentPtCells} {es : List (SegmentPt n)}
    (h : FilledPoints es.length tempPoints es) : tempPoints = es.map SegmentPt.cells := by
  rw [h.eq, Nat.sub_self]
  simp [Arrays.mallocPoints]

theorem assignSegmentPoints32_eq {ranges : List (Fin 2 → Words 1)}
    {acc : List (SegmentPt 1) × Nat}
    (hcollect : collectPoints segPointCompare64128 (rangePoints ranges) = some acc)
    : Arrays.assignSegmentPoints32 ranges (Cells.blank (2 * ranges.length * 1))
          (Arrays.mallocPoints acc.1.length 1)
        =
      some (acc.1.map SegmentPt.cells) := by
  rcases exists_fillSegPoints (Cells.length_blank (2 * ranges.length * 1)) with
    ⟨segPoints, hfill, hseg⟩
  have himpl := points32Ops_implements acc.1.length rfl (hseg ▸ Cells.holds_filled _)
  rcases himpl.collect (filledPoints_malloc 1 acc.1.length) hcollect le_rfl with
    ⟨points, hrun, htracks⟩
  rw [length_rangePoints] at hrun
  rw [Arrays.fillSegPoints, ← fillSegPoints32_eq] at hfill
  rw [Arrays.assignSegmentPoints32, if_neg (by decide)]
  simp only [hfill, hrun, Option.bind_eq_bind, Option.bind_some, htracks.table.eq_cells]

theorem assignSegmentPoints64_eq (hwide : 1 < n)
    (hcollect : collectPoints segPointCompare64128 (rangePoints ranges) = some acc)
    : Arrays.assignSegmentPoints64 (32 * n) ranges (Cells.blank (2 * ranges.length * n))
          (Arrays.mallocPoints acc.1.length n)
        =
      some (acc.1.map SegmentPt.cells) := by
  rcases exists_fillSegPoints (Cells.length_blank (2 * ranges.length * n)) with
    ⟨segPoints, hfill, hseg⟩
  have himpl := points64128Ops_implements acc.1.length (hseg ▸ Cells.holds_filled _)
  rcases himpl.collect (filledPoints_malloc n acc.1.length) hcollect le_rfl with
    ⟨points, hrun, htracks⟩
  rw [length_rangePoints] at hrun
  rw [Arrays.assignSegmentPoints64, if_neg (by omega)]
  simp only [hfill, hrun, Option.bind_eq_bind, Option.bind_some, htracks.table.eq_cells]

theorem assignSegmentPoints128_eq
    : (Arrays.assignSegmentPoints128
        : Nat → List (Fin 2 → Words n) → Cells UInt32 → List SegmentPtCells → _)
        =
      Arrays.assignSegmentPoints64 := rfl

theorem arrays_assignPoints (hbits : n = 1 ∨ n = 2 ∨ n = 4)
    (hcollect : collectPoints segPointCompare64128 (rangePoints ranges) = some acc)
    : Arrays.assignPoints (32 * n) ranges acc.1.length = some (acc.1.map SegmentPt.cells) := by
  unfold Arrays.assignPoints
  rw [segPoints_size]
  rcases hbits with rfl | rfl | rfl
  . exact assignSegmentPoints32_eq hcollect
  . exact assignSegmentPoints64_eq (by decide) hcollect
  . rw [if_neg (by decide), if_neg (by decide), assignSegmentPoints128_eq]
    exact assignSegmentPoints64_eq (by decide) hcollect

end Passes

section Agree

/-- The entries are the different ends of the ranges, their flags tell which ends they are. -/
structure EndPoints (ranges : List (Fin 2 → Words n)) (es : List (SegmentPt n)) : Prop where
  nodup : (es.map SegmentPt.segmentpoint).Nodup
  mem_iff : ∀ x, x ∈ es.map SegmentPt.segmentpoint ↔ ∃ range ∈ ranges, range 0 = x ∨ range 1 = x
  start_iff : ∀ e ∈ es, e.flag.testBit 0 = true ↔ ∃ range ∈ ranges, range 0 = e.segmentpoint
  end_iff : ∀ e ∈ es, e.flag.testBit 1 = true ↔ ∃ range ∈ ranges, range 1 = e.segmentpoint

variable {ranges : List (Fin 2 → Words n)} {pts : List (Words n)}
  {acc : List (SegmentPt n) × Nat}

theorem mem_endsOf {k : Fin 2} {x : Words n}
    : x ∈ endsOf ranges k ↔ ∃ range ∈ ranges, range k = x := by
  simp [endsOf]

theorem entry_testBit_zero (M : Fin 2 → Finset (Words n)) (x : Words n)
    : (entry M x).flag.testBit 0 = true ↔ x ∈ M 0 := by
  by_cases h0 : x ∈ M 0 <;> by_cases h1 : x ∈ M 1 <;> simp [entry, h0, h1]

theorem entry_testBit_one (M : Fin 2 → Finset (Words n)) (x : Words n)
    : (entry M x).flag.testBit 1 = true ↔ x ∈ M 1 := by
  by_cases h0 : x ∈ M 0 <;> by_cases h1 : x ∈ M 1 <;> simp [entry, h0, h1, Nat.testBit]

theorem Collected.endPoints (h : Collected (endsOf ranges) pts acc) : EndPoints ranges acc.1 := by
  have hpts : acc.1.map SegmentPt.segmentpoint = pts := by
    rw [h.temp_eq, List.map_map]
    exact List.map_id pts
  have hentry {e : SegmentPt n} (he : e ∈ acc.1) : e = entry (endsOf ranges) e.segmentpoint := by
    rw [h.temp_eq] at he
    rcases List.mem_map.mp he with ⟨x, -, rfl⟩
    rfl
  constructor
  case nodup =>
    rw [hpts]
    exact h.nodup
  case mem_iff =>
    intro x
    rw [hpts, h.mem_iff, mem_endsOf, mem_endsOf]
    constructor
    . rintro (⟨range, hrange, heq⟩ | ⟨range, hrange, heq⟩)
      . exact ⟨range, hrange, Or.inl heq⟩
      . exact ⟨range, hrange, Or.inr heq⟩
    . rintro ⟨range, hrange, heq | heq⟩
      . exact Or.inl ⟨range, hrange, heq⟩
      . exact Or.inr ⟨range, hrange, heq⟩
  case start_iff =>
    intro e he
    rw [hentry he, entry_testBit_zero, mem_endsOf]
    rfl
  case end_iff =>
    intro e he
    rw [hentry he, entry_testBit_one, mem_endsOf]
    rfl

theorem passes_agree (hbits : n = 1 ∨ n = 2 ∨ n = 4) (hne : ranges ≠ [])
    : ∃ es, Arrays.countPoints (32 * n) ranges
          = some (es.length, (endsOf ranges 0).card + (endsOf ranges 1).card)
        ∧ Arrays.assignPoints (32 * n) ranges es.length = some (es.map SegmentPt.cells)
        ∧ EndPoints ranges es := by
  rcases collectPoints_rangePoints hne with ⟨acc, pts, hcollect, hcollected⟩
  refine ⟨acc.1, ?_, arrays_assignPoints hbits hcollect, hcollected.endPoints⟩
  rw [countPoints_eq (by omega) hcollect, hcollected.all_eq]

variable {ruleset : RuleSet}

theorem arrays_countPoints (hne : ruleset ≠ []) (d : Fin DIM)
    : Arrays.countPoints (numberBits d) (ruleset.map fun r => r.range d)
        =
      countSegPoints ruleset d := by
  rcases collectPoints_segPoints hne d with ⟨acc, pts, hcollect, -⟩
  have hranges := hcollect
  rw [segPoints_eq] at hranges
  rw [numberBits_eq, countPoints_eq (numWords_pos d) hranges, countSegPoints,
    compareBits_eq_segPointCompare64128, hcollect]
  rfl

theorem arrays_selectDim (hne : ruleset ≠ []) : Arrays.selectDim ruleset = selectDim ruleset := by
  have hstep : Arrays.selectDim.step ruleset = selectDim.step ruleset := by
    funext sel d
    rw [Arrays.selectDim.step, selectDim.step, arrays_countPoints hne]
  rw [Arrays.selectDim, selectDim, hstep]

theorem rangeEnds_card_pos (hne : ruleset ≠ []) (d : Fin DIM) (k : Fin 2)
    : 0 < (rangeEnds ruleset d k).card := by
  rcases List.exists_mem_of_ne_nil _ hne with ⟨r, hr⟩
  rw [Finset.card_pos]
  exact ⟨r.range d k, List.mem_toFinset.mpr (List.mem_map_of_mem hr)⟩

theorem Selects.counted {sel : Selection} (h : Selects ruleset (List.finRange DIM) sel)
    (hne : ruleset ≠ [])
    : countSegPoints ruleset sel.d2s = some (sel.maxDiffSegPts, sel.maxDiffSegPts_All) := by
  have hevents := h.events_le 0 (List.mem_finRange 0)
  have hstarts := rangeEnds_card_pos hne 0 0
  have hends := rangeEnds_card_pos hne 0 1
  rw [← card_rangeEnds] at hevents
  exact h.count.resolve_left (by omega)

/--
In every width, and in the dimension that is selected for a rule set, the second pass writes exactly
the entries that the first one has counted: the different end points with their flags.
-/
theorem segPoint_passes_agree (hne : ruleset ≠ [])
    : (∀ (n : Nat) (ranges : List (Fin 2 → Words n)), n = 1 ∨ n = 2 ∨ n = 4 → ranges ≠ []
        → ∃ es, Arrays.countPoints (32 * n) ranges
            = some (es.length, (endsOf ranges 0).card + (endsOf ranges 1).card)
          ∧ Arrays.assignPoints (32 * n) ranges es.length = some (es.map SegmentPt.cells)
          ∧ EndPoints ranges es)
      ∧ ∃ sel es, Arrays.selectDim ruleset = some sel ∧ selectDim ruleset = some sel
        ∧ sel.maxDiffSegPts = es.length
        ∧ sel.maxDiffSegPts_All
          = (rangeEnds ruleset sel.d2s 0).card + (rangeEnds ruleset sel.d2s 1).card
        ∧ Arrays.assignPoints (numberBits sel.d2s) (ruleset.map fun r => r.range sel.d2s)
            sel.maxDiffSegPts
          = some (es.map SegmentPt.cells)
        ∧ EndPoints (ruleset.map fun r => r.range sel.d2s) es := by
  constructor
  . intro n ranges hbits hranges
    exact passes_agree hbits hranges
  . rcases selectDim_spec hne with ⟨sel, hsel, hselects⟩
    have hcount := hselects.counted hne
    have hbits : numWords sel.d2s = 1 ∨ numWords sel.d2s = 2 ∨ numWords sel.d2s = 4 :=
      numWords_cases sel.d2s
    rcases passes_agree hbits (mt List.map_eq_nil_iff.mp hne) with ⟨es, hcount', hassign, hpoints⟩
    rw [← numberBits_eq, arrays_countPoints hne, hcount, Option.some.injEq,
      Prod.mk.injEq] at hcount'
    rw [← numberBits_eq, ← hcount'.1] at hassign
    refine ⟨sel, es, ?_, hsel, hcount'.1, ?_, hassign, hpoints⟩
    . rw [arrays_selectDim hne, hsel]
    . rw [hcount'.2, rangeEnds_eq]

def wideRanges : List (Fin 2 → Words 4) :=
  [![.ofNat 4 0, .ofNat 4 5], ![.ofNat 4 3, .ofNat 4 10]]

theorem segPoint_passes_agree_ports
    : (∃ es, Arrays.countPoints (32 * 4) wideRanges
          = some (es.length, (endsOf wideRanges 0).card + (endsOf wideRanges 1).card)
        ∧ Arrays.assignPoints (32 * 4) wideRanges es.length = some (es.map SegmentPt.cells)
        ∧ EndPoints wideRanges es)
      ∧ ∃ sel es, Arrays.selectDim [portRule 0 0 5, portRule 1 3 10] = some sel
        ∧ selectDim [portRule 0 0 5, portRule 1 3 10] = some sel
        ∧ sel.maxDiffSegPts = es.length
        ∧ sel.maxDiffSegPts_All
          = (rangeEnds [portRule 0 0 5, portRule 1 3 10] sel.d2s 0).card
            + (rangeEnds [portRule 0 0 5, portRule 1 3 10] sel.d2s 1).card
        ∧ Arrays.assignPoints (numberBits sel.d2s)
            ([portRule 0 0 5, portRule 1 3 10].map fun r => r.range sel.d2s) sel.maxDiffSegPts
          = some (es.map SegmentPt.cells)
        ∧ EndPoints ([portRule 0 0 5, portRule 1 3 10].map fun r => r.range sel.d2s) es :=
  have hports := segPoint_passes_agree (List.cons_ne_nil (portRule 0 0 5) [portRule 1 3 10])
  ⟨hports.1 4 wideRanges (by decide) (List.cons_ne_nil _ _), hports.2⟩

end Agree

end SecFw.Acl
