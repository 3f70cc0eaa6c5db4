import SecFw.Acl.SegPointPasses
import SecFw.Acl.Split

/-!
This module contains the prediction of the overlaps between rules. It reads the end points with the
global `number_bits` that earlier calls have left behind instead of its own one.
-/

namespace SecFw.Acl

namespace Arrays

def compareEntry (number_bits : Nat) (segPoints : Cells UInt32) (num : Nat) (table : PointTable)
    (pos : Nat) : Option Int :=
  if number_bits ≤ 32 then
    segPointCompare32 segPoints (num * number_bits / 32)
      table.tempSegPoints (pos * number_bits / 32)
  else
    segPointCompare64128 number_bits segPoints (num * number_bits / 32)
      table.tempSegPoints (pos * number_bits / 32)

def countOverlaps.step (number_bits : Nat) (segPoints : Cells UInt32) (table : PointTable)
    (num : Nat) (overlapping_count : Int) (pos : Nat) : Option Int := do
  let temp1 ← compareEntry number_bits segPoints (2 * num) table pos
  let temp2 ← compareEntry number_bits segPoints (2 * num + 1) table pos
  if temp1 ≤ 0 ∧ temp2 ≥ 0 then
    let flag ← table.segFlag.load pos
    if flag = 3 then
      some (overlapping_count + 1 + 1)
    else
      some (overlapping_count + 1)
  else
    some overlapping_count

def countOverlaps (number_bits : Nat) (segPoints : Cells UInt32) (points : Points PointTable)
    (overlapping_count : Int) (num : Nat) : Option Int := do
  let overlapping_count ← (List.range points.diffSegPts).foldlM
    (countOverlaps.step number_bits segPoints points.table num) overlapping_count
  some (overlapping_count - 1)

def predictDim (number_bits pre_number_bits : Nat) (ranges : List (Fin 2 → Words n))
    (overlapping_count : Int) : Option Int := do
  let segPoints ← fillSegPoints pre_number_bits ranges
    (Cells.blank ((ranges.length <<< 1) * (pre_number_bits >>> 5)))
  let tempSegPoints ← assign number_bits
    (Cells.blank ((ranges.length <<< 1) * (pre_number_bits >>> 5))) 0 segPoints 0 pre_number_bits
  let segFlag ← (Cells.blank (ranges.length <<< 1)).store 0 1
  let points ← (flatOps segPoints pre_number_bits number_bits).loop (2 * ranges.length)
    ⟨tempSegPoints, segFlag⟩
  (List.range ranges.length).foldlM (countOverlaps number_bits segPoints points) overlapping_count

end Arrays

def prediction (number_bits : Nat) (ruleset : RuleSet) : Option Int :=
  -- the `overlapping_count` of `Prediction` before the division by the number of rules. The global
  -- `number_bits` is read and never written
  (List.finRange DIM).foldlM (fun overlapping_count dim =>
    Arrays.predictDim number_bits (numberBits dim) (ruleset.map fun r => r.range dim)
      overlapping_count) 0

section Overlaps

def overlapCount (ranges : List (Fin 2 → Words n)) : Int :=
  (ranges.map fun range =>
    (((endsOf ranges 0).filter fun x => range 0 ≤ x ∧ x ≤ range 1).card : Int)
      + ((endsOf ranges 1).filter fun x => range 0 ≤ x ∧ x ≤ range 1).card - 1).sum

def overlapSum (ruleset : RuleSet) : Int :=
  ∑ d : Fin DIM, overlapCount (ruleset.map fun r => r.range d)

def readPairs : Nat → List UInt32 → List (Fin 2 → Words 1)
  | k + 1, x :: y :: ws => ![⟨[x], rfl⟩, ⟨[y], rfl⟩] :: readPairs k ws
  | _, _ => []

def read32 (ranges : List (Fin 2 → Words n)) : List (Fin 2 → Words 1) :=
  -- the ranges that the words of the end points are when every end point is taken to have 32 bits.
  -- For end points of 64 bits these are the pairs of the upper and the lower word of the first
  -- ones
  readPairs ranges.length ((rangePoints ranges).flatMap Words.toList)

end Overlaps

section Folds

variable {α β : Type}

theorem foldlM_add {f : Int → α → Option Int} {g : α → Int} {xs : List α} (c : Int)
    (h : ∀ c, ∀ x ∈ xs, f c x = some (c + g x)) : xs.foldlM f c = some (c + (xs.map g).sum) := by
  induction xs generalizing c with
  | nil => simp
  | cons x xs ih =>
    rw [List.foldlM_cons, h c x (by simp)]
    simp only [Option.bind_eq_bind, Option.bind_some, List.map_cons, List.sum_cons]
    rw [ih (c + g x) fun c y hy => h c y (by simp [hy]), Int.add_assoc]

theorem foldlM_range_add {f : Int → Nat → Option Int} {g : α → Int} {xs : List α} (c : Int)
    (h : ∀ c i x, xs[i]? = some x → f c i = some (c + g x))
    : (List.range xs.length).foldlM f c = some (c + (xs.map g).sum) := by
  have hget (i : Nat) (hi : i ∈ List.range xs.length) : ∃ x, xs[i]? = some x :=
    ⟨_, List.getElem?_eq_getElem (List.mem_range.mp hi)⟩
  rw [foldlM_add (g := fun i => (xs[i]?.map g).getD 0)]
  . have hmap : (List.range xs.length).map (fun i => (xs[i]?.map g).getD 0) = xs.map g := by
      apply List.ext_getElem
      . simp
      . intro i hi hi'
        have hin : i < xs.length := by simpa using hi'
        simp [List.getElem?_eq_getElem hin]
    rw [hmap]
  . intro c i hi
    rcases hget i hi with ⟨x, hx⟩
    rw [h c i x hx, hx]
    rfl

theorem foldlM_eq_none {f : β → α → Option β} {xs : List α} {x : α} (hx : x ∈ xs)
    (h : ∀ c, f c x = none) (c : β) : xs.foldlM f c = none := by
  induction xs generalizing c with
  | nil => simp at hx
  | cons y ys ih =>
    rw [List.foldlM_cons]
    cases hx with
    | head => rw [h c]; rfl
    | tail _ hx =>
      cases hy : f c y with
      | none => rfl
      | some c' => exact ih hx c'

end Folds

section Count

variable {m cap : Nat} {segPoints : Cells UInt32} {table : PointTable}
  {ranges : List (Fin 2 → Words n)} {range : Fin 2 → Words n} {es : List (SegmentPt n)}
  {e : SegmentPt n} {num pos : Nat}

def overlapWeight (range : Fin 2 → Words n) (e : SegmentPt n) : Int :=
  if range 0 ≤ e.segmentpoint ∧ e.segmentpoint ≤ range 1 then
    if e.flag = 3 then 2 else 1
  else
    0

theorem compareEntry_eq (hpos : 0 < n) {points : List (Words n)} {p : Words n}
    (hseg : segPoints.Holds 0 (points.flatMap Words.toList)) (hrep : HoldsEntries cap table es)
    (hp : points[num]? = some p) (he : es[pos]? = some e)
    : Arrays.compareEntry (32 * n) segPoints num table pos
        =
      some (segPointCompare64128 p e.segmentpoint) := by
  have hpoint := holds_point hseg hp
  have hentry := hrep.point he
  unfold Arrays.compareEntry
  rw [bits_offset, bits_offset]
  split
  . next hle => exact arrays_segPointCompare32 (by omega) hpoint hentry
  . exact arrays_segPointCompare64128 hpoint hentry

theorem getElem?_rangePoints (h : ranges[num]? = some range)
    : (rangePoints ranges)[2 * num]? = some (range 0)
      ∧ (rangePoints ranges)[2 * num + 1]? = some (range 1) := by
  induction ranges generalizing num with
  | nil => simp at h
  | cons r rs ih =>
    have hcons : rangePoints (r :: rs) = r 0 :: r 1 :: rangePoints rs := rfl
    rw [hcons]
    cases num with
    | zero =>
      rw [List.getElem?_cons_zero, Option.some.injEq] at h
      subst h
      exact ⟨rfl, rfl⟩
    | succ num =>
      rw [List.getElem?_cons_succ] at h
      exact ih h

theorem countOverlaps_step (hpos : 0 < n)
    (hseg : segPoints.Holds 0 ((rangePoints ranges).flatMap Words.toList))
    (hrep : HoldsEntries cap table es) (hrange : ranges[num]? = some range)
    (he : es[pos]? = some e) (c : Int)
    : Arrays.countOverlaps.step (32 * n) segPoints table num c pos
        =
      some (c + overlapWeight range e) := by
  rcases getElem?_rangePoints hrange with ⟨h0, h1⟩
  simp only [Arrays.countOverlaps.step, compareEntry_eq hpos hseg hrep h0 he,
    compareEntry_eq hpos hseg hrep h1 he, hrep.flag he, Option.bind_eq_bind, Option.bind_some,
    segPointCompare64128_le_zero, ge_iff_le, segPointCompare64128_ge_zero, overlapWeight]
  split
  . split
    . rw [Int.add_assoc]
      rfl
    . rfl
  . rw [Int.add_zero]

theorem countOverlaps_eq (hpos : 0 < n)
    (hseg : segPoints.Holds 0 ((rangePoints ranges).flatMap Words.toList))
    {points : Points PointTable} (hrep : HoldsEntries cap points.table es)
    (hdiff : points.diffSegPts = es.length) (hrange : ranges[num]? = some range) (c : Int)
    : Arrays.countOverlaps (32 * n) segPoints points c num
        =
      some (c + ((es.map (overlapWeight range)).sum - 1)) := by
  have hfold := foldlM_range_add c fun c pos e (he : es[pos]? = some e) =>
    countOverlaps_step hpos hseg hrep hrange he c
  rw [Arrays.countOverlaps, hdiff, hfold]
  simp only [Option.bind_eq_bind, Option.bind_some, Int.add_sub_assoc]

variable {M : Fin 2 → Finset (Words n)} {pts : List (Words n)} {acc : List (SegmentPt n) × Nat}

theorem overlapWeight_entry {x : Words n} (hx : x ∈ M 0 ∨ x ∈ M 1)
    : overlapWeight range (entry M x)
        =
      if range 0 ≤ x ∧ x ≤ range 1 then (weight M x : Int) else 0 := by
  have hpoint : (entry M x).segmentpoint = x := rfl
  rw [overlapWeight, hpoint]
  split
  . by_cases hboth : x ∈ M 0 ∧ x ∈ M 1
    . rw [if_pos (entry_flag_eq_three_iff.mpr hboth), weight_of_both hboth]
      rfl
    . rw [if_neg (mt entry_flag_eq_three_iff.mp hboth), weight_of_not_both hx hboth]
      rfl
  . rfl

theorem Collected.sum_overlapWeight (h : Collected M pts acc) (range : Fin 2 → Words n)
    : (acc.1.map (overlapWeight range)).sum
        =
      (((M 0).filter fun x => range 0 ≤ x ∧ x ≤ range 1).card : Int)
        + ((M 1).filter fun x => range 0 ≤ x ∧ x ≤ range 1).card := by
  let inside := pts.filter fun x => range 0 ≤ x ∧ x ≤ range 1
  have hnodup : inside.Nodup := h.nodup.filter _
  have hcard (k : Fin 2) : (M k).filter (· ∈ inside)
      = (M k).filter fun x => range 0 ≤ x ∧ x ≤ range 1 := by
    apply Finset.filter_congr
    intro x hx
    have hmem : x ∈ pts := (h.mem_iff x).mpr (by fin_cases k <;> tauto)
    simp [inside, hmem]
  have hweights : acc.1.map (overlapWeight range)
      = pts.map fun x => if range 0 ≤ x ∧ x ≤ range 1 then (weight M x : Int) else 0 := by
    rw [h.temp_eq, List.map_map]
    apply List.map_congr_left
    intro x hx
    exact overlapWeight_entry ((h.mem_iff x).mp hx)
  calc (acc.1.map (overlapWeight range)).sum
    _ = ∑ x ∈ pts.toFinset, if range 0 ≤ x ∧ x ≤ range 1 then (weight M x : Int) else 0 := by
      rw [hweights, List.sum_toFinset _ h.nodup]
    _ = ∑ x ∈ inside.toFinset, (weight M x : Int) := by
      rw [← Finset.sum_filter, List.toFinset_filter]
      congr 1
      ext x
      simp
    _ = ((inside.map (weight M)).sum : Nat) := by
      rw [← List.sum_toFinset _ hnodup, Nat.cast_sum]
    _ = _ := by
      rw [sum_weight inside hnodup, hcard, hcard, Nat.cast_add]

end Count

section Dim

variable {m n : Nat} {ranges : List (Fin 2 → Words n)}

theorem words_head {range : Fin 2 → Words n} {rest : List (Fin 2 → Words n)}
    (h : ranges = range :: rest)
    : (range 0).toList <+: (rangePoints ranges).flatMap Words.toList := by
  rw [h, rangePoints, List.flatMap_cons, List.cons_append, List.flatMap_cons]
  exact List.prefix_append _ _

theorem exists_firstEntry (hmn : m ≤ n) (hne : ranges ≠ []) {p : Words m} {q : Words n}
    (hpq : p.toList <+: q.toList) {segPoints : Cells UInt32} (hseg : segPoints.Holds 0 q.toList)
    : ∃ tempSegPoints segFlag,
        Arrays.assign (32 * m) (Cells.blank (2 * ranges.length * n)) 0 segPoints 0 (32 * n)
            = some tempSegPoints
          ∧ (Cells.blank (ranges.length <<< 1)).store 0 1 = some segFlag
          ∧ HoldsEntries (2 * ranges.length) ⟨tempSegPoints, segFlag⟩ [⟨p, 1⟩] := by
  have hcount : 0 < ranges.length := List.length_pos_of_ne_nil hne
  have hflags : (Cells.blank (ranges.length <<< 1) : Cells Nat).length = 2 * ranges.length := by
    rw [Cells.length_blank, Nat.shiftLeft_eq]
    omega
  have hroom : 0 + n ≤ (Cells.blank (2 * ranges.length * n) : Cells UInt32).length := by
    rw [Cells.length_blank, Nat.zero_add]
    exact Nat.le_mul_of_pos_left n (by omega)
  rcases exists_assign m hseg hroom with ⟨tempSegPoints, hassign, htemp, hpoint, -⟩
  rcases (Cells.holds_nil (Cells.blank (ranges.length <<< 1)) 0).exists_push
    (by rw [hflags, List.length_nil]; omega) 1 with ⟨segFlag, hstore, hlength, hflag⟩
  rw [List.length_nil] at hstore
  rw [Cells.length_blank] at htemp
  refine ⟨tempSegPoints, segFlag, hassign, hstore, ?_, hflag, ?_, ?_, ?_⟩
  . simpa using hpoint.initial hpq
  . rw [List.length_singleton]
    omega
  . rw [htemp]
    exact Nat.mul_le_mul_left _ hmn
  . rw [hlength, hflags]

theorem predictDim_eq (hpos : 0 < m) (hmn : m ≤ n) (hne : ranges ≠ [])
    {asRead : List (Fin 2 → Words m)} (hlen : asRead.length = ranges.length)
    (hread : (rangePoints asRead).flatMap Words.toList
      <+: (rangePoints ranges).flatMap Words.toList) (c : Int)
    : Arrays.predictDim (32 * m) (32 * n) ranges c = some (c + overlapCount asRead) := by
  have hread_ne : asRead ≠ [] := by
    apply List.ne_nil_of_length_pos
    rw [hlen]
    exact List.length_pos_of_ne_nil hne
  rcases List.exists_cons_of_ne_nil hne with ⟨range, rest, hranges⟩
  rcases List.exists_cons_of_ne_nil hread_ne with ⟨pair, pairs, hpairs⟩
  have hword := words_head hranges
  have hfirst : (pair 0).toList <+: (range 0).toList := by
    apply List.prefix_of_prefix_length_le ((words_head hpairs).trans hread) hword
    rwa [(pair 0).length_eq, (range 0).length_eq]
  rcases exists_fillSegPoints (Cells.length_blank (2 * ranges.length * n)) with
    ⟨segPoints, hfill, rfl⟩
  have hwords := Cells.holds_filled ((rangePoints ranges).flatMap Words.toList)
  rcases exists_firstEntry hmn hne hfirst (hwords.initial hword) with
    ⟨tempSegPoints, segFlag, hassign, hstore, hrep⟩
  have hbits : 32 * n ≤ 32 → 32 * n = 32 ∧ m = 1 := by omega
  have himpl := flatOps_implements (2 * ranges.length) (hwords.initial hread) hbits
  rcases collectPoints_rangePoints hread_ne with ⟨acc, pts, hcollect, hcollected⟩
  have hcap := collectPoints_length_le hcollect
  rw [length_rangePoints, hlen] at hcap
  have hhead : (rangePoints asRead).head? = some (pair 0) := by
    rw [hpairs]
    rfl
  rcases himpl.loop hhead hrep hcollect hcap with ⟨points, hrun, htracks⟩
  rw [length_rangePoints, hlen] at hrun
  have hfold := foldlM_range_add c fun c num range (hrange : asRead[num]? = some range) =>
    countOverlaps_eq hpos (hwords.initial hread) htracks.table htracks.diffSegPts hrange c
  rw [hlen] at hfold
  simp only [Arrays.predictDim, segPoints_size, hfill, hassign, hstore, hrun, hfold,
    Option.bind_eq_bind, Option.bind_some, hcollected.sum_overlapWeight, overlapCount]

end Dim

section Read32

variable {ranges : List (Fin 2 → Words n)}

theorem length_readPairs {k : Nat} {ws : List UInt32} (h : 2 * k ≤ ws.length)
    : (readPairs k ws).length = k := by
  induction k generalizing ws with
  | zero => rfl
  | succ k ih =>
    match ws with
    | [] => simp at h
    | [x] =>
      simp at h
      omega
    | x :: y :: ws =>
      rw [readPairs, List.length_cons, ih]
      simp only [List.length_cons] at h
      omega

theorem words_readPairs (k : Nat) (ws : List UInt32)
    : (rangePoints (readPairs k ws)).flatMap Words.toList <+: ws := by
  induction k generalizing ws with
  | zero => exact List.nil_prefix
  | succ k ih =>
    match ws with
    | [] => exact List.nil_prefix
    | [x] => exact List.nil_prefix
    | x :: y :: ws =>
      have hcons : (rangePoints (readPairs (k + 1) (x :: y :: ws))).flatMap Words.toList
          = x :: y :: (rangePoints (readPairs k ws)).flatMap Words.toList := rfl
      rw [hcons, List.cons_prefix_cons, List.cons_prefix_cons]
      exact ⟨rfl, rfl, ih ws⟩

theorem predictDim_32 (hpos : 0 < n) (hne : ranges ≠ []) (c : Int)
    : Arrays.predictDim 32 (32 * n) ranges c = some (c + overlapCount (read32 ranges)) := by
  have hlen : (read32 ranges).length = ranges.length := by
    apply length_readPairs
    rw [length_flatMap_toList, length_rangePoints]
    exact Nat.le_mul_of_pos_right _ hpos
  exact predictDim_eq (m := 1) (by decide) hpos hne hlen (words_readPairs _ _) c

theorem predictDim_own (hpos : 0 < n) (hne : ranges ≠ []) (c : Int)
    : Arrays.predictDim (32 * n) (32 * n) ranges c = some (c + overlapCount ranges) :=
  predictDim_eq hpos le_rfl hne rfl List.prefix_rfl c

theorem overlapCount_read32 (hn : n = 1) (hne : ranges ≠ [])
    : overlapCount (read32 ranges) = overlapCount ranges := by
  subst hn
  have h32 := predictDim_32 Nat.one_pos hne 0
  rw [show 32 = 32 * 1 from rfl, predictDim_own Nat.one_pos hne 0, Option.some.injEq] at h32
  omega

theorem compareEntry_none {ws : List UInt32} {num : Nat} (h : ws.length ≤ 2 * num)
    (table : PointTable) (pos : Nat)
    : Arrays.compareEntry 64 (Cells.filled ws) num table pos = none := by
  have hindex : num * 64 / 32 = 2 * num := by omega
  have hload : (Cells.filled ws).load (2 * num) = none := by
    rw [Cells.load_filled, List.getElem?_eq_none h]
  have hwords : 64 >>> 5 = 2 := rfl
  rw [Arrays.compareEntry, if_neg (by decide), hindex, Arrays.segPointCompare64128,
    if_neg (by decide), hwords, Arrays.compareFrom, hload]
  rfl

theorem predictDim_64 (hn : n = 1) (hne : ranges ≠ []) (c : Int)
    : Arrays.predictDim 64 (32 * n) ranges c = none := by
  have hcount : 0 < ranges.length := List.length_pos_of_ne_nil hne
  rcases exists_fillSegPoints (Cells.length_blank (2 * ranges.length * n)) with
    ⟨segPoints, hfill, rfl⟩
  have hwords : ((rangePoints ranges).flatMap Words.toList).length
      ≤ 2 * (2 * (ranges.length - 1) + 1) := by
    rw [length_flatMap_toList, length_rangePoints]
    exact (Nat.mul_le_mul_left _ hn.le).trans (by omega)
  have hend := compareEntry_none hwords
  simp only [Arrays.predictDim, segPoints_size, hfill, Option.bind_eq_bind, Option.bind_some,
    Option.bind_eq_none_iff]
  intro tempSegPoints _ segFlag _ points hloop
  have hpos := TableOps.loop_diffSegPts_pos hloop
  apply foldlM_eq_none (List.mem_range.mpr (Nat.sub_lt hcount Nat.one_pos))
  intro c
  rw [Arrays.countOverlaps, foldlM_eq_none (List.mem_range.mpr hpos)]
  . rfl
  . intro c
    simp only [Arrays.countOverlaps.step, hend, Option.bind_eq_bind, Option.bind_none,
      Option.bind_fun_none]

end Read32

section Prediction

variable {ruleset : RuleSet}

theorem prediction_32 (hne : ruleset ≠ [])
    : prediction 32 ruleset
        =
      some (∑ d : Fin DIM, overlapCount (read32 (ruleset.map fun r => r.range d))) := by
  rw [prediction, foldlM_add, Int.zero_add, Fin.sum_univ_def]
  intro c d _
  rw [numberBits_eq]
  exact predictDim_32 (numWords_pos d) (mt List.map_eq_nil_iff.mp hne) c

theorem prediction_64 (hne : ruleset ≠ []) : prediction 64 ruleset = none := by
  apply foldlM_eq_none (List.mem_finRange 2)
  intro c
  rw [numberBits_eq]
  exact predictDim_64 rfl (mt List.map_eq_nil_iff.mp hne) c

theorem numberBits_cases (d : Fin DIM) : numberBits d = 32 ∨ numberBits d = 64 := by
  revert d
  decide

/--
The global is the number of bits of some dimension after an earlier build or lookup. The prediction
counts the overlaps if and only if it is 32 and the words of the wide end points have as many
overlaps as the end points have.
-/
theorem prediction_eq_overlapSum_iff (hne : ruleset ≠ []) (d : Fin DIM)
    : prediction (numberBits d) ruleset = some (overlapSum ruleset)
        ↔
      numberBits d = 32
        ∧ ∑ d with numberBits d ≠ 32, overlapCount (read32 (ruleset.map fun r => r.range d))
          = ∑ d with numberBits d ≠ 32, overlapCount (ruleset.map fun r => r.range d) := by
  cases numberBits_cases d with
  | inr h64 =>
    rw [h64, prediction_64 hne]
    simp
  | inl h32 =>
    have hnarrow (d : Fin DIM) (hd : numberBits d = 32)
        : overlapCount (read32 (ruleset.map fun r => r.range d))
          = overlapCount (ruleset.map fun r => r.range d) := by
      rw [numberBits_eq] at hd
      exact overlapCount_read32 (by omega) (mt List.map_eq_nil_iff.mp hne)
    rw [h32, prediction_32 hne, Option.some.injEq, overlapSum,
      ← Finset.sum_filter_add_sum_filter_not Finset.univ (fun d => numberBits d = 32),
      ← Finset.sum_filter_add_sum_filter_not Finset.univ (fun d => numberBits d = 32) fun d =>
        overlapCount (ruleset.map fun r => r.range d)]
    rw [Finset.sum_congr rfl fun d hd => hnarrow d (Finset.mem_filter.mp hd).2]
    simp

theorem prediction_eq_overlapSum_ports
    : prediction (numberBits 2) [portRule 0 0 5, portRule 1 3 10]
        =
      some (overlapSum [portRule 0 0 5, portRule 1 3 10]) :=
  (prediction_eq_overlapSum_iff (by simp) 2).mpr ⟨rfl, by decide +kernel⟩

def addressRule : Rule where
  pri := 0
  ruleId := 0
  range d _ := if d = 0 then .ofNat _ (2 ^ 32) else .ofNat _ 0

theorem not_prediction_addressRule
    : addressRule.Valid ∧ overlapSum [addressRule] = 11
        ∧ prediction (numberBits 2) [addressRule] = some 9
        ∧ prediction (numberBits 0) [addressRule] = none := by
  refine ⟨by decide, by decide +kernel, by decide +kernel, ?_⟩
  exact prediction_64 (by simp)

end Prediction

end SecFw.Acl
