import SecFw.Acl.SegPoints

/-!
This module contains the split decision of a tree node: the sort of the segment points, the search
of the middle point and the ranges of the two children.
-/

namespace SecFw.Acl

def tempSegPointCompare (a b : SegmentPt n) : Int :=
  -- `TempSegPointCompare32`, `TempSegPointCompare64` and `TempSegPointCompare128`
  compareWords a.segmentpoint.toList b.segmentpoint.toList

def sortPoints (points : List (SegmentPt n)) : List (SegmentPt n) :=
  points.insertionSort fun a b => tempSegPointCompare a b ≤ 0

def pickPoint (temp_pos : Nat) : Nat → List (SegmentPt n) → Option (SegmentPt n × Bool)
  | _, [] => none
  | pos_all, point :: points =>
    if pos_all < temp_pos then
      if point.flag = 3 then
        if pos_all + 1 = temp_pos then
          some (point, true)
        else
          pickPoint temp_pos (pos_all + 2) points
      else
        pickPoint temp_pos (pos_all + 1) points
    else
      some (point, false)

structure Split where
  -- `range[c][0]` and `range[c][1]` are the ends of the range of child `c`
  p2s : Words 4
  range : Fin 2 → Fin 2 → Words 4

def splitBefore (first p2s last : Words 4) : Split :=
  let before := subtract p2s
  let p2s := add before
  { p2s := p2s, range := ![![first, before], ![p2s, last]] }

def splitAfter (first p2s last : Words 4) : Split :=
  let after := add p2s
  { p2s := after, range := ![![first, p2s], ![after, last]] }

def splitPoints (hn : n ≤ 4) (points : List (SegmentPt n))
    (maxDiffSegPts maxDiffSegPts_All : Nat) : Option Split := do
  let first ← points[0]?
  let last ← points[maxDiffSegPts - 1]?
  let (point, flag_pos) ← pickPoint (maxDiffSegPts_All >>> 1) 0 points
  let first := assignDiffBits first.segmentpoint hn
  let last := assignDiffBits last.segmentpoint hn
  let p2s := assignDiffBits point.segmentpoint hn
  if point.flag = 1 then
    some (splitBefore first p2s last)
  else if point.flag = 2 then
    some (splitAfter first p2s last)
  else if flag_pos = false then
    some (splitBefore first p2s last)
  else
    some (splitAfter first p2s last)

section Order

variable {M : Fin 2 → Finset (Words n)} {pts : List (Words n)}

theorem tempSegPointCompare_le_zero (x y : Words n)
    : tempSegPointCompare (entry M x) (entry M y) ≤ 0 ↔ x ≤ y :=
  segPointCompare64128_le_zero

theorem sortPoints_map_entry (pts : List (Words n))
    : sortPoints (pts.map (entry M)) = (pts.insertionSort (· ≤ ·)).map (entry M) := by
  symm
  apply List.map_insertionSort
  intro x _ y _
  exact (tempSegPointCompare_le_zero x y).symm

theorem insertionSort_sortedLT (hnodup : pts.Nodup)
    : (pts.insertionSort (· ≤ ·)).Pairwise (· < ·) := by
  have hsorted := List.pairwise_insertionSort (· ≤ · : Words n → Words n → Prop) pts
  have hnodup : (pts.insertionSort (· ≤ ·)).Pairwise (· ≠ ·) :=
    (List.perm_insertionSort (· ≤ ·) pts).nodup_iff.mpr hnodup
  exact (hsorted.and hnodup).imp fun h => lt_of_le_of_ne h.1 h.2

end Order

section Pick

variable {M : Fin 2 → Finset (Words n)}

def passedPoints (M : Fin 2 → Finset (Words n)) (c : Words n) : Nat :=
  ((M 0).filter (· < c)).card + ((M 1).filter (· < c)).card

def weight (M : Fin 2 → Finset (Words n)) (x : Words n) : Nat :=
  (if x ∈ M 0 then 1 else 0) + (if x ∈ M 1 then 1 else 0)

theorem entry_flag_eq_three_iff {x : Words n} : (entry M x).flag = 3 ↔ x ∈ M 0 ∧ x ∈ M 1 := by
  simp only [entry]
  split <;> split <;> simp_all

theorem weight_of_both {x : Words n} (h : x ∈ M 0 ∧ x ∈ M 1) : weight M x = 2 := by
  simp [weight, h]

theorem weight_of_not_both {x : Words n} (h : x ∈ M 0 ∨ x ∈ M 1) (hboth : ¬ (x ∈ M 0 ∧ x ∈ M 1))
    : weight M x = 1 := by
  simp only [weight]
  split <;> split <;> simp_all

theorem sum_weight (pts : List (Words n)) (hnodup : pts.Nodup)
    : (pts.map (weight M)).sum
        =
      ((M 0).filter (· ∈ pts)).card + ((M 1).filter (· ∈ pts)).card := by
  have hcard (k : Fin 2) : ∑ x ∈ pts.toFinset, (if x ∈ M k then 1 else 0)
      = ((M k).filter (· ∈ pts)).card := by
    rw [← Finset.card_filter]
    congr 1
    ext x
    simp [and_comm]
  calc (pts.map (weight M)).sum
    _ = ∑ x ∈ pts.toFinset, ((if x ∈ M 0 then 1 else 0) + (if x ∈ M 1 then 1 else 0)) :=
      (List.sum_toFinset _ hnodup).symm
    _ = ((M 0).filter (· ∈ pts)).card + ((M 1).filter (· ∈ pts)).card := by
      rw [Finset.sum_add_distrib, hcard, hcard]

structure Sorted (M : Fin 2 → Finset (Words n)) (pts : List (Words n)) : Prop where
  pairwise : pts.Pairwise (· < ·)
  mem_iff : ∀ x, x ∈ pts ↔ x ∈ M 0 ∨ x ∈ M 1

theorem Sorted.nodup {pts : List (Words n)} (h : Sorted M pts) : pts.Nodup :=
  h.pairwise.imp fun hlt => hlt.ne

theorem Sorted.sum_weight_eq {pts : List (Words n)} (h : Sorted M pts)
    : (pts.map (weight M)).sum = (M 0).card + (M 1).card := by
  rw [sum_weight pts h.nodup]
  congr 2
  . apply Finset.filter_true_of_mem
    intro x hx
    exact (h.mem_iff x).mpr (Or.inl hx)
  . apply Finset.filter_true_of_mem
    intro x hx
    exact (h.mem_iff x).mpr (Or.inr hx)

theorem Sorted.passedPoints_eq {pre post : List (Words n)} (h : Sorted M (pre ++ post))
    {c : Words n} (hpre : ∀ x ∈ pre, x < c) (hpost : ∀ x ∈ post, c ≤ x)
    : passedPoints M c = (pre.map (weight M)).sum := by
  have hnodup : pre.Nodup := (List.nodup_append.mp h.nodup).1
  have hiff (k : Fin 2) (x : Words n) (hx : x ∈ M k) : x < c ↔ x ∈ pre := by
    have hmem : x ∈ pre ++ post := (h.mem_iff x).mpr (by fin_cases k <;> tauto)
    rw [List.mem_append] at hmem
    constructor
    . intro hlt
      cases hmem with
      | inl hin => exact hin
      | inr hin => exact absurd hlt (not_lt.mpr (hpost x hin))
    . exact hpre x
  rw [sum_weight pre hnodup, passedPoints]
  congr 2
  . exact Finset.filter_congr (hiff 0)
  . exact Finset.filter_congr (hiff 1)

theorem pickPoint_spec (temp_pos : Nat) (pre suf : List (Words n)) (h : Sorted M (pre ++ suf))
    (hle : (pre.map (weight M)).sum ≤ temp_pos)
    (hlt : temp_pos < ((pre ++ suf).map (weight M)).sum)
    : ∃ pre' p post flag_pos,
        pickPoint temp_pos (pre.map (weight M)).sum (suf.map (entry M))
          =
        some (entry M p, flag_pos)
          ∧ pre ++ suf = pre' ++ p :: post
          ∧ if flag_pos then (pre'.map (weight M)).sum + 1 = temp_pos ∧ p ∈ M 0 ∧ p ∈ M 1
            else (pre'.map (weight M)).sum = temp_pos := by
  induction suf generalizing pre with
  | nil =>
    rw [List.append_nil] at hlt
    omega
  | cons p post ih =>
    have hassoc : pre ++ p :: post = (pre ++ [p]) ++ post := by simp
    have hsum : ((pre ++ [p]).map (weight M)).sum = (pre.map (weight M)).sum + weight M p := by
      simp
    have hp := (h.mem_iff p).mp (by simp)
    have hnext := ih (pre ++ [p]) (hassoc ▸ h)
    rw [hsum, ← hassoc] at hnext
    rw [List.map_cons]
    by_cases hpos : (pre.map (weight M)).sum < temp_pos
    . by_cases hboth : p ∈ M 0 ∧ p ∈ M 1
      . have hflag := entry_flag_eq_three_iff.mpr hboth
        by_cases hend : (pre.map (weight M)).sum + 1 = temp_pos
        . refine ⟨pre, p, post, true, ?_, rfl, ?_⟩
          . rw [pickPoint, if_pos hpos, if_pos hflag, if_pos hend]
          . simpa using ⟨hend, hboth⟩
        . rw [weight_of_both hboth] at hnext
          rw [pickPoint, if_pos hpos, if_pos hflag, if_neg hend]
          exact hnext (by omega) hlt
      . have hflag := mt entry_flag_eq_three_iff.mp hboth
        rw [weight_of_not_both hp hboth] at hnext
        rw [pickPoint, if_pos hpos, if_neg hflag]
        exact hnext (by omega) hlt
    . refine ⟨pre, p, post, false, ?_, rfl, ?_⟩
      . rw [pickPoint, if_neg hpos]
      . simp only [Bool.false_eq_true, ↓reduceIte]
        omega

end Pick

section Decision

variable {M : Fin 2 → Finset (Words n)}

structure SplitsAtMedian (hn : n ≤ 4) (M : Fin 2 → Finset (Words n)) (split : Split) : Prop where
  p2s_eq : split.p2s.low hn = (split.range 1 0).low hn
  first_mem : (split.range 0 0).low hn ∈ M 0
  last_mem : (split.range 1 1).low hn ∈ M 1
  first_le : ∀ a ∈ M 0, (split.range 0 0).low hn ≤ a
  le_last : ∀ a ∈ M 1, a ≤ (split.range 1 1).low hn
  covBy : (split.range 0 1).low hn ⋖ (split.range 1 0).low hn
  first_le_below : (split.range 0 0).low hn ≤ (split.range 0 1).low hn
  cut_le_last : (split.range 1 0).low hn ≤ (split.range 1 1).low hn
  median : ((split.range 1 0).low hn ∈ M 0
        ∧ passedPoints M ((split.range 1 0).low hn) = ((M 0).card + (M 1).card) / 2)
      ∨ ((split.range 0 1).low hn ∈ M 1
        ∧ passedPoints M ((split.range 1 0).low hn) = ((M 0).card + (M 1).card) / 2 + 1)

@[simp]
theorem low_widen (hn : n ≤ 4) (a : Words n) : (assignDiffBits a hn).low hn = a := by
  rw [Words.eq_iff_val, assignDiffBits, Words.val_low_of_lt, Words.val_widen]
  rw [Words.val_widen]
  exact a.val_lt

theorem val_low_subtract (hn : n ≤ 4) {a : Words n} (h : 0 < a.val)
    : ((subtract (assignDiffBits a hn)).low hn).val + 1 = a.val := by
  have hsub := val_subtract (assignDiffBits a hn) (by simpa [assignDiffBits] using h)
  have hlt := a.val_lt
  rw [assignDiffBits, Words.val_widen] at hsub
  rw [Words.val_low_of_lt, assignDiffBits]
  . exact hsub
  . rw [assignDiffBits]
    omega

theorem low_add_subtract (hn : n ≤ 4) {a : Words n} (h : 0 < a.val)
    : (add (subtract (assignDiffBits a hn))).low hn = a := by
  rw [add_subtract _ (by simpa using h), low_widen]

theorem val_low_add (hn : n ≤ 4) {a b : Words n} (h : a < b)
    : ((add (assignDiffBits a hn)).low hn).val = a.val + 1 := by
  have hb := b.val_lt
  have hpow : Words.radix ^ n ≤ Words.radix ^ 4 := Nat.pow_le_pow_right (by decide) hn
  rw [Words.lt_iff_val] at h
  have hadd := val_add (assignDiffBits a hn) (by
    rw [assignDiffBits, Words.val_widen]
    omega)
  rw [assignDiffBits, Words.val_widen] at hadd
  rw [Words.val_low_of_lt, assignDiffBits, hadd]
  rw [assignDiffBits, hadd]
  omega

structure Hull (M : Fin 2 → Finset (Words n)) (first last : Words n) : Prop where
  first_mem : first ∈ M 0
  last_mem : last ∈ M 1
  first_le : ∀ a ∈ M 0, first ≤ a
  le_last : ∀ a ∈ M 1, a ≤ last

theorem Sorted.hull {pts : List (Words n)} (h : Sorted M pts) (hne : pts ≠ [])
    (hstart : ∀ e ∈ M 1, ∃ a ∈ M 0, a ≤ e) (hend : ∀ a ∈ M 0, ∃ e ∈ M 1, a ≤ e)
    : Hull M (pts.head hne) (pts.getLast hne) := by
  have hpairwise : pts.Pairwise (· ≤ ·) := h.pairwise.imp fun hlt => hlt.le
  have hhead : ∀ x ∈ pts, pts.head hne ≤ x := by
    intro x hx
    exact hpairwise.rel_head hx
  have hlast : ∀ x ∈ pts, x ≤ pts.getLast hne := by
    intro x hx
    exact hpairwise.rel_getLast hx
  refine ⟨?_, ?_, fun a ha => hhead a ((h.mem_iff a).mpr (Or.inl ha)),
    fun a ha => hlast a ((h.mem_iff a).mpr (Or.inr ha))⟩
  . cases (h.mem_iff _).mp (pts.head_mem hne) with
    | inl hmem => exact hmem
    | inr hmem =>
      rcases hstart _ hmem with ⟨a, ha, hle⟩
      have := hhead a ((h.mem_iff a).mpr (Or.inl ha))
      rwa [le_antisymm this hle]
  . cases (h.mem_iff _).mp (pts.getLast_mem hne) with
    | inl hmem =>
      rcases hend _ hmem with ⟨e, he, hle⟩
      have := hlast e ((h.mem_iff e).mpr (Or.inr he))
      rwa [le_antisymm hle this]
    | inr hmem => exact hmem

theorem splitBefore_splitsAtMedian (hn : n ≤ 4) {first p last : Words n} (hull : Hull M first last)
    (hfirst : first < p) (hlast : p ≤ last) (hp : p ∈ M 0)
    (hpassed : passedPoints M p = ((M 0).card + (M 1).card) / 2)
    : SplitsAtMedian hn M
        (splitBefore (assignDiffBits first hn) (assignDiffBits p hn) (assignDiffBits last hn)) := by
  have hpos : 0 < p.val := by
    rw [Words.lt_iff_val] at hfirst
    omega
  have hbelow := val_low_subtract hn hpos
  have hcut := low_add_subtract hn hpos
  constructor
  case p2s_eq => rfl
  all_goals
    simp only [splitBefore, Matrix.cons_val_zero, Matrix.cons_val_one, low_widen, hcut]
  case first_mem => exact hull.first_mem
  case last_mem => exact hull.last_mem
  case first_le => exact hull.first_le
  case le_last => exact hull.le_last
  case covBy => exact Words.covBy_of_val hbelow
  case first_le_below =>
    rw [Words.lt_iff_val] at hfirst
    rw [Words.le_iff_val]
    omega
  case cut_le_last => exact hlast
  case median => exact Or.inl ⟨hp, hpassed⟩

theorem splitAfter_splitsAtMedian (hn : n ≤ 4) {first p last : Words n} (hull : Hull M first last)
    (hfirst : first ≤ p) (hlast : p < last) (hp : p ∈ M 1)
    (hpassed : ∀ c, p ⋖ c → passedPoints M c = ((M 0).card + (M 1).card) / 2 + 1)
    : SplitsAtMedian hn M
        (splitAfter (assignDiffBits first hn) (assignDiffBits p hn) (assignDiffBits last hn)) := by
  have hval := val_low_add hn hlast
  have hcovBy : p ⋖ (add (assignDiffBits p hn)).low hn := Words.covBy_of_val hval.symm
  constructor
  case p2s_eq => rfl
  all_goals
    simp only [splitAfter, Matrix.cons_val_zero, Matrix.cons_val_one, low_widen]
  case first_mem => exact hull.first_mem
  case last_mem => exact hull.last_mem
  case first_le => exact hull.first_le
  case le_last => exact hull.le_last
  case covBy => exact hcovBy
  case first_le_below => exact hfirst
  case cut_le_last => exact hcovBy.ge_of_gt hlast
  case median => exact Or.inr ⟨hp, hpassed _ hcovBy⟩

inductive MedianSplit (hn : n ≤ 4) (M : Fin 2 → Finset (Words n)) : Split → Prop where
  | before {first p last : Words n} (hull : Hull M first last) (hfirst : first < p)
      (hlast : p ≤ last) (hp : p ∈ M 0)
      (hpassed : passedPoints M p = ((M 0).card + (M 1).card) / 2)
    : MedianSplit hn M
        (splitBefore (assignDiffBits first hn) (assignDiffBits p hn) (assignDiffBits last hn))
  | after {first p last : Words n} (hull : Hull M first last) (hfirst : first ≤ p)
      (hlast : p < last) (hp : p ∈ M 1)
      (hpassed : ∀ c, p ⋖ c → passedPoints M c = ((M 0).card + (M 1).card) / 2 + 1)
    : MedianSplit hn M
        (splitAfter (assignDiffBits first hn) (assignDiffBits p hn) (assignDiffBits last hn))

theorem MedianSplit.splitsAtMedian {hn : n ≤ 4} {split : Split} (h : MedianSplit hn M split)
    : SplitsAtMedian hn M split := by
  cases h with
  | before hull hfirst hlast hp hpassed =>
    exact splitBefore_splitsAtMedian hn hull hfirst hlast hp hpassed
  | after hull hfirst hlast hp hpassed =>
    exact splitAfter_splitsAtMedian hn hull hfirst hlast hp hpassed

theorem passedPoints_at {pre post : List (Words n)} {p : Words n}
    (h : Sorted M (pre ++ p :: post)) : passedPoints M p = (pre.map (weight M)).sum := by
  have hpairwise := List.pairwise_append.mp h.pairwise
  apply h.passedPoints_eq
  . intro x hx
    exact hpairwise.2.2 x hx p (by simp)
  . intro x hx
    cases List.mem_cons.mp hx with
    | inl heq => exact heq.ge
    | inr hin => exact (List.rel_of_pairwise_cons hpairwise.2.1 hin).le

theorem passedPoints_after {pre post : List (Words n)} {p c : Words n}
    (h : Sorted M (pre ++ p :: post)) (hc : p ⋖ c)
    : passedPoints M c = (pre.map (weight M)).sum + weight M p := by
  have hpairwise := List.pairwise_append.mp h.pairwise
  have hassoc : pre ++ p :: post = (pre ++ [p]) ++ post := by simp
  rw [hassoc] at h
  rw [h.passedPoints_eq]
  . simp
  . intro x hx
    cases List.mem_append.mp hx with
    | inl hin => exact (hpairwise.2.2 x hin p (by simp)).trans hc.lt
    | inr hin =>
      rw [List.mem_singleton] at hin
      exact hin ▸ hc.lt
  . intro x hx
    exact hc.ge_of_gt (List.rel_of_pairwise_cons hpairwise.2.1 hx)

theorem Sorted.head_lt {pre post : List (Words n)} {p : Words n} (h : Sorted M (pre ++ p :: post))
    (hne : pre ≠ []) : (pre ++ p :: post).head (by simp) < p := by
  rw [List.head_append_of_ne_nil hne]
  exact (List.pairwise_append.mp h.pairwise).2.2 _ (pre.head_mem hne) p (by simp)

theorem Sorted.lt_getLast {pre post : List (Words n)} {p : Words n}
    (h : Sorted M (pre ++ p :: post)) (hne : post ≠ [])
    : p < (pre ++ p :: post).getLast (by simp) := by
  have hpost := (List.pairwise_append.mp h.pairwise).2.1
  rw [List.getLast_append_of_ne_nil _ (by simp), List.getLast_cons hne]
  exact List.rel_of_pairwise_cons hpost (post.getLast_mem hne)

theorem Sorted.bounds {pts : List (Words n)} {p : Words n} (h : Sorted M pts) (hne : pts ≠ [])
    (hp : p ∈ pts) : pts.head hne ≤ p ∧ p ≤ pts.getLast hne := by
  have hpairwise : pts.Pairwise (· ≤ ·) := h.pairwise.imp fun hlt => hlt.le
  exact ⟨hpairwise.rel_head hp, hpairwise.rel_getLast hp⟩

theorem Sorted.median_before (hn : n ≤ 4) {pre post : List (Words n)} {p : Words n}
    (h : Sorted M (pre ++ p :: post))
    (hull : Hull M ((pre ++ p :: post).head (by simp)) ((pre ++ p :: post).getLast (by simp)))
    (htwo : 2 < (M 0).card + (M 1).card) (hp : p ∈ M 0)
    (hpassed : (pre.map (weight M)).sum = ((M 0).card + (M 1).card) / 2)
    : MedianSplit hn M
        (splitBefore (assignDiffBits ((pre ++ p :: post).head (by simp)) hn) (assignDiffBits p hn)
          (assignDiffBits ((pre ++ p :: post).getLast (by simp)) hn)) := by
  have hpre : pre ≠ [] := by
    rintro rfl
    rw [List.map_nil, List.sum_nil] at hpassed
    omega
  refine .before hull (h.head_lt hpre) (h.bounds (by simp) (by simp)).2 hp ?_
  rw [passedPoints_at h, hpassed]

theorem Sorted.median_after (hn : n ≤ 4) {pre post : List (Words n)} {p : Words n}
    (h : Sorted M (pre ++ p :: post))
    (hull : Hull M ((pre ++ p :: post).head (by simp)) ((pre ++ p :: post).getLast (by simp)))
    (htwo : 2 < (M 0).card + (M 1).card) (hp : p ∈ M 1)
    (hpassed : (pre.map (weight M)).sum + weight M p = ((M 0).card + (M 1).card) / 2 + 1)
    : MedianSplit hn M
        (splitAfter (assignDiffBits ((pre ++ p :: post).head (by simp)) hn) (assignDiffBits p hn)
          (assignDiffBits ((pre ++ p :: post).getLast (by simp)) hn)) := by
  have htotal := h.sum_weight_eq
  rw [List.map_append, List.map_cons, List.sum_append, List.sum_cons, ← Nat.add_assoc] at htotal
  have hpost : post ≠ [] := by
    rintro rfl
    rw [List.map_nil, List.sum_nil] at htotal
    omega
  refine .after hull (h.bounds (by simp) (by simp)).1 (h.lt_getLast hpost) hp ?_
  intro c hc
  rw [passedPoints_after h hc, hpassed]

theorem splitPoints_median (hn : n ≤ 4) {pts : List (Words n)} (h : Sorted M pts)
    (htwo : 2 < (M 0).card + (M 1).card) (hstart : ∀ e ∈ M 1, ∃ a ∈ M 0, a ≤ e)
    (hend : ∀ a ∈ M 0, ∃ e ∈ M 1, a ≤ e)
    : ∃ split, splitPoints hn (pts.map (entry M)) pts.length ((M 0).card + (M 1).card) = some split
        ∧ MedianSplit hn M split := by
  have hsum := h.sum_weight_eq
  rcases pickPoint_spec (((M 0).card + (M 1).card) / 2) [] pts h (by simp)
    (by rw [List.nil_append, hsum]; omega) with ⟨pre, p, post, flag_pos, hpick, heq, hcase⟩
  rw [List.nil_append] at heq
  subst heq
  have hne : pre ++ p :: post ≠ [] := by simp
  have hull := h.hull hne hstart hend
  have hfirst : ((pre ++ p :: post).map (entry M))[0]?
      = some (entry M ((pre ++ p :: post).head hne)) := by
    rw [← List.head?_eq_getElem?, List.head?_map, List.head?_eq_some_head hne]
    rfl
  have hlast : ((pre ++ p :: post).map (entry M))[(pre ++ p :: post).length - 1]?
      = some (entry M ((pre ++ p :: post).getLast hne)) := by
    rw [List.getElem?_map, ← List.getLast?_eq_getElem?, List.getLast?_eq_some_getLast hne]
    rfl
  simp only [List.map_nil, List.sum_nil] at hpick
  simp only [splitPoints, hfirst, hlast, Nat.shiftRight_one, hpick, Option.bind_eq_bind,
    Option.bind_some]
  have hp := (h.mem_iff p).mp (by simp)
  cases flag_pos with
  | true =>
    simp only [↓reduceIte] at hcase
    have hweight := weight_of_both hcase.2
    have hflag := entry_flag_eq_three_iff.mpr hcase.2
    refine ⟨_, by simp [hflag]; rfl, h.median_after hn hull htwo hcase.2.2 ?_⟩
    omega
  | false =>
    simp only [Bool.false_eq_true, ↓reduceIte] at hcase
    by_cases h0 : p ∈ M 0
    . have hflag : (entry M p).flag = 1 ∨ (entry M p).flag = 3 := by
        by_cases h1 : p ∈ M 1 <;> simp [entry, h0, h1]
      refine ⟨_, ?_, h.median_before hn hull htwo h0 hcase⟩
      cases hflag with
      | inl hflag => simp [hflag]; rfl
      | inr hflag => simp [hflag]; rfl
    . have h1 : p ∈ M 1 := by tauto
      have hflag : (entry M p).flag = 2 := by simp [entry, h0, h1]
      have hweight := weight_of_not_both hp (by tauto)
      refine ⟨_, by simp [hflag]; rfl, h.median_after hn hull htwo h1 ?_⟩
      rw [hcase, hweight]

end Decision

section Ranges

def assignPoints (points : List (Words n)) : Option (List (SegmentPt n)) :=
  if 32 * n = 32 then
    assignSegmentPoints32 points
  else if 32 * n = 64 then
    assignSegmentPoints64 points
  else
    assignSegmentPoints128 points

def splitRanges (hn : n ≤ 4) (ranges : List (Fin 2 → Words n)) : Option Split := do
  let (tempSegPoints, diffSegPts_All) ← collectPoints compareBits (rangePoints ranges)
  let tempPoints ← assignPoints (rangePoints ranges)
  splitPoints hn (sortPoints tempPoints) tempSegPoints.length diffSegPts_All

variable {ranges : List (Fin 2 → Words n)}

theorem assignPoints_eq (points : List (Words n))
    : assignPoints points = (collectPoints segPointCompare64128 points).map Prod.fst := by
  unfold assignPoints
  split
  . next h32 =>
    have hcmp : (segPointCompare32 : Words n → Words n → Int) = segPointCompare64128 := by
      funext a b
      exact segPointCompare32_eq_of_one (by omega) a b
    rw [assignSegmentPoints32, hcmp]
  . split <;> rfl

theorem exists_start_le (hvalid : ∀ r ∈ ranges, r 0 ≤ r 1)
    : ∀ e ∈ endsOf ranges 1, ∃ a ∈ endsOf ranges 0, a ≤ e := by
  intro e he
  simp only [endsOf, List.mem_toFinset, List.mem_map] at he ⊢
  rcases he with ⟨r, hr, rfl⟩
  exact ⟨_, ⟨r, hr, rfl⟩, hvalid r hr⟩

theorem exists_le_end (hvalid : ∀ r ∈ ranges, r 0 ≤ r 1)
    : ∀ a ∈ endsOf ranges 0, ∃ e ∈ endsOf ranges 1, a ≤ e := by
  intro a ha
  simp only [endsOf, List.mem_toFinset, List.mem_map] at ha ⊢
  rcases ha with ⟨r, hr, rfl⟩
  exact ⟨_, ⟨r, hr, rfl⟩, hvalid r hr⟩

theorem splitRanges_median (hn : n ≤ 4) (hpos : 0 < n) (hvalid : ∀ r ∈ ranges, r 0 ≤ r 1)
    (htwo : 2 < (endsOf ranges 0).card + (endsOf ranges 1).card)
    : ∃ split, splitRanges hn ranges = some split ∧ MedianSplit hn (endsOf ranges) split := by
  have hne : ranges ≠ [] := by
    rintro rfl
    simp [endsOf] at htwo
  have hcmp : (compareBits : Words n → Words n → Int) = segPointCompare64128 := by
    funext a b
    exact compareBits_eq hpos a b
  rcases collectPoints_rangePoints hne with ⟨acc, pts, hcollect, hcollected⟩
  have hsorted : Sorted (endsOf ranges) (pts.insertionSort (· ≤ ·)) := by
    constructor
    . exact insertionSort_sortedLT hcollected.nodup
    . intro x
      rw [List.mem_insertionSort]
      exact hcollected.mem_iff x
  rcases splitPoints_median hn hsorted htwo (exists_start_le hvalid) (exists_le_end hvalid) with
    ⟨split, hsplit, hmedian⟩
  refine ⟨split, ?_, hmedian⟩
  rw [List.length_insertionSort, ← sortPoints_map_entry, ← hcollected.temp_eq,
    ← hcollected.all_eq] at hsplit
  have hlength : acc.1.length = pts.length := by rw [hcollected.temp_eq, List.length_map]
  simp only [splitRanges, hcmp, assignPoints_eq, hcollect, Option.map_some, Option.bind_eq_bind,
    Option.bind_some, hlength]
  exact hsplit

end Ranges

end SecFw.Acl
