import SecFw.Acl.Compare

/-!
This module contains the two passes over the end points of one dimension: the count of different
end points that the choice of the split dimension is based on, and the collection of these points
with their flags.
-/

namespace SecFw.Acl

structure SegmentPt (n : Nat) where
  -- an end point of a range. Bit 0 of `flag` marks the start of some rule, bit 1 the end of some
  -- rule
  segmentpoint : Words n
  flag : Nat
  deriving DecidableEq, Repr

def compareBits (a b : Words n) : Int :=
  if 32 * n ≤ 32 then segPointCompare32 a b else segPointCompare64128 a b

def segPoints (ruleset : RuleSet) (d : Fin DIM) : List (Words (numWords d)) :=
  ruleset.flatMap fun r => [r.range d 0, r.range d 1]

def markPoint (cmp : Words n → Words n → Int) (p : Words n) (kind : Nat)
    : List (SegmentPt n) → Option (List (SegmentPt n) × Nat)
  | [] => some ([⟨p, kind⟩], 1)
  | q :: qs =>
    if cmp p q.segmentpoint = 0 then
      if q.flag = 3 ∨ q.flag = kind then
        some (q :: qs, 0)
      else if q.flag ||| kind ≠ 3 then
        none
      else
        some ({ q with flag := 3 } :: qs, 1)
    else do
      let (qs, inc) ← markPoint cmp p kind qs
      some (q :: qs, inc)

def scanPoints (cmp : Words n → Words n → Int) (num : Nat)
    : List (Words n) → List (SegmentPt n) × Nat → Option (List (SegmentPt n) × Nat)
  | [], acc => some acc
  | p :: ps, (temp, all) => do
    let (temp, inc) ← markPoint cmp p ((num &&& 1) + 1) temp
    scanPoints cmp (num + 1) ps (temp, all + inc)

def collectPoints (cmp : Words n → Words n → Int) (points : List (Words n))
    : Option (List (SegmentPt n) × Nat) :=
  match points with
  | [] => none
  | p :: ps => scanPoints cmp 1 ps ([⟨p, 1⟩], 1)

def countSegPoints (ruleset : RuleSet) (d : Fin DIM) : Option (Nat × Nat) := do
  -- `diffSegPts` and `diffSegPts_All` of dimension `d`
  let (temp, all) ← collectPoints compareBits (segPoints ruleset d)
  some (temp.length, all)

def assignSegmentPoints32 (points : List (Words n)) : Option (List (SegmentPt n)) :=
  (collectPoints segPointCompare32 points).map Prod.fst

def assignSegmentPoints64 (points : List (Words n)) : Option (List (SegmentPt n)) :=
  (collectPoints segPointCompare64128 points).map Prod.fst

def assignSegmentPoints128 (points : List (Words n)) : Option (List (SegmentPt n)) :=
  (collectPoints segPointCompare64128 points).map Prod.fst

def assignSegmentPoints (ruleset : RuleSet) (d : Fin DIM)
    : Option (List (SegmentPt (numWords d))) :=
  if numberBits d = 32 then
    assignSegmentPoints32 (segPoints ruleset d)
  else if numberBits d = 64 then
    assignSegmentPoints64 (segPoints ruleset d)
  else
    assignSegmentPoints128 (segPoints ruleset d)

theorem segPointCompare32_eq_of_one (hn : n = 1) (a b : Words n)
    : segPointCompare32 a b = segPointCompare64128 a b := by
  subst hn
  apply segPointCompare32_eq

theorem compareBits_eq (hn : 0 < n) (a b : Words n)
    : compareBits a b = segPointCompare64128 a b := by
  unfold compareBits
  split
  . apply segPointCompare32_eq_of_one
    omega
  . rfl

theorem compareBits_eq_segPointCompare64128 (d : Fin DIM)
    : (compareBits : Words (numWords d) → Words (numWords d) → Int) = segPointCompare64128 := by
  funext a b
  exact compareBits_eq (numWords_pos d) a b

section Mark

variable (M : Fin 2 → Finset (Words n))

def entry (x : Words n) : SegmentPt n where
  segmentpoint := x
  flag := (if x ∈ M 0 then 1 else 0) + (if x ∈ M 1 then 2 else 0)

def mark (k : Fin 2) (p : Words n) : Fin 2 → Finset (Words n) :=
  Function.update M k (insert p (M k))

theorem entry_mark_of_ne {k : Fin 2} {p x : Words n} (h : x ≠ p)
    : entry (mark M k p) x = entry M x := by
  fin_cases k <;> simp [entry, mark, h]

variable {M}

theorem markPoint_map_entry {k : Fin 2} {p : Words n} {pts : List (Words n)} (hnodup : pts.Nodup)
    (hpts : ∀ x ∈ pts, x ∈ M 0 ∨ x ∈ M 1) (hp : p ∈ pts ∨ (p ∉ M 0 ∧ p ∉ M 1))
    : markPoint segPointCompare64128 p (k.val + 1) (pts.map (entry M))
        =
      some ((if p ∈ pts then pts else pts ++ [p]).map (entry (mark M k p)),
        if p ∈ M k then 0 else 1) := by
  induction pts with
  | nil =>
    have hp : p ∉ M 0 ∧ p ∉ M 1 := by simpa using hp
    fin_cases k <;> simp [markPoint, entry, mark, hp]
  | cons q qs ih =>
    have hq := hpts q (by simp)
    rw [List.nodup_cons] at hnodup
    by_cases hpq : p = q
    . subst hpq
      have hrest : qs.map (entry (mark M k p)) = qs.map (entry M) := by
        apply List.map_congr_left
        intro x hx
        apply entry_mark_of_ne
        rintro rfl
        exact hnodup.1 hx
      simp only [List.map_cons, List.mem_cons, true_or, ↓reduceIte, hrest]
      -- the flag of the entry tells whether `p` was met as a start, as an end or as both
      by_cases h0 : p ∈ M 0
      all_goals
        by_cases h1 : p ∈ M 1
        all_goals fin_cases k <;> simp_all [markPoint, entry, mark]
    . have hne : entry (mark M k p) q = entry M q := entry_mark_of_ne M (Ne.symm hpq)
      have hp' : p ∈ qs ∨ (p ∉ M 0 ∧ p ∉ M 1) := by simpa [hpq] using hp
      have ih := ih hnodup.2 (fun x hx => hpts x (by simp [hx])) hp'
      have hcmp : segPointCompare64128 p (entry M q).segmentpoint ≠ 0 := by
        simpa [entry] using hpq
      simp only [List.map_cons, markPoint, hcmp, ↓reduceIte, ih]
      by_cases hmem : p ∈ qs <;> simp [hmem, hpq, hne]

structure Collected (M : Fin 2 → Finset (Words n)) (pts : List (Words n))
    (acc : List (SegmentPt n) × Nat) : Prop where
  temp_eq : acc.1 = pts.map (entry M)
  nodup : pts.Nodup
  mem_iff : ∀ x, x ∈ pts ↔ x ∈ M 0 ∨ x ∈ M 1
  all_eq : acc.2 = (M 0).card + (M 1).card

theorem card_mark (k : Fin 2) (p : Words n)
    : (mark M k p 0).card + (mark M k p 1).card
        =
      (M 0).card + (M 1).card + if p ∈ M k then 0 else 1 := by
  fin_cases k
  all_goals
    simp only [mark]
    by_cases h : p ∈ M 0 <;> by_cases h' : p ∈ M 1 <;> simp [h, h']
    all_goals omega

theorem Collected.step {pts : List (Words n)} {temp : List (SegmentPt n)} {all : Nat}
    (h : Collected M pts (temp, all)) (k : Fin 2) (p : Words n)
    : ∃ temp' inc pts', markPoint segPointCompare64128 p (k.val + 1) temp = some (temp', inc)
        ∧ Collected (mark M k p) pts' (temp', all + inc) := by
  have hp : p ∈ pts ∨ (p ∉ M 0 ∧ p ∉ M 1) := by
    have := h.mem_iff p
    tauto
  have hmark := markPoint_map_entry (k := k) h.nodup (fun x hx => (h.mem_iff x).mp hx) hp
  have htemp : temp = pts.map (entry M) := h.temp_eq
  refine ⟨_, _, _, by rw [htemp]; exact hmark, rfl, ?_, ?_, ?_⟩
  . split
    . exact h.nodup
    . next hmem =>
      rw [List.nodup_append]
      refine ⟨h.nodup, by simp, ?_⟩
      intro x hx y hy
      rw [List.mem_singleton] at hy
      rintro rfl
      exact hmem (hy ▸ hx)
  . intro x
    have hx := h.mem_iff x
    have hp := h.mem_iff p
    by_cases hmem : p ∈ pts
    all_goals
      by_cases hxp : x = p
      all_goals fin_cases k <;> simp_all [mark]
  . have hall : all = (M 0).card + (M 1).card := h.all_eq
    rw [card_mark, hall]

end Mark

def rangeEnds (ruleset : RuleSet) (d : Fin DIM) (k : Fin 2) : Finset (Words (numWords d)) :=
  (ruleset.map fun r => r.range d k).toFinset

def rangePoints (ranges : List (Fin 2 → Words n)) : List (Words n) :=
  ranges.flatMap fun r => [r 0, r 1]

def endsOf (ranges : List (Fin 2 → Words n)) (k : Fin 2) : Finset (Words n) :=
  (ranges.map fun r => r k).toFinset

theorem segPoints_eq (ruleset : RuleSet) (d : Fin DIM)
    : segPoints ruleset d = rangePoints (ruleset.map fun r => r.range d) := by
  rw [segPoints, rangePoints, List.flatMap_map]

theorem rangeEnds_eq (ruleset : RuleSet) (d : Fin DIM)
    : rangeEnds ruleset d = endsOf (ruleset.map fun r => r.range d) := by
  funext k
  rw [rangeEnds, endsOf, List.map_map]
  rfl

theorem scanPoints_rangePoints {M : Fin 2 → Finset (Words n)} {pts : List (Words n)}
    {acc : List (SegmentPt n) × Nat} (h : Collected M pts acc) (ranges : List (Fin 2 → Words n))
    (num : Nat) (hnum : num &&& 1 = 0)
    : ∃ acc' pts', scanPoints segPointCompare64128 num (rangePoints ranges) acc = some acc'
        ∧ Collected (fun k => M k ∪ endsOf ranges k) pts' acc' := by
  induction ranges generalizing M pts acc num with
  | nil => exact ⟨acc, pts, rfl, by simpa [endsOf] using h⟩
  | cons r rs ih =>
    rcases acc with ⟨temp, all⟩
    have hodd : (num + 1) &&& 1 = 1 := by
      rw [Nat.and_one_is_mod] at hnum ⊢
      omega
    have heven : (num + 2) &&& 1 = 0 := by
      rw [Nat.and_one_is_mod] at hnum ⊢
      omega
    rcases h.step 0 (r 0) with ⟨temp1, inc1, pts1, hmark1, h1⟩
    rcases h1.step 1 (r 1) with ⟨temp2, inc2, pts2, hmark2, h2⟩
    rcases ih h2 (num + 2) heven with ⟨acc', pts', hscan, h'⟩
    refine ⟨acc', pts', ?_, ?_⟩
    . simp only [rangePoints, List.flatMap_cons, List.cons_append, List.nil_append, scanPoints]
      simp only [hnum, hodd]
      simp only [Fin.val_zero, Fin.val_one] at hmark1 hmark2
      simp only [hmark1, hmark2, Option.bind_eq_bind, Option.bind_some]
      exact hscan
    . convert h' using 1
      funext k
      fin_cases k <;> ext x <;> simp [mark, endsOf]

theorem collected_nil : Collected (fun _ => ∅ : Fin 2 → Finset (Words n)) [] ([], 0) :=
  ⟨rfl, List.nodup_nil, by simp, by simp⟩

theorem collectPoints_rangePoints {ranges : List (Fin 2 → Words n)} (hne : ranges ≠ [])
    : ∃ acc pts, collectPoints segPointCompare64128 (rangePoints ranges) = some acc
        ∧ Collected (endsOf ranges) pts acc := by
  rcases scanPoints_rangePoints collected_nil ranges 0 rfl with ⟨acc, pts, hscan, h⟩
  refine ⟨acc, pts, ?_, by simpa using h⟩
  cases ranges with
  | nil => exact absurd rfl hne
  | cons r rs => exact hscan

theorem collectPoints_segPoints {ruleset : RuleSet} (hne : ruleset ≠ []) (d : Fin DIM)
    : ∃ acc pts, collectPoints segPointCompare64128 (segPoints ruleset d) = some acc
        ∧ Collected (rangeEnds ruleset d) pts acc := by
  rw [segPoints_eq, rangeEnds_eq]
  exact collectPoints_rangePoints (mt List.map_eq_nil_iff.mp hne)

theorem countSegPoints_eq {ruleset : RuleSet} (hne : ruleset ≠ []) (d : Fin DIM)
    : ∃ acc pts, countSegPoints ruleset d = some (acc.1.length, acc.2)
        ∧ Collected (rangeEnds ruleset d) pts acc := by
  rcases collectPoints_segPoints hne d with ⟨acc, pts, hcollect, h⟩
  refine ⟨acc, pts, ?_, h⟩
  simp [countSegPoints, compareBits_eq_segPointCompare64128, hcollect]

end SecFw.Acl
