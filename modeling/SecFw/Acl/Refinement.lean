import SecFw.Acl.BuildHSTree

/-!
This module relates the construction of the hyper-splitting tree to cutting a list of boxes at
medians: the rules are boxes labelled with their priorities, the trees are cut trees, and every
call with enough fuel returns a tree that is built from the boxes of its rule set.
-/

namespace SecFw.Acl

open Box (CutTree MedianCut)

abbrev Field (d : Fin DIM) : Type := Words (numWords d)

def Rule.box (r : Rule) : Box Field where
  lo d := r.range d 0
  hi d := r.range d 1

def Rule.labelled (r : Rule) : Nat × Box Field := (r.pri, r.box)

def boxes (ruleset : RuleSet) : List (Nat × Box Field) := ruleset.map Rule.labelled

def HsNode.cuts : HsNode → CutTree Field Nat
  | .leaf _ _ _ rule => .leaf rule
  | .node d2s _ p2s child0 child1 => .node d2s p2s child0.cuts child1.cuts

section Boxes

variable {ruleset : RuleSet} {d : Fin DIM} {lo hi : Words (numWords d)}

theorem mem_boxes {b : Nat × Box Field} : b ∈ boxes ruleset ↔ ∃ r ∈ ruleset, r.labelled = b :=
  List.mem_map

theorem boxes_eq_nil : boxes ruleset = [] ↔ ruleset = [] := List.map_eq_nil_iff

theorem boxes_map_fst : (boxes ruleset).map Prod.fst = ruleset.map Rule.pri := by
  rw [boxes, List.map_map]
  rfl

theorem boxes_proper (hvalid : ∀ r ∈ ruleset, r.Valid) : ∀ b ∈ boxes ruleset, b.2.Proper := by
  intro b hb
  rcases mem_boxes.mp hb with ⟨r, hr, rfl⟩
  exact hvalid r hr

theorem rangeEnds_zero : rangeEnds ruleset d 0 = Box.starts d (boxes ruleset) := by
  ext a
  simp only [rangeEnds, Box.mem_starts, List.mem_toFinset, List.mem_map, boxes, exists_exists_and_eq_and]
  rfl

theorem rangeEnds_one : rangeEnds ruleset d 1 = Box.ends d (boxes ruleset) := by
  ext a
  simp only [rangeEnds, Box.mem_ends, List.mem_toFinset, List.mem_map, boxes, exists_exists_and_eq_and]
  rfl

theorem card_rangeEnds
    : (rangeEnds ruleset d 0).card + (rangeEnds ruleset d 1).card = Box.events d (boxes ruleset) := by
  rw [rangeEnds_zero, rangeEnds_one, Box.events]

theorem compareBits128_eq_segPointCompare64128 (d : Fin DIM)
    : (compareBits128 : Words (numWords d) → Words (numWords d) → Int) = segPointCompare64128 := by
  funext a b
  unfold compareBits128
  split
  . next h =>
    have := numWords_pos d
    exact segPointCompare32_eq_of_one (by omega) a b
  . rfl

theorem overlaps_iff (r : Rule) : overlaps d lo hi r = true ↔ r.box.Meets d lo hi := by
  simp only [overlaps, compareBits_eq_segPointCompare64128, Bool.and_eq_true, decide_eq_true_iff]
  exact and_congr segPointCompare64128_le_zero segPointCompare64128_ge_zero

theorem Rule.setRange_zero_box (r : Rule) (w : Words (numWords d))
    : (r.setRange d 0 w).box = { r.box with lo := Function.update r.box.lo d w } := by
  ext d'
  all_goals
    by_cases hd : d' = d
    . subst hd
      simp [Rule.box, Rule.setRange]
    . simp [Rule.box, Rule.setRange, hd]

theorem Rule.setRange_one_box (r : Rule) (w : Words (numWords d))
    : (r.setRange d 1 w).box = { r.box with hi := Function.update r.box.hi d w } := by
  ext d'
  all_goals
    by_cases hd : d' = d
    . subst hd
      simp [Rule.box, Rule.setRange]
    . simp [Rule.box, Rule.setRange, hd]

theorem trimRule_box (r : Rule)
    : (trimRule d segPointCompare64128 lo hi r).box = r.box.clip d lo hi := by
  have hlo : (if segPointCompare64128 ((assignRuleList r).range d 0) lo < 0
        then (assignRuleList r).setRange d 0 lo else assignRuleList r).box
      = { r.box with lo := Function.update r.box.lo d (max (r.box.lo d) lo) } := by
    split
    . next h =>
      have hlt : r.box.lo d < lo := segPointCompare64128_lt_zero.mp h
      rw [Rule.setRange_zero_box, max_eq_right hlt.le]
      rfl
    . next h =>
      have hge : lo ≤ r.box.lo d := not_lt.mp (mt segPointCompare64128_lt_zero.mpr h)
      rw [max_eq_left hge, Function.update_eq_self]
      rfl
  simp only [trimRule]
  generalize (if segPointCompare64128 ((assignRuleList r).range d 0) lo < 0
    then (assignRuleList r).setRange d 0 lo else assignRuleList r) = r' at hlo ⊢
  have hhi : r'.range d 1 = r.box.hi d := by
    have := congrArg (fun b => b.hi d) hlo
    exact this
  split
  . next h =>
    have hlt : hi < r.box.hi d := hhi ▸ segPointCompare64128_gt_zero.mp h
    rw [Rule.setRange_one_box, hlo, Box.clip, min_eq_right hlt.le]
  . next h =>
    have hle : r.box.hi d ≤ hi := hhi ▸ not_lt.mp (mt segPointCompare64128_gt_zero.mpr h)
    rw [hlo, Box.clip, min_eq_left hle, Function.update_eq_self]

theorem trimRule_pri (cmp : Words (numWords d) → Words (numWords d) → Int) (r : Rule)
    : (trimRule d cmp lo hi r).pri = r.pri := by
  simp only [trimRule]
  split <;> split <;> rfl

theorem boxes_trim (ruleset : RuleSet)
    : boxes ((ruleset.filter (overlaps d lo hi)).map (trimRule d segPointCompare64128 lo hi))
        =
      Box.restrict d lo hi (boxes ruleset) := by
  have hfilter : (overlaps d lo hi) = ((fun b => decide (b.2.Meets d lo hi)) ∘ Rule.labelled) := by
    funext r
    rw [Bool.eq_iff_iff, overlaps_iff, Function.comp_apply, decide_eq_true_iff]
    rfl
  rw [Box.restrict, boxes, boxes, List.filter_map, ← hfilter, List.map_map, List.map_map]
  apply List.map_congr_left
  intro r _
  simp only [Function.comp_apply, Rule.labelled, trimRule_box, trimRule_pri]

theorem boxes_leftRules : boxes (leftRules ruleset d lo hi) = Box.restrict d lo hi (boxes ruleset) := by
  rw [leftRules, compareBits128_eq_segPointCompare64128]
  exact boxes_trim ruleset

theorem boxes_rightRules
    : boxes (rightRules ruleset d lo hi) = Box.restrict d lo hi (boxes ruleset) := by
  rw [rightRules, compareBits_eq_segPointCompare64128]
  exact boxes_trim ruleset

end Boxes

section Select

variable {ruleset : RuleSet}

structure Selects (ruleset : RuleSet) (dims : List (Fin DIM)) (sel : Selection) : Prop where
  events_le : ∀ d ∈ dims, Box.events d (boxes ruleset) ≤ sel.maxDiffSegPts_All
  count : sel.maxDiffSegPts_All ≤ 1
    ∨ countSegPoints ruleset sel.d2s = some (sel.maxDiffSegPts, sel.maxDiffSegPts_All)

theorem Selects.step {dims : List (Fin DIM)} {sel : Selection} (hne : ruleset ≠ [])
    (h : Selects ruleset dims sel) (d : Fin DIM)
    : ∃ sel', selectDim.step ruleset sel d = some sel' ∧ Selects ruleset (dims ++ [d]) sel' := by
  rcases countSegPoints_eq hne d with ⟨acc, pts, hcount, hcollected⟩
  have hall : acc.2 = Box.events d (boxes ruleset) := by
    rw [hcollected.all_eq, card_rangeEnds]
  simp only [selectDim.step, hcount, Option.bind_eq_bind, Option.bind_some]
  split
  . next hlt =>
    refine ⟨_, rfl, ?_, Or.inr hcount⟩
    intro d' hd'
    rw [List.mem_append, List.mem_singleton] at hd'
    rcases hd' with hd' | rfl
    . exact (h.events_le d' hd').trans hlt.le
    . exact hall.ge
  . next hge =>
    refine ⟨_, rfl, ?_, h.count⟩
    intro d' hd'
    rw [List.mem_append, List.mem_singleton] at hd'
    rcases hd' with hd' | rfl
    . exact h.events_le d' hd'
    . rw [← hall]
      exact not_lt.mp hge

theorem Selects.foldlM {dims : List (Fin DIM)} {sel : Selection} (hne : ruleset ≠ [])
    (h : Selects ruleset dims sel) (rest : List (Fin DIM))
    : ∃ sel', rest.foldlM (selectDim.step ruleset) sel = some sel'
        ∧ Selects ruleset (dims ++ rest) sel' := by
  induction rest generalizing dims sel with
  | nil => exact ⟨sel, rfl, by simpa using h⟩
  | cons d rest ih =>
    rcases h.step hne d with ⟨sel', hstep, h'⟩
    rcases ih h' with ⟨sel'', hfold, h''⟩
    refine ⟨sel'', ?_, by simpa using h''⟩
    simp only [List.foldlM_cons, hstep, Option.bind_eq_bind, Option.bind_some]
    exact hfold

theorem selectDim_spec (hne : ruleset ≠ [])
    : ∃ sel, selectDim ruleset = some sel ∧ Selects ruleset (List.finRange DIM) sel := by
  have hinit : Selects ruleset [] ⟨1, 1, 0⟩ := ⟨by simp, Or.inl le_rfl⟩
  exact hinit.foldlM hne (List.finRange DIM)

theorem Selects.same {sel : Selection} (h : Selects ruleset (List.finRange DIM) sel)
    (htwo : sel.maxDiffSegPts_All ≤ 2)
    : ∀ b ∈ boxes ruleset, ∀ b' ∈ boxes ruleset, b.2 = b'.2 := by
  apply Box.eq_of_events_le_two
  intro d
  exact (h.events_le d (List.mem_finRange d)).trans htwo

end Select

section Split

variable {ruleset : RuleSet}

def medianCut {d : Fin DIM} {split : Split}
    (h : SplitsAtMedian (numWords_le d) (rangeEnds ruleset d) split)
    (htwo : 2 < Box.events d (boxes ruleset)) : MedianCut (boxes ruleset) d where
  first := split.end' d 0 0
  below := split.end' d 0 1
  cut := split.end' d 1 0
  last := split.end' d 1 1
  first_mem := rangeEnds_zero ▸ h.first_mem
  last_mem := rangeEnds_one ▸ h.last_mem
  first_le := rangeEnds_zero ▸ h.first_le
  le_last := rangeEnds_one ▸ h.le_last
  covBy := h.covBy
  first_le_below := h.first_le_below
  cut_le_last := h.cut_le_last
  two_lt := htwo
  median := by
    have hmedian := h.median
    rw [card_rangeEnds, passedPoints, rangeEnds_zero, rangeEnds_one] at hmedian
    exact hmedian

theorem splitRuleset_eq {sel : Selection}
    (hcount : countSegPoints ruleset sel.d2s = some (sel.maxDiffSegPts, sel.maxDiffSegPts_All))
    : splitRuleset ruleset sel
        =
      splitRanges (numWords_le sel.d2s) (ruleset.map fun r => r.range sel.d2s) := by
  have hassign : assignSegmentPoints ruleset sel.d2s
      = assignPoints (rangePoints (ruleset.map fun r => r.range sel.d2s)) := by
    rw [assignSegmentPoints, assignPoints, numberBits_eq, segPoints_eq]
  rw [countSegPoints, segPoints_eq] at hcount
  simp only [Option.bind_eq_bind, Option.bind_eq_some_iff, Option.some.injEq,
    Prod.mk.injEq] at hcount
  rcases hcount with ⟨acc, hcollect, hpts, hall⟩
  simp only [splitRuleset, splitRanges, hassign, hcollect, Option.bind_eq_bind, Option.bind_some,
    hpts, hall]

theorem ranges_valid (hvalid : ∀ r ∈ ruleset, r.Valid) (d : Fin DIM)
    : ∀ range ∈ ruleset.map (fun r => r.range d), range 0 ≤ range 1 := by
  intro range hrange
  rcases List.mem_map.mp hrange with ⟨r, hr, rfl⟩
  exact hvalid r hr d

theorem splitRuleset_median {sel : Selection} (hne : ruleset ≠ [])
    (hvalid : ∀ r ∈ ruleset, r.Valid) (h : Selects ruleset (List.finRange DIM) sel)
    (htwo : 2 < sel.maxDiffSegPts_All)
    : ∃ split, splitRuleset ruleset sel = some split
        ∧ MedianSplit (numWords_le sel.d2s) (rangeEnds ruleset sel.d2s) split
        ∧ 2 < Box.events sel.d2s (boxes ruleset) := by
  have hcount := h.count.resolve_left (by omega)
  have hall : sel.maxDiffSegPts_All
      = (rangeEnds ruleset sel.d2s 0).card + (rangeEnds ruleset sel.d2s 1).card := by
    rcases countSegPoints_eq hne sel.d2s with ⟨acc, pts, hcount', hcollected⟩
    rw [hcount, Option.some.injEq, Prod.mk.injEq] at hcount'
    rw [hcount'.2, hcollected.all_eq]
  rw [splitRuleset_eq hcount, ← card_rangeEnds, ← hall, rangeEnds_eq]
  rcases splitRanges_median (numWords_le sel.d2s) (numWords_pos sel.d2s)
    (ranges_valid hvalid sel.d2s) (by rw [← rangeEnds_eq, ← hall]; exact htwo) with
    ⟨split, hsplit, hmedian⟩
  exact ⟨split, hsplit, hmedian, htwo⟩

theorem splitRuleset_spec {sel : Selection} (hne : ruleset ≠ [])
    (hvalid : ∀ r ∈ ruleset, r.Valid) (h : Selects ruleset (List.finRange DIM) sel)
    (htwo : 2 < sel.maxDiffSegPts_All)
    : ∃ split, splitRuleset ruleset sel = some split
        ∧ SplitsAtMedian (numWords_le sel.d2s) (rangeEnds ruleset sel.d2s) split
        ∧ 2 < Box.events sel.d2s (boxes ruleset) := by
  rcases splitRuleset_median hne hvalid h htwo with ⟨split, hsplit, hmedian, hevents⟩
  exact ⟨split, hsplit, hmedian.splitsAtMedian, hevents⟩

end Split

section Build

inductive HsNode.Stored : Nat → HsNode → Prop where
  | leaf {depth : Nat} {rule : List Nat} (hne : rule ≠ [])
    : Stored depth (.leaf 0 (UInt8.ofNat depth) (UInt16.ofNat rule.length) rule)
  | node {depth : Nat} {d2s : Fin DIM} {p2s : Words (numWords d2s)} {child0 child1 : HsNode}
      (h0 : Stored (depth + 1) child0) (h1 : Stored (depth + 1) child1)
    : Stored depth (.node d2s (UInt8.ofNat depth) p2s child0 child1)

structure Represents (ruleset : RuleSet) (depth : Nat) (root : HsNode) : Prop where
  built : CutTree.Built (boxes ruleset) root.cuts
  stored : root.Stored depth

theorem leafNode_represents {ruleset : RuleSet} (hne : ruleset ≠ [])
    (hsame : ∀ b ∈ boxes ruleset, ∀ b' ∈ boxes ruleset, b.2 = b'.2) (depth : Nat)
    : Represents ruleset depth (leafNode 0 ruleset depth) := by
  constructor
  . rw [leafNode, HsNode.cuts, ← boxes_map_fst]
    exact .leaf (mt boxes_eq_nil.mp hne) hsame
  . have hrule : ruleset.map Rule.pri ≠ [] := mt List.map_eq_nil_iff.mp hne
    have : HsNode.Stored depth _ := .leaf hrule
    rwa [List.length_map] at this

theorem node_represents {ruleset : RuleSet} {d2s : Fin DIM} {split : Split} {depth : Nat}
    {child0 child1 : HsNode}
    (h : SplitsAtMedian (numWords_le d2s) (rangeEnds ruleset d2s) split)
    (htwo : 2 < Box.events d2s (boxes ruleset))
    (h0 : Represents (leftRules ruleset d2s (split.end' d2s 0 0) (split.end' d2s 0 1)) (depth + 1)
      child0)
    (h1 : Represents (rightRules ruleset d2s (split.end' d2s 1 0) (split.end' d2s 1 1)) (depth + 1)
      child1)
    : Represents ruleset depth
        (.node d2s (UInt8.ofNat depth) (split.p2s.low (numWords_le d2s)) child0 child1) := by
  constructor
  . have hleft := h0.built
    have hright := h1.built
    rw [boxes_leftRules] at hleft
    rw [boxes_rightRules] at hright
    rw [HsNode.cuts, h.p2s_eq]
    exact .node (medianCut h htwo) hleft hright
  . exact .node h0.stored h1.stored

structure Descends (ruleset child : RuleSet) : Prop where
  nonempty : child ≠ []
  valid : ∀ r ∈ child, r.Valid
  potential : Box.potential (boxes child) < Box.potential (boxes ruleset)

section Children

variable {ruleset : RuleSet} {d : Fin DIM} {split : Split}
  (h : SplitsAtMedian (numWords_le d) (rangeEnds ruleset d) split)
  (htwo : 2 < Box.events d (boxes ruleset)) (hvalid : ∀ r ∈ ruleset, r.Valid)

include h htwo hvalid

theorem leftRules_descends
    : Descends ruleset (leftRules ruleset d (split.end' d 0 0) (split.end' d 0 1)) := by
  let m := medianCut h htwo
  have hproper := boxes_proper hvalid
  have hleft : boxes (leftRules ruleset d (split.end' d 0 0) (split.end' d 0 1)) = m.left :=
    boxes_leftRules
  constructor
  . rw [ne_eq, ← boxes_eq_nil, hleft]
    exact m.left_ne_nil hproper
  . intro r hr
    exact m.left_proper hproper _ (hleft ▸ mem_boxes.mpr ⟨r, hr, rfl⟩)
  . rw [hleft]
    exact m.potential_left_lt

theorem rightRules_descends
    : Descends ruleset (rightRules ruleset d (split.end' d 1 0) (split.end' d 1 1)) := by
  let m := medianCut h htwo
  have hproper := boxes_proper hvalid
  have hright : boxes (rightRules ruleset d (split.end' d 1 0) (split.end' d 1 1)) = m.right :=
    boxes_rightRules
  constructor
  . rw [ne_eq, ← boxes_eq_nil, hright]
    exact m.right_ne_nil hproper
  . intro r hr
    exact m.right_proper hproper _ (hright ▸ mem_boxes.mpr ⟨r, hr, rfl⟩)
  . rw [hright]
    exact m.potential_right_lt

end Children

theorem buildHSTree_spec {fuel : Nat} {ruleset : RuleSet} (hne : ruleset ≠ [])
    (hvalid : ∀ r ∈ ruleset, r.Valid) (hfuel : Box.potential (boxes ruleset) < fuel) (depth : Nat)
    : ∃ root, buildHSTree fuel ruleset depth = some root ∧ Represents ruleset depth root := by
  induction fuel generalizing ruleset depth with
  | zero => omega
  | succ fuel ih =>
    have hlen : ¬ ruleset.length ≤ Rule_Num_Threshold := by
      simpa [Rule_Num_Threshold] using hne
    rcases selectDim_spec hne with ⟨sel, hsel, hselects⟩
    simp only [buildHSTree, hlen, ↓reduceIte, hsel, Option.bind_eq_bind, Option.bind_some]
    split
    . next hall => exact ⟨_, rfl, leafNode_represents hne (hselects.same hall) depth⟩
    . next hall =>
      rcases splitRuleset_spec hne hvalid hselects (by omega) with ⟨split, hsplit, hmedian, htwo⟩
      have hleft := leftRules_descends hmedian htwo hvalid
      have hright := rightRules_descends hmedian htwo hvalid
      have hlt0 := hleft.potential
      have hlt1 := hright.potential
      rcases ih hleft.nonempty hleft.valid (by omega) (depth + 1) with ⟨child0, hchild0, h0⟩
      rcases ih hright.nonempty hright.valid (by omega) (depth + 1) with ⟨child1, hchild1, h1⟩
      refine ⟨_, ?_, node_represents hmedian htwo h0 h1⟩
      simp only [hsplit, Option.bind_some, hchild0, hchild1]

theorem exists_buildsHSTree {ruleset : RuleSet} (hne : ruleset ≠ [])
    (hvalid : ∀ r ∈ ruleset, r.Valid) (depth : Nat)
    : ∃ root, BuildsHSTree ruleset depth root ∧ Represents ruleset depth root := by
  rcases buildHSTree_spec hne hvalid (Nat.lt_succ_self _) depth with ⟨root, hbuild, hrep⟩
  exact ⟨root, ⟨_, hbuild⟩, hrep⟩

theorem BuildsHSTree.represents {ruleset : RuleSet} {depth : Nat} {root : HsNode}
    (h : BuildsHSTree ruleset depth root) (hne : ruleset ≠ []) (hvalid : ∀ r ∈ ruleset, r.Valid)
    : Represents ruleset depth root := by
  rcases exists_buildsHSTree hne hvalid depth with ⟨root', hbuild, hrep⟩
  rwa [h.unique hbuild]

end Build

end SecFw.Acl
