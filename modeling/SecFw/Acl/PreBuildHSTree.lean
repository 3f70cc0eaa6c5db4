import SecFw.Acl.Lookup

/-!
This module contains the second copy of the tree construction, which runs under a time limit. It
differs from the first one in the index of the copy of the split point, so that the two agree on the
rule sets that are only split at points whose words are all the same.
-/

namespace SecFw.Acl

def copyIndex : Nat := numberBits (Fin.last 10) >>> 5

def copyP2s (n i : Nat) (p2s : Words 4) : Option (Words n) := do
  let word ← p2s.toList[i + 4 - n]?
  some ⟨List.replicate n word, List.length_replicate⟩

def preBuildHSTree : Nat → RuleSet → Nat → Option HsNode
  -- `PreBuildHSTree` while the time limit is not reached
  | 0, _, _ => none
  | fuel + 1, ruleset, depth =>
    if ruleset.length ≤ Rule_Num_Threshold then
      some (leafNode 1 ruleset depth)
    else do
      let sel ← selectDim ruleset
      let d2s := sel.d2s
      if sel.maxDiffSegPts_All ≤ 2 then
        some (leafNode 0 ruleset depth)
      else
        let split ← splitRuleset ruleset sel
        -- the other copy has `split.p2s.low` here
        let p2s ← copyP2s (numWords d2s) copyIndex split.p2s
        let left := leftRules ruleset d2s (split.end' d2s 0 0) (split.end' d2s 0 1)
        let child0 ← preBuildHSTree fuel left (depth + 1)
        let right := rightRules ruleset d2s (split.end' d2s 1 0) (split.end' d2s 1 1)
        let child1 ← preBuildHSTree fuel right (depth + 1)
        some (.node d2s (UInt8.ofNat depth) p2s child0 child1)

def PreBuildsHSTree (ruleset : RuleSet) (depth : Nat) (root : HsNode) : Prop :=
  ∃ fuel, preBuildHSTree fuel ruleset depth = some root

def TwoEqualWords (a : Words n) : Prop := ∃ w, a.toList = [w, w]

/--
All splits of the rule set are in the dimensions of 64 bits, at points whose two words are the same.
-/
inductive EqualWordSplits : RuleSet → Prop where
  | leaf {ruleset : RuleSet} {sel : Selection} (hsel : selectDim ruleset = some sel)
      (hall : sel.maxDiffSegPts_All ≤ 2) : EqualWordSplits ruleset
  | node {ruleset : RuleSet} {sel : Selection} {split : Split}
      (hsel : selectDim ruleset = some sel) (hall : ¬ sel.maxDiffSegPts_All ≤ 2)
      (hsplit : splitRuleset ruleset sel = some split)
      (hwords : TwoEqualWords (split.p2s.low (numWords_le sel.d2s)))
      (hleft : EqualWordSplits
        (leftRules ruleset sel.d2s (split.end' sel.d2s 0 0) (split.end' sel.d2s 0 1)))
      (hright : EqualWordSplits
        (rightRules ruleset sel.d2s (split.end' sel.d2s 1 0) (split.end' sel.d2s 1 1)))
    : EqualWordSplits ruleset

theorem copyP2s_eq_low_iff {n : Nat} (hn : n = 1 ∨ n = 2) (p2s : Words 4) (hle : n ≤ 4)
    : copyP2s n copyIndex p2s = some (p2s.low hle) ↔ TwoEqualWords (p2s.low hle) := by
  rcases p2s with ⟨ws, hlen⟩
  match ws, hlen with
  | [w0, w1, w2, w3], _ =>
    rcases hn with rfl | rfl
    . simp [copyP2s, copyIndex, numberBits, FLAG, BITNUMBER, TwoEqualWords, Words.low]
    . simp [copyP2s, copyIndex, numberBits, FLAG, BITNUMBER, TwoEqualWords, Words.low, eq_comm]

theorem numWords_eq (d : Fin DIM) : numWords d = 1 ∨ numWords d = 2 := by
  revert d
  decide

theorem EqualWordSplits.preBuildHSTree_eq {fuel : Nat} {ruleset : RuleSet}
    (h : EqualWordSplits ruleset) (depth : Nat)
    : preBuildHSTree fuel ruleset depth = buildHSTree fuel ruleset depth := by
  induction fuel generalizing ruleset depth with
  | zero => rfl
  | succ fuel ih =>
    unfold preBuildHSTree buildHSTree
    split
    . rfl
    . cases h with
      | leaf hsel hall => simp only [hsel, Option.bind_eq_bind, Option.bind_some, if_pos hall]
      | node hsel hall hsplit hwords hleft hright =>
        have hcopy := (copyP2s_eq_low_iff (numWords_eq _) _ _).mpr hwords
        simp only [hsel, Option.bind_eq_bind, Option.bind_some, if_neg hall, hsplit, hcopy,
          ih hleft, ih hright]

theorem equalWordSplits_of_buildHSTree {fuel fuel' : Nat} {ruleset : RuleSet} {depth : Nat}
    {root : HsNode} (hne : ruleset ≠ []) (hvalid : ∀ r ∈ ruleset, r.Valid)
    (hbuild : buildHSTree fuel ruleset depth = some root)
    (hpre : preBuildHSTree fuel' ruleset depth = some root) : EqualWordSplits ruleset := by
  induction fuel generalizing fuel' ruleset depth root with
  | zero => simp [buildHSTree] at hbuild
  | succ fuel ih =>
    cases fuel' with
    | zero => simp [preBuildHSTree] at hpre
    | succ fuel' =>
      have hlen : ¬ ruleset.length ≤ Rule_Num_Threshold := by
        simpa [Rule_Num_Threshold] using hne
      rcases selectDim_spec hne with ⟨sel, hsel, hselects⟩
      unfold buildHSTree at hbuild
      unfold preBuildHSTree at hpre
      simp only [if_neg hlen, hsel, Option.bind_eq_bind, Option.bind_some] at hbuild hpre
      by_cases hall : sel.maxDiffSegPts_All ≤ 2
      . exact .leaf hsel hall
      . rcases splitRuleset_spec hne hvalid hselects (by omega) with ⟨split, hsplit, hmedian, htwo⟩
        rw [if_neg hall] at hbuild hpre
        simp only [hsplit, Option.bind_some, Option.bind_eq_some_iff, Option.some.injEq]
          at hbuild hpre
        rcases hbuild with ⟨child0, hchild0, child1, hchild1, hroot⟩
        rcases hpre with ⟨p2s, hcopy, child0', hchild0', child1', hchild1', hroot'⟩
        rw [← hroot, HsNode.node.injEq] at hroot'
        rcases hroot' with ⟨-, -, hp2s, rfl, rfl⟩
        rw [heq_iff_eq] at hp2s
        have hleft := leftRules_descends hmedian htwo hvalid
        have hright := rightRules_descends hmedian htwo hvalid
        refine .node hsel hall hsplit ?_ ?_ ?_
        . rw [← copyP2s_eq_low_iff (numWords_eq _), hcopy, hp2s]
        . exact ih hleft.nonempty hleft.valid hchild0 hchild0'
        . exact ih hright.nonempty hright.valid hchild1 hchild1'

/-- Both copies return the same tree exactly when no split has two different words. -/
theorem preBuildHSTree_eq_iff {ruleset : RuleSet} (hne : ruleset ≠ [])
    (hvalid : ∀ r ∈ ruleset, r.Valid) (depth : Nat)
    : (∃ root, BuildsHSTree ruleset depth root ∧ PreBuildsHSTree ruleset depth root)
        ↔ EqualWordSplits ruleset := by
  constructor
  . rintro ⟨root, ⟨fuel, hbuild⟩, fuel', hpre⟩
    exact equalWordSplits_of_buildHSTree hne hvalid hbuild hpre
  . intro h
    rcases exists_buildsHSTree hne hvalid depth with ⟨root, ⟨fuel, hbuild⟩, -⟩
    exact ⟨root, ⟨fuel, hbuild⟩, fuel, (h.preBuildHSTree_eq depth).trans hbuild⟩

def macRule (pri lo hi : Nat) : Rule where
  pri := pri
  ruleId := pri
  range d k := if d = 0 then .ofNat _ (if k = 0 then lo else hi) else .ofNat _ 0

theorem preBuildHSTree_eq_iff_macs
    : (∃ root, BuildsHSTree [macRule 0 0 5, macRule 1 6 10] 0 root
          ∧ PreBuildsHSTree [macRule 0 0 5, macRule 1 6 10] 0 root)
        ↔ EqualWordSplits [macRule 0 0 5, macRule 1 6 10] :=
  preBuildHSTree_eq_iff (by simp) (by decide) 0

def HsNode.splitWords : HsNode → List UInt32
  | .leaf .. => []
  | .node _ _ p2s _ _ => p2s.toList

theorem preBuildHSTree_ne_macs
    : (∀ r ∈ [macRule 0 0 5, macRule 1 6 10], r.Valid)
        ∧ ¬ ∃ root, BuildsHSTree [macRule 0 0 5, macRule 1 6 10] 0 root
          ∧ PreBuildsHSTree [macRule 0 0 5, macRule 1 6 10] 0 root := by
  refine ⟨by decide, ?_⟩
  rintro ⟨root, ⟨fuel, hbuild⟩, fuel', hpre⟩
  have hequal := equalWordSplits_of_buildHSTree (by simp) (by decide) hbuild hpre
  have hsame : (preBuildHSTree 2 [macRule 0 0 5, macRule 1 6 10] 0).map HsNode.splitWords
      = (buildHSTree 2 [macRule 0 0 5, macRule 1 6 10] 0).map HsNode.splitWords := by
    rw [hequal.preBuildHSTree_eq]
  have hfst : (buildHSTree 2 [macRule 0 0 5, macRule 1 6 10] 0).map HsNode.splitWords
      = some [0, 6] := by decide
  have hsnd : (preBuildHSTree 2 [macRule 0 0 5, macRule 1 6 10] 0).map HsNode.splitWords
      = some [6, 6] := by decide
  rw [hfst, hsnd] at hsame
  exact absurd hsame (by decide)

end SecFw.Acl
