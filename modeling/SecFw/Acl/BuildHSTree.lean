import SecFw.Acl.Split
import SecFw.Box.CutTree

/-!
This module contains the construction of the hyper-splitting tree. The recursion takes fuel, for a
rule set whose ranges start at or before their end some amount of it is enough.
-/

namespace SecFw.Acl

structure Selection where
  maxDiffSegPts_All : Nat
  maxDiffSegPts : Nat
  d2s : Fin DIM

def selectDim (ruleset : RuleSet) : Option Selection :=
  (List.finRange DIM).foldlM step ⟨1, 1, 0⟩
where
  step (sel : Selection) (dim : Fin DIM) : Option Selection := do
    let (diffSegPts, diffSegPts_All) ← countSegPoints ruleset dim
    if sel.maxDiffSegPts_All < diffSegPts_All then
      some ⟨diffSegPts_All, diffSegPts, dim⟩
    else
      some sel

def splitRuleset (ruleset : RuleSet) (sel : Selection) : Option Split := do
  let tempPoints ← assignSegmentPoints ruleset sel.d2s
  splitPoints (numWords_le sel.d2s) (sortPoints tempPoints) sel.maxDiffSegPts sel.maxDiffSegPts_All

def assignRuleList (rs : Rule) : Rule where
  pri := rs.pri
  ruleId := rs.ruleId
  range := rs.range

def Rule.setRange (r : Rule) (d : Fin DIM) (k : Fin 2) (w : Words (numWords d)) : Rule :=
  { r with range := Function.update r.range d (Function.update (r.range d) k w) }

def compareBits128 (a b : Words n) : Int :=
  if 32 * n ≤ 32 then segPointCompare32 a b else segPointCompare128 a b

def overlaps (d : Fin DIM) (lo hi : Words (numWords d)) (r : Rule) : Bool :=
  compareBits (r.range d 0) hi ≤ 0 && compareBits (r.range d 1) lo ≥ 0

def trimRule (d : Fin DIM) (cmp : Words (numWords d) → Words (numWords d) → Int)
    (lo hi : Words (numWords d)) (r : Rule) : Rule :=
  let r := assignRuleList r
  let r := if cmp (r.range d 0) lo < 0 then r.setRange d 0 lo else r
  if cmp (r.range d 1) hi > 0 then r.setRange d 1 hi else r

def leftRules (ruleset : RuleSet) (d : Fin DIM) (lo hi : Words (numWords d)) : RuleSet :=
  (ruleset.filter (overlaps d lo hi)).map (trimRule d compareBits128 lo hi)

def rightRules (ruleset : RuleSet) (d : Fin DIM) (lo hi : Words (numWords d)) : RuleSet :=
  (ruleset.filter (overlaps d lo hi)).map (trimRule d compareBits lo hi)

def Split.end' (split : Split) (d : Fin DIM) (c k : Fin 2) : Words (numWords d) :=
  (split.range c k).low (numWords_le d)

def leafNode (flag : UInt8) (ruleset : RuleSet) (depth : Nat) : HsNode :=
  .leaf flag (UInt8.ofNat depth) (UInt16.ofNat ruleset.length) (ruleset.map Rule.pri)

def buildHSTree : Nat → RuleSet → Nat → Option HsNode
  -- `none` when the fuel runs out, on `exit(-1)` and on a read behind the array of segment points
  | 0, _, _ => none
  | fuel + 1, ruleset, depth =>
    if ruleset.length ≤ Rule_Num_Threshold then
      some (leafNode 1 ruleset depth)
    else do
      let sel ← selectDim ruleset
      let d2s := sel.d2s
      if sel.maxDiffSegPts_All ≤ 2 then
        some (leafNode 0 ruleset depth)
      else
        let split ← splitRuleset ruleset sel
        let left := leftRules ruleset d2s (split.end' d2s 0 0) (split.end' d2s 0 1)
        let child0 ← buildHSTree fuel left (depth + 1)
        let right := rightRules ruleset d2s (split.end' d2s 1 0) (split.end' d2s 1 1)
        let child1 ← buildHSTree fuel right (depth + 1)
        some (.node d2s (UInt8.ofNat depth) (split.p2s.low (numWords_le d2s)) child0 child1)

/-- The call returns and leaves `root` behind. -/
def BuildsHSTree (ruleset : RuleSet) (depth : Nat) (root : HsNode) : Prop :=
  ∃ fuel, buildHSTree fuel ruleset depth = some root

theorem buildHSTree_succ {fuel : Nat} {ruleset : RuleSet} {depth : Nat} {root : HsNode}
    (h : buildHSTree fuel ruleset depth = some root)
    : buildHSTree (fuel + 1) ruleset depth = some root := by
  induction fuel generalizing ruleset depth root with
  | zero => simp [buildHSTree] at h
  | succ fuel ih =>
    unfold buildHSTree at h ⊢
    split at h
    . next hlen =>
      rwa [if_pos hlen]
    . next hlen =>
      rw [if_neg hlen]
      simp only [Option.bind_eq_bind, Option.bind_eq_some_iff] at h ⊢
      rcases h with ⟨sel, hsel, h⟩
      refine ⟨sel, hsel, ?_⟩
      split at h
      . next hall => rwa [if_pos hall]
      . next hall =>
        rw [if_neg hall]
        rw [Option.bind_eq_some_iff] at h ⊢
        rcases h with ⟨split, hsplit, h⟩
        refine ⟨split, hsplit, ?_⟩
        rw [Option.bind_eq_some_iff] at h ⊢
        rcases h with ⟨child0, hchild0, h⟩
        refine ⟨child0, ih hchild0, ?_⟩
        rw [Option.bind_eq_some_iff] at h ⊢
        rcases h with ⟨child1, hchild1, h⟩
        exact ⟨child1, ih hchild1, h⟩

theorem buildHSTree_mono {fuel fuel' : Nat} {ruleset : RuleSet} {depth : Nat} {root : HsNode}
    (h : buildHSTree fuel ruleset depth = some root) (hle : fuel ≤ fuel')
    : buildHSTree fuel' ruleset depth = some root := by
  induction hle with
  | refl => exact h
  | step _ ih => exact buildHSTree_succ ih

theorem BuildsHSTree.unique {ruleset : RuleSet} {depth : Nat} {root root' : HsNode}
    (h : BuildsHSTree ruleset depth root) (h' : BuildsHSTree ruleset depth root') : root = root' := by
  rcases h with ⟨fuel, h⟩
  rcases h' with ⟨fuel', h'⟩
  have hmax := buildHSTree_mono h (Nat.le_max_left fuel fuel')
  have hmax' := buildHSTree_mono h' (Nat.le_max_right fuel fuel')
  exact Option.some.inj (hmax.symm.trans hmax')

end SecFw.Acl
