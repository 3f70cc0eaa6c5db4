import SecFw.Acl.Lookup

/-!
This module contains the calls that the construction of a tree consists of. What holds of the rules
of every call holds of the rules at every node and at every leaf.
-/

namespace SecFw.Acl

/-- The split that `BuildHSTree` makes of a rule set. -/
structure SplitOf (ruleset : RuleSet) (sel : Selection) (split : Split) : Prop where
  threshold : Rule_Num_Threshold < ruleset.length
  selected : selectDim ruleset = some sel
  many : 2 < sel.maxDiffSegPts_All
  split_eq : splitRuleset ruleset sel = some split

def childRules (ruleset : RuleSet) (d2s : Fin DIM) (split : Split) (c : Fin 2) : RuleSet :=
  if c = 0 then
    leftRules ruleset d2s (split.end' d2s 0 0) (split.end' d2s 0 1)
  else
    rightRules ruleset d2s (split.end' d2s 1 0) (split.end' d2s 1 1)

/-- `BuildHSTree` is called with the rules `rs` for the node that the child indices lead to. -/
inductive Called (ruleset : RuleSet) : List (Fin 2) → RuleSet → Prop where
  | root : Called ruleset [] ruleset
  | child {path : List (Fin 2)} {rs : RuleSet} {sel : Selection} {split : Split}
      (h : Called ruleset path rs) (hsplit : SplitOf rs sel split) (c : Fin 2)
    : Called ruleset (path ++ [c]) (childRules rs sel.d2s split c)

section Calls

variable {ruleset rs : RuleSet} {sel : Selection} {split : Split} {path : List (Fin 2)}
  {root node : HsNode} {depth : Nat}

theorem SplitOf.nonempty (h : SplitOf rs sel split) : rs ≠ [] := by
  apply List.ne_nil_of_length_pos
  exact h.threshold

theorem SplitOf.median (h : SplitOf rs sel split) (hvalid : ∀ r ∈ rs, r.Valid)
    : SplitsAtMedian (numWords_le sel.d2s) (rangeEnds rs sel.d2s) split
      ∧ 2 < Box.events sel.d2s (boxes rs) := by
  rcases selectDim_spec h.nonempty with ⟨sel', hsel, hselects⟩
  rw [h.selected, Option.some.injEq] at hsel
  subst hsel
  rcases splitRuleset_spec h.nonempty hvalid hselects h.many with ⟨split', hsplit, hmedian, htwo⟩
  rw [h.split_eq, Option.some.injEq] at hsplit
  subst hsplit
  exact ⟨hmedian, htwo⟩

theorem SplitOf.descends (h : SplitOf rs sel split) (hvalid : ∀ r ∈ rs, r.Valid) (c : Fin 2)
    : Descends rs (childRules rs sel.d2s split c) := by
  rcases h.median hvalid with ⟨hmedian, htwo⟩
  unfold childRules
  split
  . exact leftRules_descends hmedian htwo hvalid
  . exact rightRules_descends hmedian htwo hvalid

theorem Called.valid (h : Called ruleset path rs) (hvalid : ∀ r ∈ ruleset, r.Valid)
    : ∀ r ∈ rs, r.Valid := by
  induction h with
  | root => exact hvalid
  | child h hsplit c ih => exact (hsplit.descends ih c).valid

theorem Called.nonempty (h : Called ruleset path rs) (hne : ruleset ≠ [])
    (hvalid : ∀ r ∈ ruleset, r.Valid) : rs ≠ [] := by
  cases h with
  | root => exact hne
  | child h hsplit c => exact (hsplit.descends (h.valid hvalid) c).nonempty

inductive BuiltFrom (rs : RuleSet) (depth : Nat) : HsNode → Prop where
  | leaf (flag : UInt8) : BuiltFrom rs depth (leafNode flag rs depth)
  | node {sel : Selection} {split : Split} {child0 child1 : HsNode} (h : SplitOf rs sel split)
      (h0 : BuildsHSTree (childRules rs sel.d2s split 0) (depth + 1) child0)
      (h1 : BuildsHSTree (childRules rs sel.d2s split 1) (depth + 1) child1)
    : BuiltFrom rs depth
        (.node sel.d2s (UInt8.ofNat depth) (split.p2s.low (numWords_le sel.d2s)) child0 child1)

theorem BuildsHSTree.builtFrom (h : BuildsHSTree rs depth root) : BuiltFrom rs depth root := by
  rcases h with ⟨fuel, h⟩
  cases fuel with
  | zero => simp [buildHSTree] at h
  | succ fuel =>
    unfold buildHSTree at h
    split at h
    . cases h
      exact .leaf 1
    . next hlen =>
      simp only [Option.bind_eq_bind, Option.bind_eq_some_iff] at h
      rcases h with ⟨sel, hsel, h⟩
      split at h
      . cases h
        exact .leaf 0
      . next hall =>
        simp only [Option.bind_eq_some_iff] at h
        rcases h with ⟨split, hsplit, child0, hchild0, child1, hchild1, h⟩
        cases h
        exact .node ⟨not_le.mp hlen, hsel, not_le.mp hall, hsplit⟩ ⟨fuel, hchild0⟩ ⟨fuel, hchild1⟩

theorem Called.cons {c : Fin 2} (hsplit : SplitOf ruleset sel split)
    (h : Called (childRules ruleset sel.d2s split c) path rs) : Called ruleset (c :: path) rs := by
  induction h with
  | root => exact Called.root.child hsplit c
  | child h hsplit' c' ih => exact ih.child hsplit' c'

theorem BuildsHSTree.get? (h : BuildsHSTree ruleset depth root)
    (hnode : root.get? path = some node)
    : ∃ rs, Called ruleset path rs ∧ BuildsHSTree rs (depth + path.length) node := by
  induction path generalizing ruleset depth root with
  | nil =>
    rw [HsNode.get?, Option.some.injEq] at hnode
    subst hnode
    exact ⟨ruleset, .root, h⟩
  | cons c path ih =>
    cases h.builtFrom with
    | leaf flag => simp [HsNode.get?, leafNode] at hnode
    | node hsplit h0 h1 =>
      have hdepth : depth + (c :: path).length = depth + 1 + path.length := by
        rw [List.length_cons]
        omega
      rw [HsNode.get?] at hnode
      rw [hdepth]
      split at hnode
      . next hc =>
        subst hc
        rcases ih h0 hnode with ⟨rs, hcalled, hbuilds⟩
        exact ⟨rs, hcalled.cons hsplit, hbuilds⟩
      . next hc =>
        have hone : c = 1 := by omega
        subst hone
        rcases ih h1 hnode with ⟨rs, hcalled, hbuilds⟩
        exact ⟨rs, hcalled.cons hsplit, hbuilds⟩

end Calls

section Lookup

variable {ruleset rs : RuleSet} {root : HsNode} {path : List (Fin 2)} {depth : Nat}

theorem Represents.leaf (h : Represents ruleset depth root) {flag d : UInt8} {num_rule : UInt16}
    {rule : List Nat} (hleaf : root.get? path = some (.leaf flag d num_rule rule))
    : flag = 0 ∧ rule ≠ [] := by
  have hstored := h.stored.get? hleaf
  cases hstored with
  | leaf hne => exact ⟨rfl, hne⟩

theorem Represents.lookupPacket_ne_exit (h : Represents ruleset depth root) (rules : RuleSet)
    (packet : Packet) : lookupPacket rules root packet ≠ .exit := by
  rcases get?_descend (fun cmp => cmp < 0) packet root with ⟨flag, d, num_rule, rule, hleaf⟩
  have hflag := (h.leaf hleaf).1
  rw [lookupPacket, lookupPacket.path, hleaf, hflag]
  simp

/--
No call of the construction gets an empty rule set, so that every leaf has rules and no search of the
tree takes the error exit of the linear search.
-/
theorem lookupPacket_never_exits (hne : ruleset ≠ []) (hvalid : ∀ r ∈ ruleset, r.Valid)
    : (∀ path rs sel split, Called ruleset path rs → SplitOf rs sel split
        → ∀ c, childRules rs sel.d2s split c ≠ [])
      ∧ ∃ root, BuildsHSTree ruleset 0 root
        ∧ (∀ path flag depth num_rule rule,
          root.get? path = some (.leaf flag depth num_rule rule) → flag = 0 ∧ rule ≠ [])
        ∧ ∀ rules packet, lookupPacket rules root packet ≠ .exit := by
  rcases exists_buildsHSTree hne hvalid 0 with ⟨root, hbuild, hrep⟩
  refine ⟨?_, root, hbuild, ?_, hrep.lookupPacket_ne_exit⟩
  . intro path rs sel split hcalled hsplit c
    exact (hcalled.child hsplit c).nonempty hne hvalid
  . intro path flag depth num_rule rule hleaf
    exact hrep.leaf hleaf

theorem splitOf_ports : ∃ sel split, SplitOf [portRule 0 0 5, portRule 1 3 10] sel split := by
  have hsplit : (selectDim [portRule 0 0 5, portRule 1 3 10]).any (fun sel =>
      decide (2 < sel.maxDiffSegPts_All)
        && (splitRuleset [portRule 0 0 5, portRule 1 3 10] sel).isSome) = true := by
    decide +kernel
  rcases (Option.any_eq_true_iff_get _ _).mp hsplit with ⟨hsel, hsplit⟩
  rw [Bool.and_eq_true, decide_eq_true_iff] at hsplit
  exact ⟨_, _, by decide, Option.eq_some_of_isSome hsel, hsplit.1,
    Option.eq_some_of_isSome hsplit.2⟩

theorem lookupPacket_never_exits_ports
    : (∃ sel split, SplitOf [portRule 0 0 5, portRule 1 3 10] sel split
        ∧ ∀ c, childRules [portRule 0 0 5, portRule 1 3 10] sel.d2s split c ≠ [])
      ∧ ∃ root, BuildsHSTree [portRule 0 0 5, portRule 1 3 10] 0 root
        ∧ (∃ path flag depth num_rule rule,
          root.get? path = some (.leaf flag depth num_rule rule) ∧ flag = 0 ∧ rule ≠ [])
        ∧ ∀ rules packet, lookupPacket rules root packet ≠ .exit := by
  rcases lookupPacket_never_exits (List.cons_ne_nil (portRule 0 0 5) [portRule 1 3 10])
    (by decide) with ⟨hchildren, root, hbuild, hleaves, hexit⟩
  rcases splitOf_ports with ⟨sel, split, hsplit⟩
  rcases get?_descend (fun cmp => cmp < 0) (portPacket 4) root with
    ⟨flag, depth, num_rule, rule, hleaf⟩
  exact ⟨⟨sel, split, hsplit, hchildren [] _ sel split .root hsplit⟩,
    root, hbuild, ⟨_, flag, depth, num_rule, rule, hleaf, hleaves _ _ _ _ _ hleaf⟩, hexit⟩

end Lookup

end SecFw.Acl
