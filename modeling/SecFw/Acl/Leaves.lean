import SecFw.Acl.Calls

/-!
This module contains the number of rules that is stored at a leaf. It has 16 bits, so that it is the
number of the rules exactly when no packet matches too many rules.
-/

namespace SecFw.Acl

section Leaves

variable {ruleset : RuleSet} {root : HsNode} {path : List (Fin 2)} {depth : Nat}

/-- Every leaf of the tree stores the number of the entries in its `rule` array. -/
def CountsRules (root : HsNode) : Prop :=
  ∀ (path : List (Fin 2)) (flag depth : UInt8) (num_rule : UInt16) (rule : List Nat),
    root.get? path = some (.leaf flag depth num_rule rule) → num_rule.toNat = rule.length

def matchedRules (ruleset : RuleSet) (packet : Packet) : RuleSet :=
  ruleset.filter fun r => matched r packet = 1

theorem mem_leaves {flag d : UInt8} {num_rule : UInt16} {rule : List Nat}
    (h : root.get? path = some (.leaf flag d num_rule rule)) : rule ∈ root.cuts.leaves := by
  induction path generalizing root with
  | nil =>
    rw [HsNode.get?, Option.some.injEq] at h
    simp [h, HsNode.cuts, Box.CutTree.leaves]
  | cons c path ih =>
    cases root with
    | leaf => simp [HsNode.get?] at h
    | node d2s d p2s child0 child1 =>
      rw [HsNode.get?] at h
      rw [HsNode.cuts, Box.CutTree.leaves, List.mem_append]
      split at h
      . exact Or.inl (ih h)
      . exact Or.inr (ih h)

theorem Represents.exists_packet (h : Represents ruleset depth root)
    (hvalid : ∀ r ∈ ruleset, r.Valid) {flag d : UInt8} {num_rule : UInt16} {rule : List Nat}
    (hleaf : root.get? path = some (.leaf flag d num_rule rule))
    : ∃ packet, rule = (matchedRules ruleset packet).map Rule.pri := by
  rcases h.built.exists_labels_eq (boxes_proper hvalid) rule (mem_leaves hleaf) with ⟨x, -, hx⟩
  let packet : Packet := fun d => assignDiffBits (x d) (numWords_le d)
  have hfield : packet.field = x := by
    funext d
    exact low_widen (numWords_le d) (x d)
  refine ⟨packet, ?_⟩
  rw [hx, ← hfield, labels_boxes, matchedRules]

theorem Represents.num_rule_eq (h : Represents ruleset depth root) {flag d : UInt8}
    {num_rule : UInt16} {rule : List Nat}
    (hleaf : root.get? path = some (.leaf flag d num_rule rule))
    : num_rule = UInt16.ofNat rule.length := by
  have hstored := h.stored.get? hleaf
  cases hstored with
  | leaf => rfl

theorem Represents.exists_leaf (h : Represents ruleset depth root) {packet : Packet}
    (hmatched : matchedRules ruleset packet ≠ [])
    : ∃ path flag d num_rule,
        root.get? path
          = some (.leaf flag d num_rule ((matchedRules ruleset packet).map Rule.pri)) := by
  rcases List.exists_mem_of_ne_nil _ hmatched with ⟨r, hr⟩
  have hr := List.mem_filter.mp hr
  have hfind := h.find_eq ⟨r, hr.1, of_decide_eq_true hr.2⟩
  rcases get?_lookupPacket_path packet root with ⟨node, hnode, hrule⟩
  rcases get?_descend (fun cmp => cmp < 0) packet root with ⟨flag, d, num_rule, rule, hleaf⟩
  rw [lookupPacket.path, hleaf, Option.some.injEq] at hnode
  rw [← hnode, hfind] at hrule
  have hlist : rule = (matchedRules ruleset packet).map Rule.pri := hrule
  rw [hlist] at hleaf
  exact ⟨_, flag, d, num_rule, hleaf⟩

theorem Represents.countsRules_iff (h : Represents ruleset depth root)
    (hvalid : ∀ r ∈ ruleset, r.Valid)
    : CountsRules root ↔ ∀ packet, (matchedRules ruleset packet).length < 2 ^ 16 := by
  constructor
  . intro hcounts packet
    by_cases hmatched : matchedRules ruleset packet = []
    . rw [hmatched]
      decide
    . rcases h.exists_leaf hmatched with ⟨path, flag, d, num_rule, hleaf⟩
      have hcount := hcounts path flag d num_rule _ hleaf
      have hlt := num_rule.toNat_lt
      rw [List.length_map] at hcount
      omega
  . intro hfew path flag d num_rule rule hleaf
    rcases h.exists_packet hvalid hleaf with ⟨packet, hpacket⟩
    have hlt := hfew packet
    rw [h.num_rule_eq hleaf, UInt16.toNat_ofNat_of_lt']
    rwa [hpacket, List.length_map]

/--
The leaves store the number of their entries exactly when no packet matches more rules than the 16
bits can count. The tree of the empty rule set is a leaf without rules.
-/
theorem buildsHSTree_countsRules_iff (hvalid : ∀ r ∈ ruleset, r.Valid)
    : ∃ root, BuildsHSTree ruleset 0 root
        ∧ (CountsRules root ↔ ∀ packet, (matchedRules ruleset packet).length < 2 ^ 16) := by
  by_cases hne : ruleset = []
  . subst hne
    refine ⟨leafNode 1 [] 0, ⟨1, rfl⟩, iff_of_true ?_ ?_⟩
    . intro path flag d num_rule rule hleaf
      cases path with
      | nil =>
        cases hleaf
        rfl
      | cons c path => simp [HsNode.get?, leafNode] at hleaf
    . simp [matchedRules]
  . rcases exists_buildsHSTree hne hvalid 0 with ⟨root, hbuild, hrep⟩
    exact ⟨root, hbuild, hrep.countsRules_iff hvalid⟩

theorem buildsHSTree_countsRules_iff_ports
    : ∃ root, BuildsHSTree [portRule 0 0 5, portRule 1 3 10] 0 root
        ∧ (CountsRules root
          ↔ ∀ packet, (matchedRules [portRule 0 0 5, portRule 1 3 10] packet).length < 2 ^ 16) :=
  buildsHSTree_countsRules_iff (by decide)

def sameRules : RuleSet := (List.range 65536).map fun pri => portRule pri 0 5

theorem matchedRules_sameRules : matchedRules sameRules (portPacket 3) = sameRules := by
  rw [matchedRules, List.filter_eq_self]
  intro r hr
  rcases List.mem_map.mp hr with ⟨pri, -, rfl⟩
  have hmatched : matched (portRule 0 0 5) (portPacket 3) = 1 := by decide
  exact decide_eq_true hmatched

theorem not_countsRules_sameRules
    : sameRules.length ≤ RULE_ENTRY_MAX ∧ (∀ r ∈ sameRules, r.Valid)
        ∧ ¬ ∀ root, BuildsHSTree sameRules 0 root → CountsRules root := by
  have hlen : sameRules.length = 65536 := by rw [sameRules, List.length_map, List.length_range]
  have hvalid : ∀ r ∈ sameRules, r.Valid := by
    intro r hr
    rcases List.mem_map.mp hr with ⟨pri, -, rfl⟩
    have hport : (portRule 0 0 5).Valid := by decide
    exact hport
  have hne : sameRules ≠ [] := by
    apply List.ne_nil_of_length_pos
    omega
  refine ⟨by rw [hlen]; decide, hvalid, ?_⟩
  intro hall
  rcases exists_buildsHSTree hne hvalid 0 with ⟨root, hbuild, hrep⟩
  have hfew := (hrep.countsRules_iff hvalid).mp (hall root hbuild) (portPacket 3)
  rw [matchedRules_sameRules, hlen] at hfew
  exact absurd hfew (by decide)

end Leaves

end SecFw.Acl
