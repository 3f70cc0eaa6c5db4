import SecFw.Acl.Refinement
import SecFw.Common.AclRule

/-!
This module contains the searches of the classifier: the linear search over a list of rules and the
two searches of the tree. It relates them on the trees that `buildHSTree` leaves behind.
-/

namespace SecFw.Acl

def matched (rule : Rule) (packet : Packet) : Nat :=
  -- 1 when every field of the packet lies in the range of the rule
  go (List.finRange DIM)
where
  go : List (Fin DIM) → Nat
    | [] => 1
    | i :: is =>
      let temp1 := segPointCompare64128 (packet.field i) (rule.range i 0)
      let temp2 := segPointCompare64128 (rule.range i 1) (packet.field i)
      if temp1 ≠ -1 ∧ temp2 ≠ -1 then go is else 0

def linearSearch.go (ruleset : RuleSet) (packet : Packet) : List Nat → Option (List Nat)
  | [] => some []
  | pri :: rule_pri => do
    let rule ← ruleset[pri]?
    let matched_rule_pri ← go ruleset packet rule_pri
    if matched rule packet = 1 then
      some (pri :: matched_rule_pri)
    else
      some matched_rule_pri

def linearSearch (ruleset : RuleSet) (rule_pri : List Nat) (packet : Packet) : Option (List Nat) := do
  -- returns `matched_rule_pri`, `none` when no rule matches because the program then exits
  let matched_rule_pri ← linearSearch.go ruleset packet rule_pri
  if matched_rule_pri = [] then
    none
  else
    some matched_rule_pri

def descend (test : Int → Bool) (packet : Packet) : HsNode → List (Fin 2)
  | .leaf .. => []
  | .node d2s _ p2s child0 child1 =>
    if test (segPointCompare64128Nsf (packet.field d2s) p2s) then
      0 :: descend test packet child0
    else
      1 :: descend test packet child1

inductive LookupResult where
  -- what a search of the tree does: `return 0`, `HS_SUCCESS` with a hit node, or `exit(-1)`
  | failure
  | success (hitnode : HsNode)
  | exit

def lookupHSTree.path (packet : Packet) (root : HsNode) : List (Fin 2) :=
  descend (fun cmp => cmp ≤ 0) packet root

def lookupHSTree (packet : Packet) (ruleset : RuleSet) (root : HsNode) : LookupResult :=
  if ruleset.length = 0 then
    .failure
  else
    match root.get? (lookupHSTree.path packet root) with
    | some (.leaf flag depth num_rule rule) => .success (.leaf flag depth num_rule rule)
    | _ => .failure

def lookupPacket.path (packet : Packet) (root : HsNode) : List (Fin 2) :=
  descend (fun cmp => cmp < 0) packet root

def lookupPacket (ruleset : RuleSet) (root : HsNode) (packet : Packet) : LookupResult :=
  match root.get? (lookupPacket.path packet root) with
  | some (.leaf flag depth num_rule rule) =>
    if flag = 1 then
      match linearSearch ruleset (rule.take num_rule.toNat) packet with
      | none => .exit
      | some _ => .success (.leaf flag depth num_rule rule)
    else
      .success (.leaf flag depth num_rule rule)
  | _ => .failure

section Matched

variable {rule : Rule} {packet : Packet}

theorem matched.go_eq_one (is : List (Fin DIM))
    : go rule packet is = 1 ↔ ∀ d ∈ is, rule.box.lo d ≤ packet.field d
        ∧ packet.field d ≤ rule.box.hi d := by
  induction is with
  | nil => simp [go]
  | cons i is ih =>
    simp only [go, segPointCompare64128_ne_neg_one, List.forall_mem_cons]
    split
    . next h =>
      rw [ih]
      exact (and_iff_right h).symm
    . next h => exact iff_of_false (by simp) fun hall => h hall.1

theorem matched_eq_one : matched rule packet = 1 ↔ packet.field ∈ rule.box := by
  rw [matched, matched.go_eq_one, Box.mem_def]
  simp

theorem labels_boxes (ruleset : RuleSet) (packet : Packet)
    : Box.labels packet.field (boxes ruleset)
        =
      (ruleset.filter fun r => matched r packet = 1).map Rule.pri := by
  have hfilter : (fun r => decide (matched r packet = 1))
      = (fun b => decide (packet.field ∈ b.2)) ∘ Rule.labelled := by
    funext r
    rw [Bool.eq_iff_iff, decide_eq_true_iff, matched_eq_one, Function.comp_apply,
      decide_eq_true_iff]
    rfl
  rw [Box.labels, boxes, List.filter_map, List.map_map, hfilter]
  rfl

theorem linearSearch.go_drop (packet : Packet) {ruleset : RuleSet}
    (hpri : ruleset.map Rule.pri = List.range ruleset.length) (pre suf : RuleSet) (h : ruleset = pre ++ suf)
    : go ruleset packet (suf.map Rule.pri)
        =
      some ((suf.filter fun r => matched r packet = 1).map Rule.pri) := by
  induction suf generalizing pre with
  | nil => rfl
  | cons r suf ih =>
    have ih := ih (pre ++ [r]) (by simp [h])
    have hlt : pre.length < ruleset.length := by simp [h]
    have hr : ruleset[r.pri]? = some r := by
      have hlen : (ruleset.map Rule.pri)[pre.length]? = some pre.length := by
        rw [hpri, List.getElem?_range hlt]
      have hpos : r.pri = pre.length := by simpa [h] using hlen
      simp [h, hpos]
    simp only [List.map_cons, go, hr, ih, Option.bind_eq_bind, Option.bind_some]
    split
    . next hmatched => simp [hmatched]
    . next hmatched => simp [hmatched]

theorem linearSearch_range {ruleset : RuleSet}
    (hpri : ruleset.map Rule.pri = List.range ruleset.length)
    (hmatched : ∃ r ∈ ruleset, matched r packet = 1)
    : linearSearch ruleset (List.range ruleset.length) packet
        =
      some ((ruleset.filter fun r => matched r packet = 1).map Rule.pri) := by
  have hgo := linearSearch.go_drop packet hpri [] ruleset rfl
  rw [linearSearch, ← hpri, hgo, Option.bind_eq_bind, Option.bind_some, if_neg]
  rw [List.map_eq_nil_iff, List.filter_eq_nil_iff]
  rcases hmatched with ⟨r, hr, h⟩
  intro hall
  exact hall r hr (decide_eq_true h)

end Matched

section Tree

variable {ruleset : RuleSet} {depth : Nat} {root : HsNode} {packet : Packet}

theorem get?_descend (test : Int → Bool) (packet : Packet) (root : HsNode)
    : ∃ flag depth num_rule rule,
        root.get? (descend test packet root) = some (.leaf flag depth num_rule rule) := by
  induction root with
  | leaf flag depth num_rule rule => exact ⟨flag, depth, num_rule, rule, rfl⟩
  | node d2s depth p2s child0 child1 ih0 ih1 =>
    rw [descend]
    split
    . exact ih0
    . exact ih1

theorem HsNode.Stored.get? (h : root.Stored depth) {path : List (Fin 2)} {node : HsNode}
    (hnode : root.get? path = some node) : node.Stored (depth + path.length) := by
  induction path generalizing root depth with
  | nil =>
    rw [HsNode.get?, Option.some.injEq] at hnode
    rwa [← hnode]
  | cons i path ih =>
    cases h with
    | leaf hne => simp [HsNode.get?] at hnode
    | node h0 h1 =>
      rw [HsNode.get?] at hnode
      rw [List.length_cons, ← Nat.succ_add_eq_add_succ]
      split at hnode
      . exact ih h0 hnode
      . exact ih h1 hnode

theorem HsNode.Stored.depth_eq (h : root.Stored depth) : root.depth = UInt8.ofNat depth := by
  cases h <;> rfl

theorem length_le_height {path : List (Fin 2)} {node : HsNode} (hnode : root.get? path = some node)
    : path.length ≤ root.cuts.height := by
  induction path generalizing root with
  | nil => exact Nat.zero_le _
  | cons i path ih =>
    cases root with
    | leaf => simp [HsNode.get?] at hnode
    | node d2s depth p2s child0 child1 =>
      rw [HsNode.get?] at hnode
      simp only [List.length_cons, HsNode.cuts, Box.CutTree.height]
      split at hnode
      all_goals
        have := ih hnode
        omega

theorem get?_lookupPacket_path (packet : Packet) (root : HsNode)
    : ∃ node, root.get? (lookupPacket.path packet root) = some node
        ∧ node.rule = root.cuts.find packet.field := by
  induction root with
  | leaf flag depth num_rule rule => exact ⟨_, rfl, rfl⟩
  | node d2s depth p2s child0 child1 ih0 ih1 =>
    simp only [lookupPacket.path, descend, segPointCompare64128Nsf_eq, decide_eq_true_iff,
      segPointCompare64128_lt_zero, HsNode.cuts, Box.CutTree.find]
    split
    . exact ih0
    . exact ih1

theorem Represents.lookupPacket_eq (h : Represents ruleset depth root) (packet : Packet)
    : ∃ leaf, lookupPacket ruleset root packet = .success leaf
        ∧ root.get? (lookupPacket.path packet root) = some leaf
        ∧ leaf.rule = root.cuts.find packet.field := by
  rcases get?_descend (fun cmp => cmp < 0) packet root with ⟨flag, d, num_rule, rule, hleaf⟩
  rcases get?_lookupPacket_path packet root with ⟨node, hnode, hrule⟩
  have heq : node = .leaf flag d num_rule rule := by
    rw [lookupPacket.path, hleaf, Option.some.injEq] at hnode
    exact hnode.symm
  have hflag : flag = 0 := by
    have hstored := h.stored.get? hnode
    rw [heq] at hstored
    cases hstored
    rfl
  refine ⟨node, ?_, hnode, hrule⟩
  rw [lookupPacket, hnode, heq, hflag]
  rfl

theorem lookupHSTree_eq (hne : ruleset ≠ []) (root : HsNode) (packet : Packet)
    : ∃ leaf, lookupHSTree packet ruleset root = .success leaf
        ∧ root.get? (lookupHSTree.path packet root) = some leaf := by
  rcases get?_descend (fun cmp => cmp ≤ 0) packet root with ⟨flag, d, num_rule, rule, hleaf⟩
  refine ⟨.leaf flag d num_rule rule, ?_, hleaf⟩
  rw [lookupHSTree, if_neg (mt List.length_eq_zero_iff.mp hne), lookupHSTree.path, hleaf]

theorem Represents.find_eq (h : Represents ruleset depth root)
    (hmatched : ∃ r ∈ ruleset, matched r packet = 1)
    : root.cuts.find packet.field
        =
      (ruleset.filter fun r => matched r packet = 1).map Rule.pri := by
  rw [← labels_boxes]
  apply h.built.find_eq_labels
  rcases hmatched with ⟨r, hr, h⟩
  exact ⟨r.labelled, mem_boxes.mpr ⟨r, hr, rfl⟩, matched_eq_one.mp h⟩

end Tree

section Classification

variable {ruleset : RuleSet}

def portRule (pri lo hi : Nat) : Rule where
  pri := pri
  ruleId := pri
  range d k := if d = 4 then .ofNat _ (if k = 0 then lo else hi) else .ofNat _ 0

def portPacket (port : Nat) : Packet := fun d => if d = 4 then .ofNat 4 port else .ofNat 4 0

/--
The leaf that a packet is led to lists the rules that the packet matches, in order, as the linear
search over all rules would.
-/
theorem lookupPacket_eq_linearSearch (hne : ruleset ≠ []) (hvalid : ∀ r ∈ ruleset, r.Valid)
    (hpri : ∀ (k : Nat) (r : Rule), ruleset[k]? = some r → r.pri = k) (packet : Packet)
    (hmatched : ∃ r ∈ ruleset, matched r packet = 1)
    : ∃ root leaf, BuildsHSTree ruleset 0 root
        ∧ lookupPacket ruleset root packet = .success leaf
        ∧ leaf.rule = (ruleset.filter fun r => matched r packet = 1).map Rule.pri
        ∧ linearSearch ruleset (List.range ruleset.length) packet = some leaf.rule
        ∧ leaf.rule.Pairwise (· < ·) := by
  rcases exists_buildsHSTree hne hvalid 0 with ⟨root, hbuild, hrep⟩
  rcases hrep.lookupPacket_eq packet with ⟨leaf, hlookup, -, hrule⟩
  rw [hrep.find_eq hmatched] at hrule
  have hmap : ruleset.map Rule.pri = List.range ruleset.length := by
    apply List.ext_getElem?
    intro k
    rw [List.getElem?_map]
    by_cases hk : k < ruleset.length
    . rw [List.getElem?_range hk, List.getElem?_eq_getElem hk, Option.map_some]
      rw [hpri k _ (List.getElem?_eq_getElem hk)]
    . rw [List.getElem?_eq_none (by omega), List.getElem?_eq_none (by simp; omega)]
      rfl
  refine ⟨root, leaf, hbuild, hlookup, hrule, ?_, ?_⟩
  . rw [hrule]
    exact linearSearch_range hmap hmatched
  . have hsublist : leaf.rule.Sublist (List.range ruleset.length) := by
      rw [hrule, ← hmap]
      exact List.filter_sublist.map Rule.pri
    exact List.Pairwise.sublist hsublist List.pairwise_lt_range

theorem lookupPacket_eq_linearSearch_ports
    : ∃ root leaf, BuildsHSTree [portRule 0 0 5, portRule 1 3 10] 0 root
        ∧ lookupPacket [portRule 0 0 5, portRule 1 3 10] root (portPacket 4) = .success leaf
        ∧ leaf.rule = [0, 1]
        ∧ linearSearch [portRule 0 0 5, portRule 1 3 10] [0, 1] (portPacket 4) = some leaf.rule
        ∧ leaf.rule.Pairwise (· < ·) :=
  @lookupPacket_eq_linearSearch [portRule 0 0 5, portRule 1 3 10] (by simp)
    (by decide)
    (by
      intro k r h
      match k with
      | 0 => exact (Option.some.inj h) ▸ rfl
      | 1 => exact (Option.some.inj h) ▸ rfl)
    (portPacket 4) (by decide)

/-- The searches of the tree lead the packet to the same leaf. -/
def SameLeaf (packet : Packet) (root : HsNode) : Prop :=
  lookupHSTree.path packet root = lookupPacket.path packet root

/--
No node whose part of the space holds the packet has a threshold that is the field of the packet.
-/
def OffSplit (packet : Packet) : HsNode → Prop
  | .leaf .. => True
  | .node d2s _ p2s child0 child1 =>
    packet.field d2s ≠ p2s
      ∧ (packet.field d2s < p2s → OffSplit packet child0)
      ∧ (p2s < packet.field d2s → OffSplit packet child1)

theorem sameLeaf_iff_offSplit (packet : Packet) (root : HsNode)
    : SameLeaf packet root ↔ OffSplit packet root := by
  induction root with
  | leaf flag depth num_rule rule => simp [SameLeaf, OffSplit, lookupHSTree.path,
      lookupPacket.path, descend]
  | node d2s depth p2s child0 child1 ih0 ih1 =>
    simp only [SameLeaf, lookupHSTree.path, lookupPacket.path] at ih0 ih1 ⊢
    simp only [descend, segPointCompare64128Nsf_eq, decide_eq_true_iff,
      segPointCompare64128_le_zero, segPointCompare64128_lt_zero, OffSplit]
    rcases lt_trichotomy (packet.field d2s) p2s with hlt | heq | hgt
    . simp [hlt, hlt.le, hlt.ne, hlt.not_gt, ih0]
    . simp [heq]
    . simp [hgt, hgt.not_ge, hgt.ne', hgt.not_gt, ih1]

/--
The searches of the tree agree on exactly those packets that meet no threshold. The construction
always stores the first value of the right child as the threshold, `LookupHSTree` sends it left.
-/
theorem buildsHSTree_sameLeaf_iff (hne : ruleset ≠ []) (hvalid : ∀ r ∈ ruleset, r.Valid)
    : ∃ root, BuildsHSTree ruleset 0 root
        ∧ ∀ packet, SameLeaf packet root ↔ OffSplit packet root := by
  rcases exists_buildsHSTree hne hvalid 0 with ⟨root, hbuild, -⟩
  exact ⟨root, hbuild, fun packet => sameLeaf_iff_offSplit packet root⟩

theorem lookupHSTree_eq_lookupPacket {root : HsNode} {packet : Packet} (hne : ruleset ≠ [])
    (hvalid : ∀ r ∈ ruleset, r.Valid) (hbuild : BuildsHSTree ruleset 0 root)
    (hoff : OffSplit packet root)
    : lookupHSTree packet ruleset root = lookupPacket ruleset root packet := by
  have hsame : lookupHSTree.path packet root = lookupPacket.path packet root :=
    (sameLeaf_iff_offSplit packet root).mpr hoff
  rcases lookupHSTree_eq hne root packet with ⟨leaf, hlookup, hleaf⟩
  rcases (hbuild.represents hne hvalid).lookupPacket_eq packet with ⟨leaf', hlookup', hleaf', -⟩
  rw [hsame, hleaf', Option.some.injEq] at hleaf
  rw [hlookup, hlookup', hleaf]

theorem buildsHSTree_sameLeaf_iff_ports
    : ∃ root, BuildsHSTree [portRule 0 0 5, portRule 1 6 10] 0 root
        ∧ ∀ packet, SameLeaf packet root ↔ OffSplit packet root :=
  buildsHSTree_sameLeaf_iff (by simp) (by decide)

theorem not_sameLeaf_ports
    : ¬ ∀ root, BuildsHSTree [portRule 0 0 5, portRule 1 6 10] 0 root
        → SameLeaf (portPacket 6) root := by
  have hsome : (buildHSTree 2 [portRule 0 0 5, portRule 1 6 10] 0).isSome := by decide
  have hdiffer : (buildHSTree 2 [portRule 0 0 5, portRule 1 6 10] 0).all fun root =>
      lookupHSTree.path (portPacket 6) root ≠ lookupPacket.path (portPacket 6) root := by decide
  rcases Option.isSome_iff_exists.mp hsome with ⟨root, hroot⟩
  rw [hroot, Option.all_some, decide_eq_true_iff] at hdiffer
  intro h
  exact hdiffer (h root ⟨2, hroot⟩)

/-- A packet is only classified under rules that it matches. -/
def ClassifiesMatched (ruleset : RuleSet) (packet : Packet) : Prop :=
  ∀ root leaf, BuildsHSTree ruleset 0 root → lookupPacket ruleset root packet = .success leaf
    → ∀ pri ∈ leaf.rule, ∃ r ∈ ruleset, r.pri = pri ∧ matched r packet = 1

/--
The packets that are only classified under rules that they match are those that match some rule.
-/
theorem classifiesMatched_iff (hne : ruleset ≠ []) (hvalid : ∀ r ∈ ruleset, r.Valid)
    (packet : Packet)
    : ClassifiesMatched ruleset packet ↔ ∃ r ∈ ruleset, matched r packet = 1 := by
  constructor
  . intro h
    rcases exists_buildsHSTree hne hvalid 0 with ⟨root, hbuild, hrep⟩
    rcases hrep.lookupPacket_eq packet with ⟨leaf, hlookup, -, hrule⟩
    rcases List.exists_mem_of_ne_nil _ (hrep.built.find_ne_nil packet.field) with ⟨pri, hpri⟩
    rw [← hrule] at hpri
    rcases h root leaf hbuild hlookup pri hpri with ⟨r, hr, -, hmatched⟩
    exact ⟨r, hr, hmatched⟩
  . intro hmatched root leaf hbuild hlookup pri hpri
    have hrep := hbuild.represents hne hvalid
    rcases hrep.lookupPacket_eq packet with ⟨leaf', hlookup', -, hrule⟩
    rw [hlookup'] at hlookup
    cases hlookup
    rw [hrule, hrep.find_eq hmatched, List.mem_map] at hpri
    rcases hpri with ⟨r, hr, hpri⟩
    rw [List.mem_filter] at hr
    exact ⟨r, hr.1, hpri, of_decide_eq_true hr.2⟩

theorem classifiesMatched_iff_ports
    : ClassifiesMatched [portRule 0 5 10] (portPacket 0)
        ↔ ∃ r ∈ [portRule 0 5 10], matched r (portPacket 0) = 1 :=
  classifiesMatched_iff (by simp) (by decide) (portPacket 0)

theorem not_classifiesMatched_ports : ¬ ClassifiesMatched [portRule 0 5 10] (portPacket 0) := by
  have hsingle : ∀ r ∈ [portRule 0 5 10], matched r (portPacket 0) ≠ 1 := by decide
  intro h
  have hleaf : BuildsHSTree [portRule 0 5 10] 0 (leafNode 0 [portRule 0 5 10] 0) := ⟨1, by rfl⟩
  rcases h _ _ hleaf rfl 0 (by decide) with ⟨r, hr, -, hmatched⟩
  exact hsingle r hr hmatched

/--
The construction ends, and for a rule set that comes out of a rule list no depth is truncated.
-/
theorem buildHSTree_terminates_depth (hne : ruleset ≠ []) (hvalid : ∀ r ∈ ruleset, r.Valid)
    : ∃ root, BuildsHSTree ruleset 0 root
        ∧ (ruleset.length ≤ RULE_ENTRY_MAX → ∀ path node, root.get? path = some node
          → path.length ≤ 255 ∧ node.depth.toNat = path.length) := by
  rcases exists_buildsHSTree hne hvalid 0 with ⟨root, hbuild, hrep⟩
  refine ⟨root, hbuild, ?_⟩
  intro hlen path node hnode
  have hlt : 2 * (boxes ruleset).length - 2 < 2 ^ 18 := by
    rw [boxes, List.length_map]
    rw [RULE_ENTRY_MAX] at hlen
    omega
  have hdepth := length_le_height hnode
  have hheight := hrep.built.height_le_potential
  have hpotential := Box.potential_le hlt
  rw [Fintype.card_fin] at hpotential
  have hle : path.length ≤ 255 := by
    change _ ≤ 11 * 18 at hpotential
    omega
  refine ⟨hle, ?_⟩
  have hstored := hrep.stored.get? hnode
  rw [hstored.depth_eq, Nat.zero_add, UInt8.toNat_ofNat']
  omega

theorem buildHSTree_terminates_depth_ports
    : ∃ root, BuildsHSTree [portRule 0 0 5, portRule 1 6 10] 0 root
        ∧ (2 ≤ RULE_ENTRY_MAX → ∀ path node, root.get? path = some node
          → path.length ≤ 255 ∧ node.depth.toNat = path.length) :=
  @buildHSTree_terminates_depth [portRule 0 0 5, portRule 1 6 10] (by simp) (by decide)

end Classification

end SecFw.Acl
