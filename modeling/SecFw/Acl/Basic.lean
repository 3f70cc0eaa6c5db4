import SecFw.Words.Basic

/-!
This module contains the data model of the packet classifier: the dimensions, the rules, the
packets and the nodes of the hyper-splitting tree.
-/

namespace SecFw.Acl

abbrev DIM : Nat := 11

abbrev Rule_Num_Threshold : Nat := 0

scoped instance neZero_two : NeZero 2 := ⟨by decide⟩

scoped instance neZero_DIM : NeZero DIM := ⟨by decide⟩

def FLAG (d : Fin DIM) : Nat := [2, 2, 0, 0, 0, 0, 0].getD d 0

def BITNUMBER (k : Nat) : Nat := [32, 128, 64].getD k 0

def numberBits (d : Fin DIM) : Nat := BITNUMBER (FLAG d)

def numWords (d : Fin DIM) : Nat := numberBits d >>> 5

theorem numWords_le (d : Fin DIM) : numWords d ≤ 4 := by
  revert d
  decide

theorem numWords_pos (d : Fin DIM) : 0 < numWords d := by
  revert d
  decide

theorem numWords_cases (d : Fin DIM) : numWords d = 1 ∨ numWords d = 2 ∨ numWords d = 4 := by
  revert d
  decide

theorem numberBits_eq (d : Fin DIM) : numberBits d = 32 * numWords d := by
  revert d
  decide

structure Rule where
  -- a rule, `range d 0` is the start and `range d 1` the end of its range in dimension `d`
  pri : Nat
  ruleId : Nat
  range : (d : Fin DIM) → Fin 2 → Words (numWords d)

abbrev RuleSet : Type := List Rule

/-- Every range of the rule has its start at or before its end. -/
def Rule.Valid (r : Rule) : Prop := ∀ d, r.range d 0 ≤ r.range d 1

instance (r : Rule) : Decidable r.Valid :=
  inferInstanceAs (Decidable (∀ d, r.range d 0 ≤ r.range d 1))

abbrev Packet : Type := Fin DIM → Words 4

def Packet.field (packet : Packet) (d : Fin DIM) : Words (numWords d) :=
  (packet d).low (numWords_le d)

inductive HsNode where
  -- a node of the tree. The `p2s` and `child` of a leaf are NULL, the `rule` of an inner node is
  -- NULL. The `flag` of an inner node is never written
  | leaf (flag : UInt8) (depth : UInt8) (num_rule : UInt16) (rule : List Nat)
  | node (d2s : Fin DIM) (depth : UInt8) (p2s : Words (numWords d2s)) (child0 child1 : HsNode)

namespace HsNode

def depth : HsNode → UInt8
  | .leaf _ depth _ _ => depth
  | .node _ depth _ _ _ => depth

def rule : HsNode → List Nat
  | .leaf _ _ _ rule => rule
  | .node .. => []

def get? : HsNode → List (Fin 2) → Option HsNode
  | t, [] => some t
  | .leaf .., _ :: _ => none
  | .node _ _ _ child0 child1, i :: path => if i = 0 then child0.get? path else child1.get? path

end HsNode

end SecFw.Acl
