import SecFw.Common.AclRule

/-!
This module contains the rule store of the management plane. Its counter, the status of its entries
and the absence of duplicates are kept in line by every sequence of operations, so that it is a
table of tuples with one slot per entry.
-/

namespace SecFw.Srv

abbrev RULE_OK : Int := 0
abbrev RULE_FULL : Int := 1
abbrev RULE_EXIST : Int := 2
abbrev RULE_NOT_EXIST : Int := 3

open EntryStatus BuildStatus RuleList

def ruleCompare (rule1 rule2 : RCP_BLOCK_ACL_RULE_TUPLE) : Int :=
  Bytes.memcmp rule1.toBytes rule2.toBytes

def findFirstFree (rule_list : RuleList) : Option (Fin RULE_ENTRY_MAX) :=
  -- `none` is -1
  Fin.find? fun i => (getElem rule_list.rule_entry i i.isLt).entry_status = RULE_ENTRY_STATUS_FREE

def findRule (rule_list : RuleList) (rule : RCP_BLOCK_ACL_RULE_TUPLE)
    : Option (Fin RULE_ENTRY_MAX) :=
  Fin.find? fun i => (getElem rule_list.rule_entry i i.isLt).entry_status ≠ RULE_ENTRY_STATUS_FREE
    ∧ ruleCompare (getElem rule_list.rule_entry i i.isLt).rule_tuple rule = 0

def ruleDuplicateCheck (rule_list : RuleList) (rule : RCP_BLOCK_ACL_RULE_TUPLE) : Int :=
  -- it compares with the arguments the other way round
  let found := Fin.find? fun i =>
    (getElem rule_list.rule_entry i i.isLt).entry_status ≠ RULE_ENTRY_STATUS_FREE
      ∧ ruleCompare rule (getElem rule_list.rule_entry i i.isLt).rule_tuple = 0
  if found.isSome then RULE_EXIST else RULE_OK

def ruleListInit : RuleList where
  -- `Rule_list_init` zeroes the shared memory and sets the counter
  rule_entry_free := RULE_ENTRY_MAX
  build_status := RULE_BUILD_UNCOMMIT
  rule_entry := .replicate RULE_ENTRY_MAX ⟨RULE_ENTRY_STATUS_FREE, zeroTuple⟩

def useEntry (rule_list : RuleList) (index : Fin RULE_ENTRY_MAX)
    (rule : RCP_BLOCK_ACL_RULE_TUPLE) : RuleList where
  rule_entry_free := rule_list.rule_entry_free - 1
  build_status := RULE_BUILD_UNCOMMIT
  rule_entry := rule_list.rule_entry.set index ⟨RULE_ENTRY_STATUS_USED, rule⟩ index.isLt

def freeEntry (rule_list : RuleList) (index : Fin RULE_ENTRY_MAX) : RuleList where
  rule_entry_free := rule_list.rule_entry_free + 1
  build_status := RULE_BUILD_UNCOMMIT
  rule_entry := rule_list.rule_entry.set index
    { getElem rule_list.rule_entry index index.isLt with entry_status := RULE_ENTRY_STATUS_FREE }
    index.isLt

def ruleAdd (rule_list : RuleList) (rule : RCP_BLOCK_ACL_RULE_TUPLE) : RuleList × Int :=
  if rule_list.rule_entry_free = 0 then
    (rule_list, RULE_FULL)
  else if RULE_EXIST = ruleDuplicateCheck rule_list rule then
    (rule_list, RULE_EXIST)
  else
    match findFirstFree rule_list with
    | none => (rule_list, RULE_FULL)
    | some index => (useEntry rule_list index rule, RULE_OK)

def ruleDel (rule_list : RuleList) (rule : RCP_BLOCK_ACL_RULE_TUPLE) : RuleList × Int :=
  if rule_list.rule_entry_free = RULE_ENTRY_MAX then
    (rule_list, RULE_NOT_EXIST)
  else
    match findRule rule_list rule with
    | none => (rule_list, RULE_NOT_EXIST)
    | some i => (freeEntry rule_list i, RULE_OK)

def ruleDelById (rule_list : RuleList) (rule_id : Fin RULE_ENTRY_MAX) : RuleList × Int :=
  -- `Rule_del_by_id` for an index inside of the array
  if RULE_ENTRY_MAX = rule_list.rule_entry_free then
    (rule_list, RULE_NOT_EXIST)
  else if RULE_ENTRY_STATUS_FREE = (getElem rule_list.rule_entry rule_id rule_id.isLt).entry_status then
    (rule_list, RULE_NOT_EXIST)
  else
    (freeEntry rule_list rule_id, RULE_OK)

def ruleDelAll (rule_list : RuleList) : RuleList × Int :=
  let rule_list := {
    rule_entry_free := RULE_ENTRY_MAX
    build_status := RULE_BUILD_UNCOMMIT
    rule_entry := rule_list.rule_entry.map fun e =>
      { e with entry_status := RULE_ENTRY_STATUS_FREE }
  }
  (rule_list, RULE_OK)

inductive Call where
  | add (rule : RCP_BLOCK_ACL_RULE_TUPLE)
  | del (rule : RCP_BLOCK_ACL_RULE_TUPLE)
  | delById (rule_id : Fin RULE_ENTRY_MAX)
  | delAll

def Call.run (rule_list : RuleList) : Call → RuleList × Int
  | .add rule => ruleAdd rule_list rule
  | .del rule => ruleDel rule_list rule
  | .delById rule_id => ruleDelById rule_list rule_id
  | .delAll => ruleDelAll rule_list

def runCalls (calls : List Call) : RuleList :=
  calls.foldl (fun rule_list call => (call.run rule_list).1) ruleListInit

/-- The counter counts the free entries and no tuple is stored twice. -/
structure Consistent (rule_list : RuleList) : Prop where
  free_eq : rule_list.rule_entry_free = rule_list.slots.numFree
  unique : rule_list.slots.Unique

/--
What a call does to a table of tuples, and that it leaves the store as it is when it fails.
-/
inductive CallSpec (rule_list : RuleList) : Call → RuleList × Int → Prop where
  | addFull {rule : RCP_BLOCK_ACL_RULE_TUPLE} (hfull : rule_list.slots.Full)
    : CallSpec rule_list (.add rule) (rule_list, RULE_FULL)
  | addExist {rule : RCP_BLOCK_ACL_RULE_TUPLE} (hfull : ¬ rule_list.slots.Full)
      (hmem : rule ∈ rule_list.slots.contents)
    : CallSpec rule_list (.add rule) (rule_list, RULE_EXIST)
  | addOk {rule : RCP_BLOCK_ACL_RULE_TUPLE} {rule_list' : RuleList} {i : Fin RULE_ENTRY_MAX}
      (hfree : rule_list.slots i = none) (hmem : rule ∉ rule_list.slots.contents)
      (hslots : rule_list'.slots = rule_list.slots.insert i rule)
    : CallSpec rule_list (.add rule) (rule_list', RULE_OK)
  | delOk {rule : RCP_BLOCK_ACL_RULE_TUPLE} {rule_list' : RuleList} {i : Fin RULE_ENTRY_MAX}
      (hused : rule_list.slots i = some rule)
      (hslots : rule_list'.slots = rule_list.slots.remove i)
    : CallSpec rule_list (.del rule) (rule_list', RULE_OK)
  | delNotExist {rule : RCP_BLOCK_ACL_RULE_TUPLE} (hmem : rule ∉ rule_list.slots.contents)
    : CallSpec rule_list (.del rule) (rule_list, RULE_NOT_EXIST)
  | delByIdOk {rule : RCP_BLOCK_ACL_RULE_TUPLE} {rule_list' : RuleList} {i : Fin RULE_ENTRY_MAX}
      (hused : rule_list.slots i = some rule)
      (hslots : rule_list'.slots = rule_list.slots.remove i)
    : CallSpec rule_list (.delById i) (rule_list', RULE_OK)
  | delByIdNotExist {i : Fin RULE_ENTRY_MAX} (hfree : rule_list.slots i = none)
    : CallSpec rule_list (.delById i) (rule_list, RULE_NOT_EXIST)
  | delAll {rule_list' : RuleList} (hslots : rule_list'.slots = fun _ => none)
    : CallSpec rule_list .delAll (rule_list', RULE_OK)

section Lemmas

variable {rule_list : RuleList} {rule : RCP_BLOCK_ACL_RULE_TUPLE} {i : Fin RULE_ENTRY_MAX}

theorem ruleCompare_eq_zero {rule1 rule2 : RCP_BLOCK_ACL_RULE_TUPLE}
    : ruleCompare rule1 rule2 = 0 ↔ rule1 = rule2 := by
  rw [ruleCompare, Bytes.memcmp_eq_zero]
  . constructor
    . exact RCP_BLOCK_ACL_RULE_TUPLE.toBytes_injective
    . exact congrArg _
  . simp only [RCP_BLOCK_ACL_RULE_TUPLE.length_toBytes]

theorem findFirstFree_eq_none : findFirstFree rule_list = none ↔ rule_list.slots.Full := by
  simp only [findFirstFree, Fin.find?_eq_none_iff, decide_eq_false_iff_not, Slots.Full, ne_eq,
    slots_eq_none]

theorem slots_of_findFirstFree (h : findFirstFree rule_list = some i)
    : rule_list.slots i = none :=
  slots_eq_none.mpr (of_decide_eq_true (Fin.eq_true_of_find?_eq_some h))

theorem findRule_eq_none
    : findRule rule_list rule = none ↔ rule ∉ rule_list.slots.contents := by
  simp only [findRule, Fin.find?_eq_none_iff, decide_eq_false_iff_not, ruleCompare_eq_zero,
    ← slots_eq_some, Slots.mem_contents, not_exists]

theorem slots_of_findRule (h : findRule rule_list rule = some i)
    : rule_list.slots i = some rule := by
  have := of_decide_eq_true (Fin.eq_true_of_find?_eq_some h)
  rwa [ruleCompare_eq_zero, ← slots_eq_some] at this

theorem ruleDuplicateCheck_eq_exist
    : RULE_EXIST = ruleDuplicateCheck rule_list rule ↔ rule ∈ rule_list.slots.contents := by
  have hfind : (Fin.find? fun i => decide
        (rule_list.rule_entry[i].entry_status ≠ RULE_ENTRY_STATUS_FREE
          ∧ ruleCompare rule rule_list.rule_entry[i].rule_tuple = 0)).isSome
      ↔ rule ∈ rule_list.slots.contents := by
    simp only [Fin.isSome_find?_iff, decide_eq_true_iff, ruleCompare_eq_zero, Slots.mem_contents,
      slots_eq_some, eq_comm (a := rule)]
  rw [← hfind, ruleDuplicateCheck]
  split
  . next h => simpa using h
  . next h => simpa [RULE_EXIST, RULE_OK] using h

theorem slots_useEntry
    : (useEntry rule_list i rule).slots = rule_list.slots.insert i rule := by
  funext j
  by_cases h : j = i
  . subst h
    simp [slots, useEntry]
  . have hne : i.val ≠ j.val := fun heq => h (Fin.ext heq).symm
    simp [slots, useEntry, h, hne]

theorem slots_freeEntry : (freeEntry rule_list i).slots = rule_list.slots.remove i := by
  funext j
  by_cases h : j = i
  . subst h
    simp [slots, freeEntry]
  . have hne : i.val ≠ j.val := fun heq => h (Fin.ext heq).symm
    simp [slots, freeEntry, h, hne]

theorem slots_ruleListInit : ruleListInit.slots = fun _ => none := by
  funext i
  simp [slots, ruleListInit]

theorem slots_ruleDelAll : (ruleDelAll rule_list).1.slots = fun _ => none := by
  funext i
  simp [slots, ruleDelAll]

end Lemmas

namespace Consistent

variable {rule_list : RuleList}

theorem free_eq_zero (h : Consistent rule_list)
    : rule_list.rule_entry_free = 0 ↔ rule_list.slots.Full := by
  rw [h.free_eq, ← Slots.numFree_eq_zero]
  exact Int.natCast_eq_zero

theorem free_eq_max (h : Consistent rule_list)
    : rule_list.rule_entry_free = RULE_ENTRY_MAX ↔ ∀ i, rule_list.slots i = none := by
  rw [h.free_eq, ← Slots.numFree_eq_card, Fintype.card_fin]
  exact Int.natCast_inj

theorem callSpec (h : Consistent rule_list) (call : Call)
    : CallSpec rule_list call (call.run rule_list) := by
  cases call with
  | add rule =>
    simp only [Call.run, ruleAdd]
    split
    . next hzero => exact .addFull (h.free_eq_zero.mp hzero)
    . next hzero =>
      have hfull := mt h.free_eq_zero.mpr hzero
      split
      . next hexist => exact .addExist hfull (ruleDuplicateCheck_eq_exist.mp hexist)
      . next hexist =>
        have hmem := mt ruleDuplicateCheck_eq_exist.mpr hexist
        split
        . next hfind => exact absurd (findFirstFree_eq_none.mp hfind) hfull
        . next i hfind => exact .addOk (slots_of_findFirstFree hfind) hmem slots_useEntry
  | del rule =>
    simp only [Call.run, ruleDel]
    split
    . next hmax =>
      apply CallSpec.delNotExist
      rintro ⟨i, hi⟩
      simp [h.free_eq_max.mp hmax i] at hi
    . split
      . next hfind => exact .delNotExist (findRule_eq_none.mp hfind)
      . next i hfind => exact .delOk (slots_of_findRule hfind) slots_freeEntry
  | delById i =>
    simp only [Call.run, ruleDelById]
    split
    . next hmax => exact .delByIdNotExist (h.free_eq_max.mp hmax.symm i)
    . split
      . next hfree => exact .delByIdNotExist (slots_eq_none.mpr hfree.symm)
      . next hused => exact .delByIdOk (slots_eq_some.mpr ⟨Ne.symm hused, rfl⟩) slots_freeEntry
  | delAll => exact .delAll slots_ruleDelAll

theorem init : Consistent ruleListInit := by
  constructor
  . rw [slots_ruleListInit, Slots.numFree_empty, Fintype.card_fin]
    rfl
  . rw [slots_ruleListInit]
    exact Slots.unique_empty

theorem useEntry (h : Consistent rule_list) {i : Fin RULE_ENTRY_MAX}
    {rule : RCP_BLOCK_ACL_RULE_TUPLE} (hfree : rule_list.slots i = none)
    (hmem : rule ∉ rule_list.slots.contents) : Consistent (useEntry rule_list i rule) := by
  have hcount := Slots.numFree_insert (a := rule) hfree
  have hfree_eq := h.free_eq
  constructor
  . rw [slots_useEntry]
    simp only [Srv.useEntry]
    omega
  . rw [slots_useEntry]
    exact h.unique.insert hmem

theorem freeEntry (h : Consistent rule_list) {i : Fin RULE_ENTRY_MAX}
    {rule : RCP_BLOCK_ACL_RULE_TUPLE} (hused : rule_list.slots i = some rule)
    : Consistent (freeEntry rule_list i) := by
  have hcount := Slots.numFree_remove hused
  have hfree_eq := h.free_eq
  constructor
  . rw [slots_freeEntry]
    simp only [Srv.freeEntry]
    omega
  . rw [slots_freeEntry]
    exact h.unique.remove

theorem run (h : Consistent rule_list) (call : Call) : Consistent (call.run rule_list).1 := by
  cases call with
  | add rule =>
    simp only [Call.run, ruleAdd]
    split
    . exact h
    . split
      . exact h
      . next hexist =>
        have hmem := mt ruleDuplicateCheck_eq_exist.mpr hexist
        split
        . exact h
        . next i hfind => exact h.useEntry (slots_of_findFirstFree hfind) hmem
  | del rule =>
    simp only [Call.run, ruleDel]
    split
    . exact h
    . split
      . exact h
      . next i hfind => exact h.freeEntry (slots_of_findRule hfind)
  | delById i =>
    simp only [Call.run, ruleDelById]
    split
    . exact h
    . split
      . exact h
      . next hused => exact h.freeEntry (slots_eq_some.mpr ⟨Ne.symm hused, rfl⟩)
  | delAll =>
    constructor
    . rw [Call.run, slots_ruleDelAll, Slots.numFree_empty, Fintype.card_fin]
      rfl
    . rw [Call.run, slots_ruleDelAll]
      exact Slots.unique_empty

theorem foldl (h : Consistent rule_list) (calls : List Call)
    : Consistent (calls.foldl (fun rule_list call => (call.run rule_list).1) rule_list) := by
  induction calls generalizing rule_list with
  | nil => exact h
  | cons call calls ih => exact ih (h.run call)

end Consistent

theorem consistent_runCalls (calls : List Call) : Consistent (runCalls calls) :=
  Consistent.init.foldl calls

/-- After every sequence of calls the store is consistent and the next call does what it should. -/
theorem runCalls_refines (calls : List Call)
    : Consistent (runCalls calls)
        ∧ ∀ call, CallSpec (runCalls calls) call (call.run (runCalls calls)) := by
  have h := consistent_runCalls calls
  exact ⟨h, h.callSpec⟩

section Set

variable {rule_list rule_list' : RuleList} {ret : Int}

theorem contents_of_add {rule : RCP_BLOCK_ACL_RULE_TUPLE}
    (h : CallSpec rule_list (.add rule) (rule_list', ret))
    : rule_list'.slots.contents = if ret = RULE_OK then Set.insert rule rule_list.slots.contents
        else rule_list.slots.contents := by
  cases h with
  | addFull hfull => simp [RULE_FULL, RULE_OK]
  | addExist hfull hmem => simp [RULE_EXIST, RULE_OK]
  | addOk hfree hmem hslots => rw [hslots, Slots.contents_insert hfree, if_pos rfl]

theorem contents_of_del {rule : RCP_BLOCK_ACL_RULE_TUPLE} (hunique : rule_list.slots.Unique)
    (h : CallSpec rule_list (.del rule) (rule_list', ret))
    : rule_list'.slots.contents = rule_list.slots.contents \ {rule} := by
  cases h with
  | delOk hused hslots => rw [hslots, Slots.contents_remove hunique hused]
  | delNotExist hmem => rw [Set.sdiff_singleton_eq_self hmem]

theorem runCalls_contents (calls : List Call) (rule : RCP_BLOCK_ACL_RULE_TUPLE)
    : ((ruleAdd (runCalls calls) rule).2 = RULE_OK
        → (ruleAdd (runCalls calls) rule).1.slots.contents
          = Set.insert rule (runCalls calls).slots.contents)
      ∧ (ruleDel (runCalls calls) rule).1.slots.contents
        = (runCalls calls).slots.contents \ {rule} := by
  have h := consistent_runCalls calls
  constructor
  . intro hok
    have hadd : CallSpec (runCalls calls) (.add rule)
        ((ruleAdd (runCalls calls) rule).1, (ruleAdd (runCalls calls) rule).2) := h.callSpec (.add rule)
    rw [contents_of_add hadd, if_pos hok]
  . have hdel : CallSpec (runCalls calls) (.del rule)
        ((ruleDel (runCalls calls) rule).1, (ruleDel (runCalls calls) rule).2) := h.callSpec (.del rule)
    exact contents_of_del h.unique hdel

end Set

section Undo

variable {rule_list rule_list1 : RuleList} {rule : RCP_BLOCK_ACL_RULE_TUPLE}

structure Undone (before after : RuleList) : Prop where
  contents : after.slots.contents = before.slots.contents
  rule_entry_free : after.rule_entry_free = before.rule_entry_free
  entry_status : ∀ i : Fin RULE_ENTRY_MAX,
    after.rule_entry[i].entry_status = before.rule_entry[i].entry_status

theorem ruleAdd_ok (h : ruleAdd rule_list rule = (rule_list1, RULE_OK))
    : rule ∉ rule_list.slots.contents
      ∧ ∃ i, findFirstFree rule_list = some i ∧ rule_list1 = useEntry rule_list i rule := by
  unfold ruleAdd at h
  split at h
  . simp [RULE_FULL, RULE_OK] at h
  split at h
  . simp [RULE_EXIST, RULE_OK] at h
  next hexist =>
    split at h
    . simp [RULE_FULL, RULE_OK] at h
    . next i hfind =>
      rw [Prod.mk.injEq] at h
      exact ⟨mt ruleDuplicateCheck_eq_exist.mpr hexist, i, hfind, h.1.symm⟩

theorem findRule_useEntry {i : Fin RULE_ENTRY_MAX} (hmem : rule ∉ rule_list.slots.contents)
    : findRule (useEntry rule_list i rule) rule = some i := by
  cases hfind : findRule (useEntry rule_list i rule) rule with
  | none =>
    rw [findRule_eq_none, slots_useEntry] at hfind
    exact absurd ⟨i, Slots.insert_self⟩ hfind
  | some j =>
    have hj := slots_of_findRule hfind
    rw [slots_useEntry] at hj
    by_cases hji : j = i
    . rw [hji]
    . rw [Slots.insert_of_ne hji] at hj
      exact absurd ⟨j, hj⟩ hmem

theorem undone_freeEntry {i : Fin RULE_ENTRY_MAX} (hfree : rule_list.slots i = none)
    : Undone rule_list (freeEntry (useEntry rule_list i rule) i) := by
  have hslots : (freeEntry (useEntry rule_list i rule) i).slots = rule_list.slots := by
    rw [slots_freeEntry, slots_useEntry]
    funext j
    by_cases hji : j = i
    . rw [hji, Slots.remove_self, hfree]
    . rw [Slots.remove_of_ne hji, Slots.insert_of_ne hji]
  constructor
  case contents => rw [hslots]
  case rule_entry_free =>
    simp only [freeEntry, useEntry]
    omega
  case entry_status =>
    intro j
    by_cases hji : j = i
    . subst hji
      have hstatus := (RuleList.slots_eq_none.mp hfree).symm
      simpa [freeEntry, useEntry] using hstatus
    . have hne : i.val ≠ j.val := fun heq => hji (Fin.ext heq).symm
      simp [freeEntry, useEntry, hne]

theorem Consistent.undone (h : Consistent rule_list)
    (hadd : ruleAdd rule_list rule = (rule_list1, RULE_OK))
    : ∃ rule_list2, ruleDel rule_list1 rule = (rule_list2, RULE_OK) ∧ Undone rule_list rule_list2 := by
  rcases ruleAdd_ok hadd with ⟨hmem, i, hfind, rfl⟩
  have hfree := slots_of_findFirstFree hfind
  have hused : (Srv.useEntry rule_list i rule).slots i = some rule := by
    rw [slots_useEntry, Slots.insert_self]
  have hmax : ¬ (Srv.useEntry rule_list i rule).rule_entry_free = RULE_ENTRY_MAX := by
    intro hmax
    rw [(h.useEntry hfree hmem).free_eq_max.mp hmax i] at hused
    exact Option.some_ne_none _ hused.symm
  have hdel : ruleDel (Srv.useEntry rule_list i rule) rule
      = (Srv.freeEntry (Srv.useEntry rule_list i rule) i, RULE_OK) := by
    rw [ruleDel, if_neg hmax, findRule_useEntry hmem]
  exact ⟨_, hdel, undone_freeEntry hfree⟩

end Undo

end SecFw.Srv
