import SecFw.Acl.LoadedRules

/-!
This module contains what the users of the loader expect of the rule set: the rules are the ones of
the rule list, and the construction of the tree can read all of their ranges.
-/

namespace SecFw.Acl

/-- The `k`-th rule is the one of the `k`-th used entry. -/
def Faithful (rule_list : RuleList) (st : LoadState) : Prop :=
  ∀ (k : Nat) e, (usedEntries rule_list)[k]? = some e →
    ∃ r, st.ruleset[k]? = some r ∧ r.action = e.2.action.toUInt32 ∧ r.rule_id = UInt32.ofNat e.1
      ∧ HasRanges st.heap r.range e.2

/-- All used entries ask for the ranges that the last one asks for. -/
def Agree (rule_list : RuleList) : Prop :=
  ∀ e ∈ usedEntries rule_list, ∀ last ∈ (usedEntries rule_list).getLast?,
    ∀ d ∈ matchDims, tupleRange e.2 d = tupleRange last.2 d

def Holds (heap : Heap UInt32) (p : Ptr) (w : Words n) : Prop :=
  ∀ i, i < n → heap.load p i = w.toList[i]?

/-- Both ends of the range in dimension `d` are there and in order. -/
def HasEnds (heap : Heap UInt32) (dim : RangePtrs) (d : Fin DIM) : Prop :=
  ∃ first last : Words (numWords d),
    Holds heap (dim d 0) first ∧ Holds heap (dim d 1) last ∧ first ≤ last

/-- What the construction of the tree reads is there and in order. -/
def Ready (st : LoadState) : Prop := ∀ r ∈ st.ruleset, ∀ d, HasEnds st.heap r.range d

/-- The checks that the command line makes before it sends a rule. -/
def CliChecked (rule_list : RuleList) : Prop :=
  ∀ e ∈ usedEntries rule_list, e.2.sip_mask ≤ 32 ∧ e.2.dip_mask ≤ 32
    ∧ e.2.sport_start ≤ e.2.sport_end ∧ e.2.dport_start ≤ e.2.dport_end
    ∧ e.2.protocol_start ≤ e.2.protocol_end

section Faithful

variable {heap : Heap UInt32} {dim : RangePtrs} {rule_list : RuleList} {st : LoadState}
  {t t' : RCP_BLOCK_ACL_RULE_TUPLE}

theorem HasRanges.tupleRange_eq (h : HasRanges heap dim t) (h' : HasRanges heap dim t')
    : ∀ d ∈ matchDims, tupleRange t d = tupleRange t' d := by
  intro d hd
  rcases h d hd with ⟨range, hrange, hfirst, hlast⟩
  rcases h' d hd with ⟨range', hrange', hfirst', hlast'⟩
  rw [hfirst, Option.some.injEq] at hfirst'
  rw [hlast, Option.some.injEq] at hlast'
  rw [hrange, hrange', Prod.ext hfirst' hlast']

theorem HasRanges.of_tupleRange_eq (h : HasRanges heap dim t)
    (heq : ∀ d ∈ matchDims, tupleRange t' d = tupleRange t d) : HasRanges heap dim t' := by
  intro d hd
  rw [heq d hd]
  exact h d hd

theorem mem_usedEntries {i : Fin RULE_ENTRY_MAX}
    : (i, t) ∈ usedEntries rule_list ↔ rule_list.slots i = some t := by
  simp [usedEntries, usedOf]

theorem Filled.faithful_iff_hasRanges (h : Filled rule_list st)
    : Faithful rule_list st ↔ ∀ e ∈ usedEntries rule_list, HasRanges st.heap st.dim e.2 := by
  constructor
  . intro hfaithful e he
    rcases List.getElem?_of_mem he with ⟨k, hk⟩
    rcases hfaithful k e hk with ⟨r, hr, -, -, hranges⟩
    rcases h.rule k e hk with ⟨r', hr', -, -, hdim⟩
    rw [hr, Option.some.injEq] at hr'
    subst hr'
    rwa [hdim] at hranges
  . intro hranges k e hk
    rcases h.rule k e hk with ⟨r, hr, haction, hid, hdim⟩
    refine ⟨r, hr, haction, hid, ?_⟩
    rw [hdim]
    exact hranges e (List.mem_of_getElem? hk)

theorem Filled.faithful_iff (h : Filled rule_list st) : Faithful rule_list st ↔ Agree rule_list := by
  rw [h.faithful_iff_hasRanges]
  constructor
  . intro hranges e he last hlast
    exact (hranges e he).tupleRange_eq (h.last last hlast)
  . intro hagree e he
    have hne : usedEntries rule_list ≠ [] := List.ne_nil_of_mem he
    have hlast := List.getLast?_eq_some_getLast hne
    exact (h.last _ hlast).of_tupleRange_eq (hagree e he _ hlast)

theorem Filled.not_faithful_finish (h : Filled rule_list st) (hused : usedEntries rule_list ≠ [])
    : ¬Faithful rule_list (loadRuleFinish st) := by
  rcases List.exists_mem_of_ne_nil _ hused with ⟨e, he⟩
  rcases List.getElem?_of_mem he with ⟨k, hk⟩
  rcases h.rule k e hk with ⟨r, hr, -, -, hdim⟩
  intro hfaithful
  rcases hfaithful k e hk with ⟨r', hr', -, -, hranges⟩
  have heq : r = r' := Option.some.inj (hr.symm.trans hr')
  rcases hranges 4 (by decide) with ⟨range, -, hfirst, -⟩
  rw [← heq, hdim] at hfirst
  simp [loadRuleFinish, load_rangeFree] at hfirst

theorem Agree.tupleRange_eq (h : Agree rule_list)
    {e e' : Fin RULE_ENTRY_MAX × RCP_BLOCK_ACL_RULE_TUPLE} (he : e ∈ usedEntries rule_list)
    (he' : e' ∈ usedEntries rule_list) : ∀ d ∈ matchDims, tupleRange e.2 d = tupleRange e'.2 d := by
  intro d hd
  have hlast := List.getLast?_eq_some_getLast (List.ne_nil_of_mem he)
  rw [h e he _ hlast d hd, h e' he' _ hlast d hd]

end Faithful

theorem loadRule_faithful_iff (avail : Nat → Bool) (rule_list : RuleList)
    (hused : usedEntries rule_list ≠ [])
    : (∀ st, loadRuleFill avail rule_list = some st
        → (Faithful rule_list st ↔ Agree rule_list) ∧ ¬Faithful rule_list (loadRuleFinish st))
      ∧ ((∀ n, avail n = true)
        → (∀ e ∈ usedEntries rule_list, e.2.sip_mask ≤ 32 ∧ e.2.dip_mask ≤ 32)
        → ∃ st, loadRuleFill avail rule_list = some st) := by
  refine ⟨?_, exists_loadRuleFill⟩
  intro st hst
  have hfilled := loadRuleFill_spec hst
  exact ⟨hfilled.faithful_iff, hfilled.not_faithful_finish hused⟩

def webTuple (port : UInt16) : RCP_BLOCK_ACL_RULE_TUPLE where
  smac := .replicate 6 0
  dmac := .replicate 6 0
  sip := 0x0A000000
  sip_mask := 8
  dip := 0xC0A80001
  dip_mask := 32
  sport_start := port
  sport_end := port
  dport_start := 80
  dport_end := 80
  protocol_start := 6
  protocol_end := 6
  action := 0

def twoEntries (k : Nat) : RuleEntry :=
  if k = 0 then ⟨.RULE_ENTRY_STATUS_USED, webTuple 1000⟩
  else if k = 1 then ⟨.RULE_ENTRY_STATUS_USED, webTuple 2000⟩
  else ⟨.RULE_ENTRY_STATUS_FREE, zeroTuple⟩

def twoRules : RuleList where
  rule_entry_free := 99998
  build_status := .RULE_BUILD_COMMIT
  rule_entry := .ofFn fun i => twoEntries i

theorem mem_twoRules {i : Fin RULE_ENTRY_MAX} {t : RCP_BLOCK_ACL_RULE_TUPLE}
    : (i, t) ∈ usedEntries twoRules
        ↔ (twoEntries i).entry_status ≠ .RULE_ENTRY_STATUS_FREE ∧ (twoEntries i).rule_tuple = t := by
  have hentry : twoRules.rule_entry[i] = twoEntries i := Vector.getElem_ofFn i.isLt
  rw [mem_usedEntries, RuleList.slots_eq_some, hentry]

theorem twoRules_fst : ((⟨0, by simp⟩ : Fin RULE_ENTRY_MAX), webTuple 1000) ∈ usedEntries twoRules :=
  mem_twoRules.mpr ⟨by simp [twoEntries], rfl⟩

theorem twoRules_snd : ((⟨1, by simp⟩ : Fin RULE_ENTRY_MAX), webTuple 2000) ∈ usedEntries twoRules :=
  mem_twoRules.mpr ⟨by simp [twoEntries], rfl⟩

theorem exists_webTuple {e : Fin RULE_ENTRY_MAX × RCP_BLOCK_ACL_RULE_TUPLE}
    (he : e ∈ usedEntries twoRules) : ∃ port, e.2 = webTuple port := by
  rcases mem_twoRules.mp he with ⟨hused, htuple⟩
  rw [← htuple]
  simp only [twoEntries] at hused ⊢
  split
  . exact ⟨1000, rfl⟩
  . split
    . exact ⟨2000, rfl⟩
    . simp_all

theorem cliChecked_twoRules : CliChecked twoRules := by
  intro e he
  rcases exists_webTuple he with ⟨port, heq⟩
  rw [heq]
  exact ⟨(by decide : (8 : UInt32) ≤ 32), (by decide : (32 : UInt32) ≤ 32), UInt16.le_refl port,
    UInt16.le_refl 80, UInt8.le_refl 6⟩

theorem CliChecked.masks {rule_list : RuleList} (h : CliChecked rule_list)
    : ∀ e ∈ usedEntries rule_list, e.2.sip_mask ≤ 32 ∧ e.2.dip_mask ≤ 32 := by
  intro e he
  exact ⟨(h e he).1, (h e he).2.1⟩

theorem not_agree_twoRules : ¬Agree twoRules := by
  intro h
  have := h.tupleRange_eq twoRules_fst twoRules_snd 4 (by decide)
  exact absurd this (by decide)

theorem loadRule_faithful_iff_twoRules
    : usedEntries twoRules ≠ []
      ∧ ∃ st, loadRuleFill (fun _ => true) twoRules = some st
        ∧ (Faithful twoRules st ↔ Agree twoRules)
        ∧ ¬Faithful twoRules (loadRuleFinish st) := by
  have hused : usedEntries twoRules ≠ [] := List.ne_nil_of_mem twoRules_fst
  rcases loadRule_faithful_iff (fun _ => true) twoRules hused with ⟨hfill, hexists⟩
  rcases hexists (fun _ => rfl) cliChecked_twoRules.masks with ⟨st, hst⟩
  exact ⟨hused, st, hst, hfill st hst⟩

theorem not_faithful_twoRules
    : usedEntries twoRules ≠ []
      ∧ ∃ st, loadRuleFill (fun _ => true) twoRules = some st
        ∧ ¬Faithful twoRules st ∧ ¬Faithful twoRules (loadRuleFinish st) := by
  have hused : usedEntries twoRules ≠ [] := List.ne_nil_of_mem twoRules_fst
  rcases exists_loadRuleFill (fun _ => rfl) cliChecked_twoRules.masks with ⟨st, hst⟩
  have hfilled := loadRuleFill_spec hst
  refine ⟨hused, st, hst, ?_, hfilled.not_faithful_finish hused⟩
  rw [hfilled.faithful_iff]
  exact not_agree_twoRules

section Ready

variable {rule_list : RuleList} {st : LoadState}

theorem last_unwritten (d : Fin DIM) (hd : d ∉ matchDims)
    : (d, 0) ∉ writtenSlots ∨ numWords d - 1 ≠ 0 := by
  revert d
  decide

theorem not_hasEnds_of_load {heap : Heap UInt32} {dim : RangePtrs} {d : Fin DIM}
    (h : heap.load (dim d 0) (numWords d - 1) = none) : ¬HasEnds heap dim d := by
  rintro ⟨first, -, hfirst, -⟩
  have hlt : numWords d - 1 < numWords d := Nat.sub_lt (numWords_pos d) Nat.one_pos
  have hword := hfirst (numWords d - 1) hlt
  rw [h, eq_comm, List.getElem?_eq_none_iff, first.length_eq] at hword
  omega

theorem Filled.not_hasEnds (h : Filled rule_list st) {r : LoadedRule} (hr : r ∈ st.ruleset)
    {d : Fin DIM} (hd : d ∉ matchDims) : ¬HasEnds st.heap r.range d := by
  apply not_hasEnds_of_load
  rcases h.range r hr with hdim | hnull
  . rw [hdim]
    exact h.unwritten (d, 0) _ (last_unwritten d hd)
  . rw [hnull, Heap.load_null]

theorem Filled.not_ready (h : Filled rule_list st) : ¬Ready st := by
  rcases List.exists_mem_of_ne_nil _ h.nonempty with ⟨r, hr⟩
  intro hready
  exact h.not_hasEnds hr (by decide : (2 : Fin DIM) ∉ matchDims) (hready r hr 2)

end Ready

theorem loadRule_not_ready (avail : Nat → Bool) (rule_list : RuleList)
    : (∀ st, loadRuleFill avail rule_list = some st
        → ¬Ready st ∧ ∀ r ∈ st.ruleset, ∀ d ∉ matchDims, ¬HasEnds st.heap r.range d)
      ∧ ((∀ n, avail n = true) → CliChecked rule_list
        → ∃ st, loadRuleFill avail rule_list = some st) := by
  refine ⟨?_, fun havail hcli => exists_loadRuleFill havail hcli.masks⟩
  intro st hst
  have hfilled := loadRuleFill_spec hst
  exact ⟨hfilled.not_ready, fun r hr d hd => hfilled.not_hasEnds hr hd⟩

theorem not_ready_twoRules
    : CliChecked twoRules ∧ ∃ st, loadRuleFill (fun _ => true) twoRules = some st ∧ ¬Ready st := by
  rcases exists_loadRuleFill (fun _ => rfl) cliChecked_twoRules.masks with ⟨st, hst⟩
  exact ⟨cliChecked_twoRules, st, hst, (loadRuleFill_spec hst).not_ready⟩

end SecFw.Acl
