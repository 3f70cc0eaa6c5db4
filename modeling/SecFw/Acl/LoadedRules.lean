import SecFw.Acl.IPRange

/-!
This module contains what the loader leaves behind: all rules of the set share the buffers of the
scratch filter, and some of these buffers are never written.
-/

namespace SecFw.Acl

def usedOf (rule_list : RuleList) (is : List (Fin RULE_ENTRY_MAX))
    : List (Fin RULE_ENTRY_MAX × RCP_BLOCK_ACL_RULE_TUPLE) :=
  is.filterMap fun i => (rule_list.slots i).map fun t => (i, t)

def usedEntries (rule_list : RuleList) : List (Fin RULE_ENTRY_MAX × RCP_BLOCK_ACL_RULE_TUPLE) :=
  usedOf rule_list (List.finRange RULE_ENTRY_MAX)

def matchDims : List (Fin DIM) := [4, 5, 8, 9, 10]

def tupleRange (t : RCP_BLOCK_ACL_RULE_TUPLE) (d : Fin DIM) : Option (UInt32 × UInt32) :=
  if d = 4 then some (t.sport_start.toUInt32, t.sport_end.toUInt32)
  else if d = 5 then some (t.dport_start.toUInt32, t.dport_end.toUInt32)
  else if d = 8 then some (t.protocol_start.toUInt32, t.protocol_end.toUInt32)
  else if d = 9 then readIPRange t.sip t.sip_mask
  else if d = 10 then readIPRange t.dip t.dip_mask
  else none

def HasRanges (heap : Heap UInt32) (dim : RangePtrs) (t : RCP_BLOCK_ACL_RULE_TUPLE) : Prop :=
  ∀ d ∈ matchDims, ∃ range, tupleRange t d = some range
    ∧ heap.load (dim d 0) 0 = some range.1 ∧ heap.load (dim d 1) 0 = some range.2

section Alloc

variable {avail : Nat → Bool} {heap : Heap UInt32} {dim : RangePtrs}

structure Buffers (heap : Heap UInt32) (dim : RangePtrs) (slots : List (Fin DIM × Fin 2)) : Prop where
  size : ∀ s ∈ slots, ∀ k, dim s.1 s.2 = some k → heap.size (some k) = some (rangeWords s.1)
  inj : ∀ s ∈ slots, ∀ t ∈ slots, ∀ k, dim s.1 s.2 = some k → dim t.1 t.2 = some k → s = t

theorem mem_rangeSlots (s : Fin DIM × Fin 2) : s ∈ rangeSlots := by
  revert s
  decide

theorem rangeSlots_nodup : rangeSlots.Nodup := by decide

theorem rangeWords_pos (d : Fin DIM) : 0 < rangeWords d := by
  revert d
  decide

theorem update_self (dim : RangePtrs) (d : Fin DIM) (j : Fin 2) (p : Ptr)
    : Function.update dim d (Function.update (dim d) j p) d j = p := by simp

theorem update_of_ne (dim : RangePtrs) {d d' : Fin DIM} {j j' : Fin 2} (p : Ptr)
    (h : (d', j') ≠ (d, j))
    : Function.update dim d (Function.update (dim d) j p) d' j' = dim d' j' := by
  by_cases hd : d' = d
  . subst hd
    have hj : j' ≠ j := by
      rintro rfl
      exact h rfl
    simp [hj]
  . simp [hd]

theorem Buffers.malloc {done : List (Fin DIM × Fin 2)} (h : Buffers heap dim done) (ok : Bool)
    {d : Fin DIM} {j : Fin 2} (hnew : (d, j) ∉ done)
    : Buffers (heap.malloc ok (rangeWords d)).2
        (Function.update dim d (Function.update (dim d) j (heap.malloc ok (rangeWords d)).1))
        (done ++ [(d, j)]) := by
  have hold (s : Fin DIM × Fin 2) (hs : s ∈ done) : s ≠ (d, j) := by
    rintro rfl
    exact hnew hs
  have hfresh (s : Fin DIM × Fin 2) (hs : s ∈ done) : dim s.1 s.2 ≠ some heap.next := by
    intro heq
    have hsize := h.size s hs _ heq
    rw [Heap.size, Heap.block_next] at hsize
    simp at hsize
  have hmem (s : Fin DIM × Fin 2) (hs : s ∈ done ++ [(d, j)]) : s ∈ done ∨ s = (d, j) := by
    simpa using hs
  constructor
  . intro s hs k hk
    cases hmem s hs with
    | inl hin =>
      rw [update_of_ne dim _ (hold s hin)] at hk
      exact Heap.size_malloc_of_size _ _ (h.size s hin k hk)
    | inr heq =>
      subst heq
      rw [update_self] at hk
      cases ok with
      | false => simp [Heap.malloc_fst] at hk
      | true => exact Heap.size_malloc hk
  . intro s hs t ht k hsk htk
    have hk (s : Fin DIM × Fin 2) (hs : s = (d, j))
        (hsk : Function.update dim d (Function.update (dim d) j (heap.malloc ok (rangeWords d)).1)
          s.1 s.2 = some k) : k = heap.next := by
      subst hs
      rw [update_self, Heap.malloc_fst] at hsk
      split at hsk
      . exact (Option.some.inj hsk).symm
      . simp at hsk
    rcases hmem s hs with hin | heq
    . rcases hmem t ht with hin' | heq'
      . rw [update_of_ne dim _ (hold s hin)] at hsk
        rw [update_of_ne dim _ (hold t hin')] at htk
        exact h.inj s hin t hin' k hsk htk
      . rw [update_of_ne dim _ (hold s hin), hk t heq' htk] at hsk
        exact absurd hsk (hfresh s hin)
    . rcases hmem t ht with hin' | heq'
      . rw [update_of_ne dim _ (hold t hin'), hk s heq hsk] at htk
        exact absurd htk (hfresh t hin')
      . rw [heq, heq']

theorem allocSlots_spec (avail : Nat → Bool) (slots : List (Fin DIM × Fin 2))
    {done : List (Fin DIM × Fin 2)} (h : Buffers heap dim done)
    (hnodup : (done ++ slots).Nodup)
    : Buffers (allocSlots avail heap dim slots).1 (allocSlots avail heap dim slots).2 (done ++ slots)
        ∧ (∀ q i, (allocSlots avail heap dim slots).1.load q i = heap.load q i)
        ∧ ((∀ n, avail n = true) → (∀ s ∈ done, dim s.1 s.2 ≠ none)
          → ∀ s ∈ done ++ slots, (allocSlots avail heap dim slots).2 s.1 s.2 ≠ none) := by
  induction slots generalizing heap dim done with
  | nil => simpa [allocSlots] using h
  | cons s slots ih =>
    rcases s with ⟨d, j⟩
    have hassoc : done ++ (d, j) :: slots = (done ++ [(d, j)]) ++ slots := by simp
    rw [hassoc] at hnodup ⊢
    have hnew : (d, j) ∉ done := by
      have := (List.nodup_append.mp hnodup).1
      rw [List.nodup_append] at this
      intro hin
      exact this.2.2 _ hin _ (by simp) rfl
    rcases ih (h.malloc (avail heap.next) hnew) hnodup with ⟨hbuffers, hload, hsome⟩
    refine ⟨hbuffers, ?_, ?_⟩
    . intro q i
      exact (hload q i).trans (Heap.load_malloc heap _ _ q i)
    . intro havail hdone
      apply hsome havail
      intro s hs
      rw [List.mem_append, List.mem_singleton] at hs
      by_cases heq : s = (d, j)
      . subst heq
        rw [update_self, Heap.malloc_fst, havail]
        simp
      . rw [update_of_ne dim _ heq]
        exact hdone s (hs.resolve_right heq)

theorem load_foldl_free (heap : Heap UInt32) (slots : List (Fin DIM × Fin 2)) (q : Ptr) (i : Nat)
    : (slots.foldl (fun heap s => heap.free (dim s.1 s.2)) heap).load q i
        =
      if ∃ s ∈ slots, q = dim s.1 s.2 then none else heap.load q i := by
  induction slots generalizing heap with
  | nil => simp
  | cons s slots ih =>
    rw [List.foldl_cons, ih, Heap.load_free]
    by_cases hs : q = dim s.1 s.2
    . simp [hs]
    . simp [hs]

theorem load_rangeFree (heap : Heap UInt32) (dim : RangePtrs) (d : Fin DIM) (j : Fin 2) (i : Nat)
    : (rangeFree heap dim).load (dim d j) i = none := by
  rw [rangeFree, load_foldl_free, if_pos ⟨(d, j), mem_rangeSlots (d, j), rfl⟩]

theorem load_rangeFree_of_none (heap : Heap UInt32) (dim : RangePtrs) (q : Ptr) (i : Nat)
    (h : heap.load q i = none) : (rangeFree heap dim).load q i = none := by
  rw [rangeFree, load_foldl_free, h]
  split <;> rfl

theorem rangeFree_null (heap : Heap UInt32) : rangeFree heap (fun _ _ => none) = heap := by
  rw [rangeFree]
  exact List.foldl_fixed rangeSlots

theorem rangeAlloc_spec (hload : ∀ q i, heap.load q i = none)
    : Buffers (rangeAlloc avail heap).1 (rangeAlloc avail heap).2 rangeSlots
        ∧ (∀ q i, (rangeAlloc avail heap).1.load q i = none)
        ∧ ((∀ n, avail n = true) → ∀ d j, (rangeAlloc avail heap).2 d j ≠ none) := by
  have hempty : Buffers heap (fun _ _ => none) [] := ⟨by simp, by simp⟩
  rcases allocSlots_spec avail rangeSlots hempty rangeSlots_nodup with
    ⟨hbuffers, hsame, hsome⟩
  simp only [rangeAlloc]
  split
  . next hmissing =>
    refine ⟨⟨by simp, by simp⟩, ?_, ?_⟩
    . intro q i
      apply load_rangeFree_of_none
      rw [hsame, hload]
    . intro havail
      rcases hmissing with ⟨d, j, hnone⟩
      exact absurd hnone (hsome havail (by simp) (d, j) (mem_rangeSlots _))
  . refine ⟨hbuffers, ?_, ?_⟩
    . intro q i
      rw [hsame, hload]
    . intro havail d j
      exact hsome havail (by simp) (d, j) (mem_rangeSlots _)

end Alloc

section Writes

variable {heap heap' : Heap UInt32} {dim : RangePtrs} {t : RCP_BLOCK_ACL_RULE_TUPLE}

def writtenSlots : List (Fin DIM × Fin 2) :=
  [(0, 0), (0, 1), (1, 0), (1, 1), (4, 0), (4, 1), (5, 0), (5, 1), (8, 0), (8, 1), (9, 0), (9, 1),
    (10, 0), (10, 1)]

theorem entryWrites_eq_some {writes : List ((Fin DIM × Fin 2) × UInt32)}
    (h : entryWrites t = some writes)
    : writes.map Prod.fst = writtenSlots
        ∧ ∀ d ∈ matchDims, ∃ range, tupleRange t d = some range
          ∧ ((d, 0), range.1) ∈ writes ∧ ((d, 1), range.2) ∈ writes := by
  simp only [entryWrites, Option.bind_eq_bind, Option.bind_eq_some_iff] at h
  rcases h with ⟨⟨sipFirst, sipLast⟩, hsip, ⟨dipFirst, dipLast⟩, hdip, h⟩
  rw [Option.some.injEq] at h
  subst h
  refine ⟨rfl, ?_⟩
  intro d hd
  simp only [matchDims, List.mem_cons, List.not_mem_nil, or_false] at hd
  rcases hd with rfl | rfl | rfl | rfl | rfl
  . exact ⟨_, rfl, by simp, by simp⟩
  . exact ⟨_, rfl, by simp, by simp⟩
  . exact ⟨_, rfl, by simp, by simp⟩
  . exact ⟨_, hsip, by simp, by simp⟩
  . exact ⟨_, hdip, by simp, by simp⟩

theorem storeWrites_spec (h : Buffers heap dim rangeSlots)
    {writes : List ((Fin DIM × Fin 2) × UInt32)} (hnodup : (writes.map Prod.fst).Nodup)
    (hstore : storeWrites heap dim writes = some heap')
    : Buffers heap' dim rangeSlots
        ∧ (∀ w ∈ writes, heap'.load (dim w.1.1 w.1.2) 0 = some w.2)
        ∧ ∀ s i, s ∉ writes.map Prod.fst ∨ i ≠ 0
          → heap'.load (dim s.1 s.2) i = heap.load (dim s.1 s.2) i := by
  induction writes generalizing heap with
  | nil =>
    simp only [storeWrites, List.foldlM_nil, Option.pure_def, Option.some.injEq] at hstore
    subst hstore
    exact ⟨h, by simp, by simp⟩
  | cons w writes ih =>
    simp only [storeWrites, List.foldlM_cons, Option.bind_eq_bind, Option.bind_eq_some_iff] at hstore
    rcases hstore with ⟨heap1, hfirst, hrest⟩
    rw [List.map_cons, List.nodup_cons] at hnodup
    have hbuffers : Buffers heap1 dim rangeSlots :=
      ⟨fun s hs k hk => (Heap.size_store hfirst _).trans (h.size s hs k hk), h.inj⟩
    rcases ih hbuffers hnodup.2 hrest with ⟨hbuffers', hwritten, hkept⟩
    refine ⟨hbuffers', ?_, ?_⟩
    . rw [List.forall_mem_cons]
      refine ⟨?_, hwritten⟩
      rw [hkept w.1 0 (Or.inl hnodup.1), Heap.load_store hfirst, if_pos ⟨rfl, rfl⟩]
    . intro s i hs
      rw [List.map_cons, List.mem_cons, not_or] at hs
      rw [hkept s i (hs.imp_left And.right), Heap.load_store hfirst]
      split
      . next heq =>
        rcases hs with hs | hi
        . -- a write through NULL fails, and different elements do not share a buffer
          cases hk : dim w.1.1 w.1.2 with
          | none => simp [hk, Heap.store] at hfirst
          | some k =>
            rw [hk] at heq
            exact absurd (h.inj s (mem_rangeSlots s) w.1 (mem_rangeSlots w.1) k heq.1 hk) hs.1
        . exact absurd heq.2 hi
      . rfl

theorem exists_storeWrites (h : Buffers heap dim rangeSlots) (hdim : ∀ d j, dim d j ≠ none)
    (writes : List ((Fin DIM × Fin 2) × UInt32))
    : ∃ heap', storeWrites heap dim writes = some heap' := by
  induction writes generalizing heap with
  | nil => exact ⟨heap, rfl⟩
  | cons w writes ih =>
    rcases Option.ne_none_iff_exists'.mp (hdim w.1.1 w.1.2) with ⟨k, hk⟩
    have hsize := h.size w.1 (mem_rangeSlots w.1) k hk
    rw [← hk] at hsize
    rcases Heap.exists_store hsize (rangeWords_pos w.1.1) w.2 with ⟨heap1, hfirst⟩
    have hbuffers : Buffers heap1 dim rangeSlots :=
      ⟨fun s hs k hk => (Heap.size_store hfirst _).trans (h.size s hs k hk), h.inj⟩
    rcases ih hbuffers with ⟨heap', hrest⟩
    refine ⟨heap', ?_⟩
    simp only [storeWrites, List.foldlM_cons, hfirst, Option.bind_eq_bind, Option.bind_some]
    exact hrest

theorem exists_readIPRange (ipnet : UInt32) {ipmask : UInt32} (h : ipmask ≤ 32)
    : ∃ range, readIPRange ipnet ipmask = some range := by
  rcases toNat_readIPRange ipnet (UInt32.le_iff_toNat_le.mp h) with ⟨start, last, hrange, -⟩
  exact ⟨(start, last), hrange⟩

theorem exists_entryWrites (hsip : t.sip_mask ≤ 32) (hdip : t.dip_mask ≤ 32)
    : ∃ writes, entryWrites t = some writes := by
  rcases exists_readIPRange t.sip hsip with ⟨sip, hsip⟩
  rcases exists_readIPRange t.dip hdip with ⟨dip, hdip⟩
  simp only [entryWrites, hsip, hdip, Option.bind_eq_bind, Option.bind_some]
  exact ⟨_, rfl⟩

end Writes

section Loop

variable {rule_list : RuleList} {dim : RangePtrs} {heap heap' : Heap UInt32}
  {filtArr filtArr' : List Filter} {is : List (Fin RULE_ENTRY_MAX)}

def entryFilter (dim : RangePtrs) (e : Fin RULE_ENTRY_MAX × RCP_BLOCK_ACL_RULE_TUPLE) : Filter :=
  -- `tempfilt` after a used entry
  ⟨e.2.action.toUInt32, UInt32.ofNat e.1, UInt32.ofNat e.1, dim⟩

theorem usedOf_cons (rule_list : RuleList) (i : Fin RULE_ENTRY_MAX) (is : List (Fin RULE_ENTRY_MAX))
    : usedOf rule_list (i :: is)
        =
      match rule_list.slots i with
      | none => usedOf rule_list is
      | some t => (i, t) :: usedOf rule_list is := by
  rw [usedOf, List.filterMap_cons]
  cases rule_list.slots i <;> rfl

theorem loadEntries_cons (rule_list : RuleList) (dim : RangePtrs) (i : Fin RULE_ENTRY_MAX)
    (is : List (Fin RULE_ENTRY_MAX)) (heap : Heap UInt32) (filtArr : List Filter)
    : loadEntries rule_list dim (i :: is) (heap, filtArr)
        =
      match rule_list.slots i with
      | none => loadEntries rule_list dim is (heap, filtArr)
      | some t =>
        (entryWrites t).bind fun writes => (storeWrites heap dim writes).bind fun heap =>
          loadEntries rule_list dim is (heap, filtArr ++ [entryFilter dim (i, t)]) := by
  rw [loadEntries]
  cases hslot : rule_list.slots i with
  | none => rw [if_pos (RuleList.slots_eq_none.mp hslot)]
  | some t =>
    rcases RuleList.slots_eq_some.mp hslot with ⟨hused, rfl⟩
    rw [if_neg hused]
    rfl

theorem writtenSlots_nodup : writtenSlots.Nodup := by decide

theorem entry_spec (h : Buffers heap dim rangeSlots) {t : RCP_BLOCK_ACL_RULE_TUPLE}
    {writes : List ((Fin DIM × Fin 2) × UInt32)} (hwrites : entryWrites t = some writes)
    (hstore : storeWrites heap dim writes = some heap')
    : Buffers heap' dim rangeSlots ∧ HasRanges heap' dim t
        ∧ ∀ s i, s ∉ writtenSlots ∨ i ≠ 0
          → heap'.load (dim s.1 s.2) i = heap.load (dim s.1 s.2) i := by
  rcases entryWrites_eq_some hwrites with ⟨hslots, hranges⟩
  have hnodup : (writes.map Prod.fst).Nodup := by
    rw [hslots]
    exact writtenSlots_nodup
  rcases storeWrites_spec h hnodup hstore with ⟨hbuffers, hwritten, hkept⟩
  rw [hslots] at hkept
  refine ⟨hbuffers, ?_, hkept⟩
  intro d hd
  rcases hranges d hd with ⟨range, hrange, hfirst, hlast⟩
  exact ⟨range, hrange, hwritten _ hfirst, hwritten _ hlast⟩

theorem loadEntries_spec (h : Buffers heap dim rangeSlots)
    (hload : loadEntries rule_list dim is (heap, filtArr) = some (heap', filtArr'))
    : filtArr' = filtArr ++ (usedOf rule_list is).map (entryFilter dim)
        ∧ (usedOf rule_list is = [] → heap' = heap)
        ∧ (∀ e ∈ (usedOf rule_list is).getLast?, HasRanges heap' dim e.2)
        ∧ ∀ s i, s ∉ writtenSlots ∨ i ≠ 0
          → heap'.load (dim s.1 s.2) i = heap.load (dim s.1 s.2) i := by
  induction is generalizing heap filtArr with
  | nil =>
    simp only [loadEntries, Option.some.injEq, Prod.mk.injEq] at hload
    rcases hload with ⟨rfl, rfl⟩
    simp [usedOf]
  | cons i is ih =>
    rw [loadEntries_cons] at hload
    rw [usedOf_cons]
    cases hslot : rule_list.slots i with
    | none =>
      simp only [hslot] at hload ⊢
      exact ih h hload
    | some t =>
      simp only [hslot, Option.bind_eq_some_iff] at hload ⊢
      rcases hload with ⟨writes, hwrites, heap1, hstore, hload⟩
      rcases entry_spec h hwrites hstore with ⟨hbuffers, hranges, hkept⟩
      rcases ih hbuffers hload with ⟨hfiltArr, hsame, hlast, hkept'⟩
      refine ⟨by simp [hfiltArr], by simp, ?_, ?_⟩
      . intro e he
        cases hrest : usedOf rule_list is with
        | nil =>
          rw [hrest] at he
          simp only [List.getLast?_singleton, Option.mem_def, Option.some.injEq] at he
          rw [hsame hrest, ← he]
          exact hranges
        | cons e' es =>
          rw [hrest, List.getLast?_cons_cons, ← hrest] at he
          exact hlast e he
      . intro s j hs
        rw [hkept' s j hs, hkept s j hs]

theorem exists_loadEntries (filtArr : List Filter) (h : Buffers heap dim rangeSlots) (hdim : ∀ d j, dim d j ≠ none)
    (hmasks : ∀ e ∈ usedOf rule_list is, e.2.sip_mask ≤ 32 ∧ e.2.dip_mask ≤ 32)
    : ∃ acc, loadEntries rule_list dim is (heap, filtArr) = some acc := by
  induction is generalizing heap filtArr with
  | nil => exact ⟨_, rfl⟩
  | cons i is ih =>
    rw [usedOf_cons] at hmasks
    rw [loadEntries_cons]
    cases hslot : rule_list.slots i with
    | none =>
      simp only [hslot] at hmasks
      exact ih _ h hmasks
    | some t =>
      simp only [hslot, List.forall_mem_cons] at hmasks
      rcases hmasks with ⟨⟨hsip, hdip⟩, hmasks⟩
      rcases exists_entryWrites hsip hdip with ⟨writes, hwrites⟩
      rcases exists_storeWrites h hdim writes with ⟨heap1, hstore⟩
      simp only [hwrites, hstore, Option.bind_some]
      exact ih _ (entry_spec h hwrites hstore).1 hmasks

end Loop

section Fill

variable {avail : Nat → Bool} {rule_list : RuleList} {st : LoadState}

structure Filled (rule_list : RuleList) (st : LoadState) : Prop where
  rule : ∀ (k : Nat) e, (usedEntries rule_list)[k]? = some e →
    ∃ r, st.ruleset[k]? = some r ∧ r.action = e.2.action.toUInt32 ∧ r.rule_id = UInt32.ofNat e.1
      ∧ r.range = st.dim
  range : ∀ r ∈ st.ruleset, r.range = st.dim ∨ r.range = fun _ _ => none
  nonempty : st.ruleset ≠ []
  last : ∀ e ∈ (usedEntries rule_list).getLast?, HasRanges st.heap st.dim e.2
  unwritten : ∀ s i, s ∉ writtenSlots ∨ i ≠ 0 → st.heap.load (st.dim s.1 s.2) i = none

def filtRules (rule_list : RuleList) (dim : RangePtrs) : List LoadedRule :=
  ((usedEntries rule_list).map (entryFilter dim)).zipIdx.map loadFilter

theorem getElem?_filtRules (dim : RangePtrs) {k : Nat}
    {e : Fin RULE_ENTRY_MAX × RCP_BLOCK_ACL_RULE_TUPLE} (h : (usedEntries rule_list)[k]? = some e)
    : (filtRules rule_list dim)[k]? = some (loadFilter (entryFilter dim e, k)) := by
  simp [filtRules, List.getElem?_zipIdx, h]

theorem range_of_mem_filtRules {dim : RangePtrs} {r : LoadedRule}
    (h : r ∈ filtRules rule_list dim) : r.range = dim := by
  simp only [filtRules, List.mem_map] at h
  rcases h with ⟨⟨filt, i⟩, hmem, rfl⟩
  rcases List.mem_map.mp (List.fst_mem_of_mem_zipIdx hmem) with ⟨e, -, rfl⟩
  rfl

theorem Filled.of_filtRules {heap : Heap UInt32} {dim : RangePtrs} {extra : List LoadedRule}
    (hextra : ∀ r ∈ extra, r.range = fun _ _ => none)
    (hnonempty : filtRules rule_list dim ++ extra ≠ [])
    (hlast : ∀ e ∈ (usedEntries rule_list).getLast?, HasRanges heap dim e.2)
    (hunwritten : ∀ s i, s ∉ writtenSlots ∨ i ≠ 0 → heap.load (dim s.1 s.2) i = none)
    : Filled rule_list ⟨heap, filtRules rule_list dim ++ extra, dim⟩ := by
  refine ⟨?_, ?_, hnonempty, hlast, hunwritten⟩
  . intro k e he
    have hfilt := getElem?_filtRules dim he
    have hk := (List.getElem?_eq_some_iff.mp hfilt).1
    refine ⟨loadFilter (entryFilter dim e, k), ?_, rfl, rfl, rfl⟩
    rw [List.getElem?_append_left hk]
    exact hfilt
  . intro r hr
    rcases List.mem_append.mp hr with hr | hr
    . exact Or.inl (range_of_mem_filtRules hr)
    . exact Or.inr (hextra r hr)

theorem fillRuleset_spec {heap : Heap UInt32} {dim : RangePtrs}
    (hbuffers : Buffers heap dim rangeSlots) (hload : ∀ q i, heap.load q i = none)
    (h : fillRuleset avail rule_list heap dim = some st) : Filled rule_list st := by
  simp only [fillRuleset, Option.bind_eq_bind, Option.bind_eq_some_iff,
    Option.ite_none_left_eq_some] at h
  rcases h with ⟨⟨heap1, filtArr⟩, hentries, -, h⟩
  rcases loadEntries_spec hbuffers hentries with ⟨hfiltArr, -, hlast, hkept⟩
  have hrules : filtArr.zipIdx.map loadFilter = filtRules rule_list dim := by
    rw [hfiltArr, List.nil_append, filtRules, usedEntries]
  -- the second call of `malloc` does not change what can be read
  have hsame (q : Ptr) (i : Nat)
      : (heap1.malloc (avail heap1.next) 0).2.load q i = heap1.load q i := Heap.load_malloc _ _ _ q i
  have hranges : ∀ e ∈ (usedEntries rule_list).getLast?,
      HasRanges (heap1.malloc (avail heap1.next) 0).2 dim e.2 := by
    intro e he d hd
    rcases hlast e he d hd with ⟨range, hrange, hfirst, hlast⟩
    exact ⟨range, hrange, (hsame _ _).trans hfirst, (hsame _ _).trans hlast⟩
  have hunwritten : ∀ s i, s ∉ writtenSlots ∨ i ≠ 0
      → (heap1.malloc (avail heap1.next) 0).2.load (dim s.1 s.2) i = none := by
    intro s i hs
    rw [hsame, hkept s i hs, hload]
  simp only [hrules] at h
  by_cases hlen : (filtRules rule_list dim).length + 1 < RULE_ENTRY_MAX
  . rw [if_pos hlen, Option.some.injEq] at h
    subst h
    exact .of_filtRules (by simp [lastRule]) (by simp) hranges hunwritten
  . rw [if_neg hlen, Option.some.injEq, ← List.append_nil (filtRules rule_list dim)] at h
    subst h
    refine .of_filtRules (by simp) ?_ ?_ ?_
    . rw [List.append_nil]
      rintro hnil
      simp [hnil] at hlen
    . rw [lastRule, rangeFree_null]
      exact hranges
    . rw [lastRule, rangeFree_null]
      exact hunwritten

theorem exists_fillRuleset {heap : Heap UInt32} {dim : RangePtrs} (havail : ∀ n, avail n = true)
    (hbuffers : Buffers heap dim rangeSlots) (hdim : ∀ d j, dim d j ≠ none)
    (hmasks : ∀ e ∈ usedEntries rule_list, e.2.sip_mask ≤ 32 ∧ e.2.dip_mask ≤ 32)
    : ∃ st, fillRuleset avail rule_list heap dim = some st := by
  rcases exists_loadEntries [] hbuffers hdim hmasks with ⟨⟨heap1, filtArr⟩, hentries⟩
  have hmalloc : (heap1.malloc (avail heap1.next) 0).1 ≠ none := by
    rw [Heap.malloc_fst, havail]
    simp
  simp only [fillRuleset, hentries, Option.bind_eq_bind, Option.bind_some, if_neg hmalloc]
  by_cases hlen : (filtArr.zipIdx.map loadFilter).length + 1 < RULE_ENTRY_MAX
  . rw [if_pos hlen]
    exact ⟨_, rfl⟩
  . rw [if_neg hlen]
    exact ⟨_, rfl⟩

theorem load_filtset (avail : Nat → Bool) (q : Ptr) (i : Nat)
    : (Heap.empty.malloc (avail 0) 0 : Ptr × Heap UInt32).2.load q i = none := by
  rw [Heap.load_malloc, Heap.load_empty]

theorem loadRuleFill_spec (h : loadRuleFill avail rule_list = some st) : Filled rule_list st := by
  rcases rangeAlloc_spec (load_filtset avail) with ⟨hbuffers, hload, -⟩
  simp only [loadRuleFill, Option.ite_none_left_eq_some] at h
  exact fillRuleset_spec hbuffers hload h.2

theorem exists_loadRuleFill (havail : ∀ n, avail n = true)
    (hmasks : ∀ e ∈ usedEntries rule_list, e.2.sip_mask ≤ 32 ∧ e.2.dip_mask ≤ 32)
    : ∃ st, loadRuleFill avail rule_list = some st := by
  rcases rangeAlloc_spec (load_filtset avail) with ⟨hbuffers, -, hdim⟩
  have hmalloc : (Heap.empty.malloc (avail 0) 0 : Ptr × Heap UInt32).1 ≠ none := by
    rw [Heap.malloc_fst, havail]
    simp
  simp only [loadRuleFill, if_neg hmalloc]
  exact exists_fillRuleset havail hbuffers (hdim havail) hmasks

end Fill

end SecFw.Acl
