import SecFw.Decode.Handled
import SecFw.Segments.Tiling

/-!
This module contains the list of fragments of a control block: whatever arrives in which order, the
fragments stay sorted and apart, the tail pointer leads to the last one and the counters are right.
-/

namespace SecFw.Decode

open Segment (Ordered Before Proper)

section Insert

variable {m : Mbuf} {fcb : Fcb}

theorem length_eq_frag_len (m : Mbuf) : Segment.length m = m.frag_len := by
  simp only [Segment.length, Segment.start, Segment.stop]
  omega

theorem proper_iff : Proper m ↔ 0 < m.frag_len := by
  simp only [Proper, Segment.start, Segment.stop]
  omega

theorem findPlace_prev (offset : Int) (htail : fcb.fragments_tail = fcb.fragments.getLast?)
    : (findPlace fcb offset).prev = (findPlace fcb offset).before.getLast? := by
  unfold findPlace
  split
  . rfl
  . next tail hsome =>
    split
    . exact hsome.symm.trans htail
    . rfl

structure InOrder (fcb : Fcb) : Prop where
  ordered : Ordered fcb.fragments
  tail_eq : fcb.fragments_tail = fcb.fragments.getLast?

theorem InOrder.insertFragment (h : InOrder fcb) (hm : Proper m)
    (hoverlaps : (findPlace fcb m.frag_offset).overlaps m.frag_offset
      (m.frag_offset + m.frag_len) = false)
    : InOrder (insertFragment m (findPlace fcb m.frag_offset) fcb) := by
  have hsplit := findPlace_append m.frag_offset h.tail_eq
  rw [overlaps_eq_false, findPlace_prev _ h.tail_eq] at hoverlaps
  have hord := h.ordered
  have htail := h.tail_eq
  generalize findPlace fcb m.frag_offset = place at *
  rw [← hsplit] at hord htail
  have hbefore := hord.left.forall_before_of_getLast? hoverlaps.1
  have hafter := hord.right.forall_after_of_head? hoverlaps.2
  constructor
  case ordered => exact hord.insert hm hbefore hafter
  case tail_eq =>
    simp only [Decode.insertFragment, htail]
    cases place.after with
    | nil => simp
    | cons next after =>
      rw [List.getLast?_append_of_ne_nil _ (by simp), List.getLast?_append_of_ne_nil _ (by simp)]
      simp [List.getLast?_cons]

theorem perm_insertFragment (m : Mbuf) (htail : fcb.fragments_tail = fcb.fragments.getLast?)
    : (insertFragment m (findPlace fcb m.frag_offset) fcb).fragments.Perm (m :: fcb.fragments) := by
  rw [← findPlace_append m.frag_offset htail]
  exact List.perm_middle

end Insert

/-- The list from `fragments` and the fields that describe it. -/
structure FragList (fcb : Fcb) : Prop where
  increasing : fcb.fragments.Pairwise fun x y => x.frag_offset < y.frag_offset
  apart : fcb.fragments.IsChain fun x y => x.frag_offset + x.frag_len ≤ y.frag_offset
  fragments_tail : fcb.fragments_tail = fcb.fragments.getLast?
  tail_none : fcb.fragments_tail = none ↔ fcb.fragments = []
  meat : fcb.meat = (fcb.fragments.map Mbuf.frag_len).sum
  total_fraglen : ∀ x ∈ fcb.fragments, x.frag_offset + x.frag_len ≤ fcb.total_fraglen

structure Listed (fcb : Fcb) : Prop extends InOrder fcb where
  meat : fcb.meat = (fcb.fragments.map Mbuf.frag_len).sum
  ends : ∀ x ∈ fcb.fragments, x.frag_offset + x.frag_len ≤ fcb.total_fraglen

section Runs

variable {m : Mbuf} {fcb fcb' : Fcb}

theorem listed_fcbCreate : Listed fcbCreate where
  ordered := Ordered.nil
  tail_eq := rfl
  meat := rfl
  ends := by simp [fcbCreate]

theorem Listed.fragList (h : Listed fcb) : FragList fcb := by
  constructor
  case increasing =>
    apply h.ordered.pairwise.imp_of_mem
    intro x y hx _ hbefore
    exact Segment.start_lt_of_before (h.ordered.proper x hx) hbefore
  case apart => exact h.ordered.pairwise.isChain
  case fragments_tail => exact h.tail_eq
  case tail_none => rw [h.tail_eq, List.getLast?_eq_none_iff]
  case meat => exact h.meat
  case total_fraglen => exact h.ends

theorem EndNoted.total_fraglen (h : EndNoted m fcb fcb')
    : fcb.total_fraglen ≤ fcb'.total_fraglen
      ∧ m.frag_offset + m.frag_len ≤ fcb'.total_fraglen := by
  cases h with
  | last _ _ hend => exact ⟨hend, le_rfl⟩
  | longer _ _ hend => exact ⟨hend.le, le_rfl⟩
  | inside _ hend => exact ⟨le_rfl, hend⟩

theorem EndNoted.meat (h : EndNoted m fcb fcb') : fcb'.meat = fcb.meat := by
  cases h <;> rfl

theorem Listed.noted (h : Listed fcb) (hnote : noteEnd m fcb = some fcb') : Listed fcb' := by
  rcases noteEnd_fragments hnote with ⟨hfragments, htail⟩
  have hnoted := noteEnd_noted hnote
  constructor
  case toInOrder => exact ⟨hfragments ▸ h.ordered, by rw [htail, hfragments, h.tail_eq]⟩
  case meat => rw [hnoted.meat, hfragments, h.meat]
  case ends =>
    rw [hfragments]
    intro x hx
    exact le_trans (h.ends x hx) hnoted.total_fraglen.1

theorem Listed.enqueue (h : Listed fcb) (hlen : 0 < m.frag_len)
    (henqueue : enqueue m fcb = .ok fcb') : Listed fcb' := by
  rcases enqueue_eq_ok henqueue with ⟨noted, hnote, hoverlaps, rfl⟩
  have hlisted := h.noted hnote
  have hperm := perm_insertFragment m hlisted.tail_eq
  constructor
  case toInOrder => exact hlisted.toInOrder.insertFragment (proper_iff.mpr hlen) hoverlaps
  case meat =>
    rw [(hperm.map Mbuf.frag_len).sum_eq, List.map_cons, List.sum_cons, ← hlisted.meat, add_comm]
    rfl
  case ends =>
    intro x hx
    cases List.mem_cons.mp (hperm.mem_iff.mp hx) with
    | inl heq => exact heq ▸ (noteEnd_noted hnote).total_fraglen.2
    | inr hx => exact hlisted.ends x hx

theorem Listed.process (h : Listed fcb) (hlen : 0 < m.frag_len) (alloc : Alloc)
    (hnone : (fragDefragProcess alloc m fcb).ret = none)
    : Listed (fragDefragProcess alloc m fcb).fcb := by
  have hhandled := fragDefragProcess_handled alloc m fcb
  generalize fragDefragProcess alloc m fcb = processed at *
  cases hhandled with
  | late => exact h
  | overlapping _ hnote => exact h.noted hnote
  | cached henqueue => exact h.enqueue hlen henqueue
  | @reasm fcb' hcall =>
    -- without a packet the block is left as it was handed over
    rcases fragDefragReasm_cases alloc fcb' with ⟨-, hkept⟩ | ⟨r, hr, -⟩
    . rw [hkept]
      exact h.enqueue hlen (reasmCall_eq_some_iff.mp hcall).1
    . rw [hr] at hnone
      contradiction

theorem Listed.processAll {arrivals : List (Alloc × Mbuf)} (h : Listed fcb)
    (hlen : ∀ a ∈ arrivals, 0 < a.2.frag_len) (hnone : packets fcb arrivals = [])
    : Listed (processAll fcb arrivals) := by
  induction arrivals generalizing fcb with
  | nil => exact h
  | cons a arrivals ih =>
    rcases List.forall_mem_cons.mp hlen with ⟨ha, hlen⟩
    rw [packets, List.append_eq_nil_iff, Option.toList_eq_nil_iff] at hnone
    exact ih (h.process ha a.1 hnone.1) hlen hnone.2

end Runs

/--
Whatever arrives at a new block in which order, until a packet is returned the list of its fragments
is sorted and without overlaps, and the fields of the block describe it.
-/
theorem fragList_of_unreturned (arrivals : List (Alloc × Mbuf))
    (hlen : ∀ a ∈ arrivals, 0 < a.2.frag_len) (hnone : packets fcbCreate arrivals = [])
    : FragList (processAll fcbCreate arrivals) :=
  (listed_fcbCreate.processAll hlen hnone).fragList

def unfinished : List (Alloc × Mbuf) :=
  [(⟨true, 0x4000⟩, frame 32 (List.replicate 8 1) false),
    (⟨true, 0x4000⟩, frame 24 (List.replicate 16 2) true),
    (⟨false, 0⟩, frame 0 (List.replicate 16 3) true)]

theorem fragList_of_unreturned_unfinished
    : (∀ a ∈ unfinished, 0 < a.2.frag_len) ∧ packets fcbCreate unfinished = []
        ∧ (processAll fcbCreate unfinished).fragments.length = 2
        ∧ FragList (processAll fcbCreate unfinished) := by
  have hlen : ∀ a ∈ unfinished, 0 < a.2.frag_len := by decide
  have hnone : packets fcbCreate unfinished = [] := by decide +kernel
  exact ⟨hlen, hnone, by decide +kernel, fragList_of_unreturned unfinished hlen hnone⟩

end SecFw.Decode
