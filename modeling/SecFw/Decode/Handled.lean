import SecFw.Decode.FragQueue
import SecFw.Decode.Fragment
import SecFw.Decode.Reassembly

/-!
This module contains the ways in which a call of `Frag_defrag_process` can end, and what a fragment
that is refused leaves behind in the control block.
-/

namespace SecFw.Decode

def reasmCall (mbuf : Mbuf) (fcb : Fcb) : Option Fcb :=
  (enqueue mbuf fcb).toOption.filter fun fcb => fcb.Complete

def processAll (fcb : Fcb) : List (Alloc × Mbuf) → Fcb
  | [] => fcb
  | (alloc, mbuf) :: arrivals => processAll (fragDefragProcess alloc mbuf fcb).fcb arrivals

def packets (fcb : Fcb) : List (Alloc × Mbuf) → List Mbuf
  | [] => []
  | (alloc, mbuf) :: arrivals =>
    let processed := fragDefragProcess alloc mbuf fcb
    processed.ret.toList ++ packets processed.fcb arrivals

section Handled

variable {alloc : Alloc} {mbuf : Mbuf} {fcb fcb' : Fcb} {processed : Processed}

inductive Handled (alloc : Alloc) (mbuf : Mbuf) (fcb : Fcb) : Processed → Prop where
  -- the block is complete or the end of the fragment does not fit
  | late (hcomplete : fcb.last_in &&& DEFRAG_COMPLETE ≠ 0 ∨ noteEnd mbuf fcb = none)
    : Handled alloc mbuf fcb ⟨fcb, none, true⟩
  -- the fragment overlaps, its end has been noted
  | overlapping {noted : Fcb} (hcomplete : fcb.last_in &&& DEFRAG_COMPLETE = 0)
      (hnote : noteEnd mbuf fcb = some noted)
    : Handled alloc mbuf fcb ⟨noted, none, true⟩
  | cached {fcb' : Fcb} (henqueue : enqueue mbuf fcb = .ok fcb') (hcomplete : ¬ fcb'.Complete)
    : Handled alloc mbuf fcb ⟨fcb', none, false⟩
  | reasm {fcb' : Fcb} (hcall : reasmCall mbuf fcb = some fcb')
    : Handled alloc mbuf fcb
        ⟨(fragDefragReasm alloc fcb').1, (fragDefragReasm alloc fcb').2, false⟩

theorem reasmCall_eq_some_iff
    : reasmCall mbuf fcb = some fcb' ↔ enqueue mbuf fcb = .ok fcb' ∧ fcb'.Complete := by
  rw [reasmCall, Option.filter_eq_some_iff, decide_eq_true_iff]
  cases enqueue mbuf fcb with
  | ok fcb'' => simp [Except.toOption]
  | error fcb'' => simp [Except.toOption]

theorem fragDefragProcess_handled (alloc : Alloc) (mbuf : Mbuf) (fcb : Fcb)
    : Handled alloc mbuf fcb (fragDefragProcess alloc mbuf fcb) := by
  unfold fragDefragProcess
  cases henqueue : enqueue mbuf fcb with
  | ok fcb' =>
    dsimp only
    by_cases hfull : fcb'.Complete
    . rw [if_pos hfull]
      exact .reasm (reasmCall_eq_some_iff.mpr ⟨henqueue, hfull⟩)
    . rw [if_neg hfull]
      exact .cached henqueue hfull
  | error fcb' =>
    rcases enqueue_eq_error henqueue with ⟨rfl, hlate⟩ | ⟨hcomplete, hnote⟩
    . exact .late hlate
    . exact .overlapping hcomplete hnote

theorem values_processAll {Packet : Type} (mbuf : Packet → Mbuf) (arrivals : List (Alloc × Packet))
    (queue : FragQueue Packet)
    : (arrivals.foldl (fun queue a => (queue.process a.1 mbuf a.2).1) queue).values mbuf
        =
      processAll (queue.values mbuf) (arrivals.map fun a => (a.1, mbuf a.2)) := by
  induction arrivals generalizing queue with
  | nil => rfl
  | cons a arrivals ih =>
    rw [List.foldl_cons, ih, FragQueue.values_process, List.map_cons, processAll]

end Handled

section Noted

variable {mbuf : Mbuf} {fcb fcb' : Fcb}

inductive EndNoted (mbuf : Mbuf) (fcb : Fcb) : Fcb → Prop where
  | last (hmf : mbuf.IPV4_GET_MF = 0) (hlast : fcb.last_in &&& DEFRAG_LAST_IN = 0)
      (hend : fcb.total_fraglen ≤ mbuf.frag_offset + mbuf.frag_len)
    : EndNoted mbuf fcb { fcb with
        last_in := fcb.last_in ||| DEFRAG_LAST_IN
        total_fraglen := mbuf.frag_offset + mbuf.frag_len }
  | longer (hmf : mbuf.IPV4_GET_MF ≠ 0) (hlast : fcb.last_in &&& DEFRAG_LAST_IN = 0)
      (hend : fcb.total_fraglen < mbuf.frag_offset + mbuf.frag_len)
    : EndNoted mbuf fcb { fcb with total_fraglen := mbuf.frag_offset + mbuf.frag_len }
  | inside (hmf : mbuf.IPV4_GET_MF ≠ 0)
      (hend : mbuf.frag_offset + mbuf.frag_len ≤ fcb.total_fraglen) : EndNoted mbuf fcb fcb

theorem noteEnd_noted (h : noteEnd mbuf fcb = some fcb') : EndNoted mbuf fcb fcb' := by
  unfold noteEnd at h
  dsimp only at h
  split at h
  . next hmf =>
    split at h
    . cases h
    . next hend =>
      cases h
      rw [not_or, not_not, not_lt] at hend
      exact .last hmf hend.2 hend.1
  . next hmf =>
    split at h
    . next hend =>
      split at h
      . cases h
      . next hlast =>
        cases h
        exact .longer hmf (not_not.mp hlast) hend
    . next hend =>
      cases h
      exact .inside hmf (not_lt.mp hend)

theorem noteEnd_eq_none (h : noteEnd mbuf fcb = none)
    : fcb.last_in &&& DEFRAG_LAST_IN ≠ 0
      ∨ mbuf.IPV4_GET_MF = 0 ∧ mbuf.frag_offset + mbuf.frag_len < fcb.total_fraglen := by
  unfold noteEnd at h
  dsimp only at h
  split at h
  . next hmf =>
    split at h
    . next hend =>
      cases hend with
      | inl hend => exact Or.inr ⟨hmf, hend⟩
      | inr hlast => exact Or.inl hlast
    . cases h
  . split at h
    . split at h
      . next hlast => exact Or.inl hlast
      . cases h
    . cases h

/-- The call has left these fields as they were. -/
structure Unchanged (fcb fcb' : Fcb) : Prop where
  total_fraglen : fcb'.total_fraglen = fcb.total_fraglen
  last_in : fcb'.last_in = fcb.last_in
  meat : fcb'.meat = fcb.meat
  fragments : fcb'.fragments = fcb.fragments
  fragments_tail : fcb'.fragments_tail = fcb.fragments_tail

/--
The end of the datagram is known, or it cannot be behind the fragment: either way there is nothing to
be noted.
-/
def EndSettled (mbuf : Mbuf) (fcb : Fcb) : Prop :=
  fcb.last_in &&& DEFRAG_COMPLETE ≠ 0
    ∨ fcb.last_in &&& DEFRAG_LAST_IN ≠ 0
    ∨ if mbuf.IPV4_GET_MF = 0 then
        mbuf.frag_offset + mbuf.frag_len < fcb.total_fraglen
      else
        mbuf.frag_offset + mbuf.frag_len ≤ fcb.total_fraglen

theorem or_last_ne {last_in : UInt8} (h : last_in &&& DEFRAG_LAST_IN = 0)
    : last_in ||| DEFRAG_LAST_IN ≠ last_in := by
  cases last_in with
  | ofBitVec b =>
    revert b
    decide +kernel

theorem or_first_and_last (last_in : UInt8)
    : (last_in ||| DEFRAG_FIRST_IN) &&& DEFRAG_LAST_IN = last_in &&& DEFRAG_LAST_IN := by
  cases last_in with
  | ofBitVec b =>
    revert b
    decide +kernel

theorem EndNoted.unchanged_iff {noted : Fcb} (h : EndNoted mbuf fcb noted)
    (hcomplete : fcb.last_in &&& DEFRAG_COMPLETE = 0)
    : Unchanged fcb noted ↔ EndSettled mbuf fcb := by
  unfold EndSettled
  cases h with
  | last hmf hlast hend =>
    apply iff_of_false
    . intro hsame
      exact or_last_ne hlast hsame.last_in
    . simp only [hcomplete, hlast, hmf, ne_eq, not_true_eq_false, ↓reduceIte, false_or, not_lt]
      exact hend
  | longer hmf hlast hend =>
    apply iff_of_false
    . intro hsame
      exact hend.ne hsame.total_fraglen.symm
    . simp only [hcomplete, hlast, hmf, ne_eq, not_true_eq_false, ↓reduceIte, false_or, not_le]
      exact hend
  | inside hmf hend =>
    apply iff_of_true
    . exact ⟨rfl, rfl, rfl, rfl, rfl⟩
    . rw [if_neg hmf]
      exact Or.inr (Or.inr hend)

/-- A destroyed fragment leaves the block as it was exactly when its end had not to be noted. -/
theorem unchanged_iff_endSettled {alloc : Alloc}
    (h : (fragDefragProcess alloc mbuf fcb).destroyed = true)
    : Unchanged fcb (fragDefragProcess alloc mbuf fcb).fcb ↔ EndSettled mbuf fcb := by
  have hhandled := fragDefragProcess_handled alloc mbuf fcb
  generalize fragDefragProcess alloc mbuf fcb = processed at h hhandled
  cases hhandled with
  | late hlate =>
    apply iff_of_true
    . exact ⟨rfl, rfl, rfl, rfl, rfl⟩
    . rcases hlate with hcomplete | hnote
      . exact Or.inl hcomplete
      . rcases noteEnd_eq_none hnote with hlast | ⟨hmf, hend⟩
        . exact Or.inr (Or.inl hlast)
        . apply Or.inr
          apply Or.inr
          rwa [if_pos hmf]
  | overlapping hcomplete hnote => exact (noteEnd_noted hnote).unchanged_iff hcomplete
  | cached => cases h
  | reasm => cases h

def firstSixteen : Mbuf := frame 0 (List.replicate 16 1) true

def overlappingLast : Mbuf := frame 8 (List.replicate 16 2) false

theorem unchanged_iff_endSettled_overlappingLast
    : (fragDefragProcess ⟨true, 8192⟩ overlappingLast
          (processAll fcbCreate [(⟨true, 8192⟩, firstSixteen)])).destroyed = true
      ∧ (Unchanged (processAll fcbCreate [(⟨true, 8192⟩, firstSixteen)])
          (fragDefragProcess ⟨true, 8192⟩ overlappingLast
            (processAll fcbCreate [(⟨true, 8192⟩, firstSixteen)])).fcb
        ↔ EndSettled overlappingLast (processAll fcbCreate [(⟨true, 8192⟩, firstSixteen)])) := by
  have hdestroyed : (fragDefragProcess ⟨true, 8192⟩ overlappingLast
      (processAll fcbCreate [(⟨true, 8192⟩, firstSixteen)])).destroyed = true := by decide
  exact ⟨hdestroyed, unchanged_iff_endSettled hdestroyed⟩

theorem not_unchanged_overlappingLast
    : ¬ ∀ (arrivals : List (Alloc × Mbuf)) (alloc : Alloc) (mbuf : Mbuf),
        (∀ a ∈ arrivals, AsDecoded a.2) → AsDecoded mbuf
          → (fragDefragProcess alloc mbuf (processAll fcbCreate arrivals)).destroyed = true
          → Unchanged (processAll fcbCreate arrivals)
              (fragDefragProcess alloc mbuf (processAll fcbCreate arrivals)).fcb := by
  intro h
  have hsame := h [(⟨true, 8192⟩, firstSixteen)] ⟨true, 8192⟩ overlappingLast (by decide) (by decide)
    (by decide)
  exact absurd hsame.total_fraglen (by decide)

end Noted

section Completed

variable {alloc : Alloc} {mbuf : Mbuf} {fcb : Fcb} {later : List (Alloc × Mbuf)}

structure Completed (fcb : Fcb) : Prop where
  last_in : fcb.last_in = DEFRAG_FIRST_IN ||| DEFRAG_LAST_IN
  meat : fcb.meat = fcb.total_fraglen
  fragments : fcb.fragments = []
  fragments_tail : fcb.fragments_tail = none

theorem fragDefragReasm_some {r : Mbuf} (h : (fragDefragReasm alloc fcb).2 = some r)
    : (fragDefragReasm alloc fcb).1
        = fragDefragFreefrags { fcb with status := fcb.status ||| DEFRAG_COMPLETE.toUInt16 } := by
  unfold fragDefragReasm at h ⊢
  split at h
  . cases h
  . dsimp only at h ⊢
    split at h
    . cases h
    . next hlen =>
      rw [if_neg hlen]
      split at h
      . cases h
      . rfl

theorem completed_of_ret {r : Mbuf} (h : (fragDefragProcess alloc mbuf fcb).ret = some r)
    : Completed (fragDefragProcess alloc mbuf fcb).fcb := by
  have hhandled := fragDefragProcess_handled alloc mbuf fcb
  generalize fragDefragProcess alloc mbuf fcb = processed at h hhandled
  cases hhandled with
  | late => cases h
  | overlapping => cases h
  | cached => cases h
  | reasm hcall =>
    have hfull := (reasmCall_eq_some_iff.mp hcall).2
    dsimp only at h ⊢
    rw [fragDefragReasm_some h]
    exact ⟨hfull.last_in, hfull.meat, rfl, rfl⟩

/-- The fragment claims to be the last one, or it ends behind the datagram. -/
def BeyondEnd (total_fraglen : Int) (mbuf : Mbuf) : Prop :=
  mbuf.IPV4_GET_MF = 0 ∨ total_fraglen < mbuf.frag_offset + mbuf.frag_len

instance (total_fraglen : Int) (mbuf : Mbuf) : Decidable (BeyondEnd total_fraglen mbuf) :=
  inferInstanceAs (Decidable (_ ∨ _))

theorem Completed.process (h : Completed fcb) (alloc : Alloc) (mbuf : Mbuf)
    : if BeyondEnd fcb.total_fraglen mbuf then
        fragDefragProcess alloc mbuf fcb = ⟨fcb, none, true⟩
      else
        (fragDefragProcess alloc mbuf fcb).destroyed = false := by
  have hlast : fcb.last_in &&& DEFRAG_LAST_IN ≠ 0 := by
    rw [h.last_in]
    decide
  have hcomplete : fcb.last_in &&& DEFRAG_COMPLETE = 0 := by
    rw [h.last_in]
    decide
  split
  . next hbeyond =>
    have hnote : noteEnd mbuf fcb = none := by
      unfold noteEnd
      cases hbeyond with
      | inl hmf => simp [hmf, hlast]
      | inr hend => simp [hend, hlast]
    simp only [fragDefragProcess, enqueue, hcomplete, hnote, ne_eq, not_true_eq_false, ↓reduceIte]
  . next hbeyond =>
    rw [BeyondEnd, not_or, not_lt] at hbeyond
    have hnote : noteEnd mbuf fcb = some fcb := by
      simp only [noteEnd, hbeyond.1, ↓reduceIte]
      rw [if_neg (not_lt.mpr hbeyond.2)]
    have hplace : findPlace fcb mbuf.frag_offset = ⟨[], none, []⟩ := by
      simp only [findPlace, h.fragments_tail]
    simp only [fragDefragProcess, enqueue, hcomplete, hnote, hplace, ne_eq, not_true_eq_false, ↓reduceIte,
      Place.overlaps, Option.any_none, List.head?_nil, Bool.or_self, Bool.false_eq_true]
    split
    . rfl
    . rfl

/-- All fragments are destroyed, and none comes onto the queue. -/
def AllDestroyed (fcb : Fcb) : List (Alloc × Mbuf) → Prop
  | [] => True
  | (alloc, mbuf) :: later =>
    let processed := fragDefragProcess alloc mbuf fcb
    processed.destroyed = true ∧ processed.fcb.fragments = [] ∧ AllDestroyed processed.fcb later

theorem Completed.allDestroyed_iff (h : Completed fcb)
    : AllDestroyed fcb later ↔ ∀ a ∈ later, BeyondEnd fcb.total_fraglen a.2 := by
  induction later with
  | nil => simp [AllDestroyed]
  | cons a later ih =>
    have hprocess := h.process a.1 a.2
    rw [List.forall_mem_cons]
    simp only [AllDestroyed]
    split at hprocess
    . next hbeyond =>
      rw [hprocess, ih]
      simp [h.fragments, hbeyond]
    . next hbeyond => simp [hprocess, hbeyond]

/--
After a packet was returned the fragments are destroyed exactly as long as each of them claims to be
the last one or ends behind the datagram.
-/
theorem allDestroyed_iff_beyondEnd {r : Mbuf} (h : (fragDefragProcess alloc mbuf fcb).ret = some r)
    (later : List (Alloc × Mbuf))
    : AllDestroyed (fragDefragProcess alloc mbuf fcb).fcb later
        ↔ ∀ a ∈ later, BeyondEnd (fragDefragProcess alloc mbuf fcb).fcb.total_fraglen a.2 :=
  (completed_of_ret h).allDestroyed_iff

def lastEight : Mbuf := frame 16 (List.replicate 8 3) false

def reassembledBlock : Processed :=
  fragDefragProcess ⟨true, 8192⟩ lastEight (processAll fcbCreate [(⟨true, 8192⟩, firstSixteen)])

theorem isSome_reassembledBlock : reassembledBlock.ret.isSome = true := by decide +kernel

theorem allDestroyed_iff_beyondEnd_lastEight
    : reassembledBlock.ret.isSome = true
      ∧ (AllDestroyed reassembledBlock.fcb [(⟨true, 8192⟩, lastEight)]
        ↔ ∀ a ∈ [((⟨true, 8192⟩ : Alloc), lastEight)],
          BeyondEnd reassembledBlock.fcb.total_fraglen a.2) := by
  rcases Option.isSome_iff_exists.mp isSome_reassembledBlock with ⟨r, hr⟩
  exact ⟨isSome_reassembledBlock, allDestroyed_iff_beyondEnd hr _⟩

theorem not_allDestroyed_firstSixteen
    : ¬ ∀ (arrivals : List (Alloc × Mbuf)) (alloc : Alloc) (mbuf r : Mbuf)
        (later : List (Alloc × Mbuf)),
        (∀ a ∈ arrivals, AsDecoded a.2) → AsDecoded mbuf → (∀ a ∈ later, AsDecoded a.2)
          → (fragDefragProcess alloc mbuf (processAll fcbCreate arrivals)).ret = some r
          → AllDestroyed (fragDefragProcess alloc mbuf (processAll fcbCreate arrivals)).fcb later := by
  intro h
  rcases Option.isSome_iff_exists.mp isSome_reassembledBlock with ⟨r, hr⟩
  have hall := h [(⟨true, 8192⟩, firstSixteen)] ⟨true, 8192⟩ lastEight r
    [(⟨true, 8192⟩, firstSixteen)] (by decide) (by decide) (by decide) hr
  have hkept : (fragDefragProcess ⟨true, 8192⟩ firstSixteen reassembledBlock.fcb).destroyed
      = false := by decide +kernel
  exact absurd (hkept.symm.trans hall.1) (by simp)

end Completed

end SecFw.Decode
