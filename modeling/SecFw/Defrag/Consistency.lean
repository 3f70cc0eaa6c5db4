import SecFw.Defrag.Interference

/-!
This module contains the proof that every step of a core leaves the table of control blocks, the
queues and the counters of the fragments consistent.
-/

namespace SecFw.Defrag

open Place Decode

variable {Core Item Packet : Type} {s s' : Shared Core Item Packet} {c d : Core}
  {p p' q : Place Item Packet} {m : Packet} {fb : FragBucket} {f g : Item} {ptr : FcbPtr Item}
  {fragments : List Packet} {timeout rest : List Item} {FRAG_MAX_TIMEOUT : UInt64}

namespace Shared

theorem Intact.mono (h : s.Intact f) (hfragments : s'.fragments f = s.fragments f)
    (hqueued : ∀ m, s.Queued f m → s'.Queued f m) : s'.Intact f := by
  rw [Intact, hfragments]
  exact Waiting.mono h hqueued

theorem Pending.mono (h : s.Pending c timeout) (hslot : ∀ f ∈ timeout, s'.slot f = s.slot f)
    (hqueued : ∀ f ∈ timeout, ∀ m, s.Queued f m → s'.Queued f m) : s'.Pending c timeout := by
  refine ⟨h.nodup, ?_⟩
  intro f hf
  rcases h.owned f hf with ⟨howned, hintact⟩
  refine ⟨?_, ?_⟩
  . rw [Owned, hslot f hf]
    exact howned
  . apply hintact.mono ?_ (hqueued f hf)
    rw [fragments, hslot f hf, fragments]

theorem Consistent.of_eq (h : s.Consistent) (hhash : s'.hash = s.hash) (hslot : s'.slot = s.slot)
    (hpacket : s'.packet = s.packet) : s'.Consistent where
  nodup := hhash ▸ h.nodup
  mem_hash := by
    intro fb f
    rw [hhash, Linked, hslot]
    exact h.mem_hash fb f
  intact := by
    intro fb f hlinked hfree
    rw [Linked, hslot] at hlinked
    rw [hslot] at hfree
    apply (h.intact fb f hlinked hfree).mono
    . rw [fragments, hslot, fragments]
    . intro m hm
      rw [Queued, hpacket]
      exact hm
  counted := hpacket ▸ h.counted

theorem mem_hash_of_fragFind {mb : Mbuf} (h : s.fragFind fb mb = some f) : f ∈ s.hash fb :=
  List.mem_of_find?_eq_some h

theorem at_nextBucket {cur : UInt64} (h : cur ≤ s.clock) (i : FragBucket)
    : s.At c (nextBucket cur i) := by
  rw [nextBucket]
  split
  . exact h
  . trivial

theorem not_queued_of_held (h : s.Held c m) : ¬s.Queued f m := by
  intro hqueued
  rw [Held] at h
  rw [Queued, h] at hqueued
  cases hqueued

theorem not_queued_of_ne (h : s.Queued f m) (hne : g ≠ f) : ¬s.Queued g m := by
  intro hqueued
  rw [Queued] at h hqueued
  rw [h, PacketState.queued.injEq] at hqueued
  exact hne hqueued.symm

theorem Consistent.counted_of_held (h : s.Consistent) (hm : s.Held c m)
    : (s.packet m).enqueues = 0 ∧ (s.packet m).destroys = 0 := by
  have hcounted := h.counted m
  rw [Held] at hm
  rw [Counted, hm] at hcounted
  exact hcounted

theorem Consistent.counted_of_queued (h : s.Consistent) (hm : s.Queued f m)
    : (s.packet m).enqueues = 1 ∧ (s.packet m).destroys = 0 := by
  have hcounted := h.counted m
  rw [Queued] at hm
  rw [Counted, hm] at hcounted
  exact hcounted

theorem Waiting.of_perm (h : s.Waiting f fragments) {fragments' : List Packet}
    (hperm : fragments'.Perm fragments) : s.Waiting f fragments' :=
  ⟨hperm.nodup_iff.mpr h.nodup, fun n hn => h.queued n (hperm.mem_iff.mp hn)⟩

section Packets

variable [DecidableEq Packet] {packet : PacketSlot Core Item}

theorem Queued.setPacket (h : s.Queued f m) {n : Packet} (hn : ¬s.Queued f n)
    : (s.setPacket n packet).Queued f m := Kept.queued_setPacket hn h

theorem Consistent.setPacket (h : s.Consistent)
    (hqueued : ∀ fb f, s.Linked fb f → (s.slot f).lock = none → ¬s.Queued f m)
    (hcounted : Counted packet) : (s.setPacket m packet).Consistent where
  nodup := h.nodup
  mem_hash := h.mem_hash
  intact := by
    intro fb f hlinked hfree
    have hnot := hqueued fb f hlinked hfree
    exact (h.intact fb f hlinked hfree).mono rfl fun n hn => hn.setPacket hnot
  counted := by
    intro n
    by_cases hn : n = m
    . subst hn
      simpa using hcounted
    . simpa [hn] using h.counted n

theorem Consistent.setPacket_of_held (h : s.Consistent) (hm : s.Held c m)
    (hcounted : Counted packet) : (s.setPacket m packet).Consistent :=
  h.setPacket (fun _ _ _ _ => not_queued_of_held hm) hcounted

theorem Consistent.destroy_of_held (h : s.Consistent) (hm : s.Held c m)
    : (s.packetDestroyAll m).Consistent := by
  apply h.setPacket_of_held hm
  rcases h.counted_of_held hm with ⟨henqueues, hdestroys⟩
  simp [Counted, henqueues, hdestroys]

theorem Consistent.destroy_of_queued (h : s.Consistent) (hm : s.Queued f m)
    (hf : ∀ fb, s.Linked fb f → (s.slot f).lock ≠ none) : (s.packetDestroyAll m).Consistent := by
  rcases h.counted_of_queued hm with ⟨henqueues, hdestroys⟩
  apply h.setPacket
  . intro fb g hlinked hfree
    apply not_queued_of_ne hm
    rintro rfl
    exact hf fb hlinked hfree
  . simp [Counted, henqueues, hdestroys]

theorem Consistent.enqueue (h : s.Consistent) (hm : s.Held c m) : (s.enqueue m f).Consistent := by
  apply h.setPacket_of_held hm
  rcases h.counted_of_held hm with ⟨henqueues, hdestroys⟩
  simp [Counted, henqueues, hdestroys]

theorem Waiting.enqueue (h : s.Waiting f fragments) (hm : s.Held c m)
    : (s.enqueue m f).Waiting f (m :: fragments) := by
  have hnot : ¬s.Queued f m := not_queued_of_held hm
  refine ⟨List.nodup_cons.mpr ⟨fun hmem => hnot (h.queued m hmem), h.nodup⟩, ?_⟩
  rw [List.forall_mem_cons]
  refine ⟨?_, fun n hn => (h.queued n hn).setPacket hnot⟩
  simp [Shared.enqueue, Queued]

def WaitingAfter (s : Shared Core Item Packet) (f : Item) (m : Packet) (queue : FragQueue Packet)
    : Fate Packet → Prop
  | .destroyed => s.Waiting f queue.fragments
  | .cached => (s.enqueue m f).Waiting f queue.fragments
  | .reassembled freed _ => (s.enqueue m f).Waiting f freed

theorem waiting_of_process {queue queue' : FragQueue Packet} {alloc : Alloc}
    {mbuf : Packet → Mbuf} {fate : Fate Packet} (h : s.Waiting f queue.fragments)
    (hm : s.Held c m) (hprocess : queue.process alloc mbuf m = (queue', fate))
    : s.WaitingAfter f m queue' fate := by
  have hfate := FragQueue.process_cases alloc mbuf m queue
  rw [hprocess] at hfate
  cases hfate with
  | destroyed hqueue =>
    rw [WaitingAfter, hqueue]
    exact h
  | cached hqueue => exact (h.enqueue hm).of_perm hqueue
  | reassembled _ hfreed _ => exact (h.enqueue hm).of_perm hfreed

end Packets

variable [DecidableEq Item] {slot : FcbSlot Core Packet} {fcb : fcb_t (FragQueue Packet)}

theorem Consistent.setSlot (h : s.Consistent) (hstate : ∀ fb, slot.state = .linked fb ↔ s.Linked fb f)
    (hintact : ∀ fb, s.Linked fb f → slot.lock = none → s.Waiting f slot.fcb.queue.fragments)
    : (s.setSlot f slot).Consistent where
  nodup := h.nodup
  mem_hash := by
    intro fb g
    rw [show (s.setSlot f slot).hash = s.hash from rfl, h.mem_hash]
    by_cases hg : g = f
    . subst hg
      rw [← hstate fb, Linked, slot_setSlot_self]
    . rw [Linked, Linked, slot_setSlot_of_ne hg]
  intact := by
    intro fb g hlinked hfree
    by_cases hg : g = f
    . subst hg
      simp only [Linked, slot_setSlot_self] at hlinked hfree
      rw [Intact, fragments, slot_setSlot_self]
      exact (hintact fb ((hstate fb).mp hlinked) hfree).mono fun _ hm => hm
    . simp only [Linked, slot_setSlot_of_ne hg] at hlinked hfree
      refine (h.intact fb g hlinked hfree).mono ?_ fun _ hm => hm
      rw [fragments, slot_setSlot_of_ne hg, fragments]
  counted := h.counted

theorem Consistent.setFcb (h : s.Consistent)
    (hintact : ∀ fb, s.Linked fb f → (s.slot f).lock = none → s.Waiting f fcb.queue.fragments)
    : (s.setFcb f fcb).Consistent := h.setSlot (fun _ => Iff.rfl) hintact

theorem Consistent.fcbInsert (h : s.Consistent) (hptr : s.Created c ptr)
    : (s.fcbInsert fb ptr.fcb).Consistent := by
  have howned := hptr.owned
  rw [Owned] at howned
  have hnew (b : FragBucket) : ptr.fcb ∉ s.hash b := by
    rw [h.mem_hash, Linked, howned]
    simp
  constructor
  . intro b
    by_cases hb : b = fb
    . subst hb
      simpa [Shared.fcbInsert] using And.intro (hnew b) (h.nodup b)
    . simpa [Shared.fcbInsert, hb] using h.nodup b
  . intro b g
    have hmem := h.mem_hash b g
    by_cases hg : g = ptr.fcb
    . subst hg
      by_cases hb : b = fb
      . subst hb
        simp [Shared.fcbInsert, Linked]
      . simpa [Shared.fcbInsert, Linked, hb, Ne.symm hb] using hnew b
    . by_cases hb : b = fb
      . subst hb
        simpa [Shared.fcbInsert, Linked, hg] using hmem
      . simpa [Shared.fcbInsert, Linked, hg, hb] using hmem
  . intro b g hlinked hfree
    by_cases hg : g = ptr.fcb
    . subst hg
      refine hptr.intact.mono ?_ fun _ hm => hm
      simp [Shared.fcbInsert, fragments]
    . simp only [Shared.fcbInsert, Linked, slot_setSlot_of_ne hg] at hlinked hfree
      refine (h.intact b g hlinked hfree).mono ?_ fun _ hm => hm
      simp [Shared.fcbInsert, fragments, hg]
  . exact h.counted

theorem Consistent.hlistDel (h : s.Consistent) (hf : s.Linked fb f)
    : (s.hlistDel c fb f).Consistent := by
  rw [Linked] at hf
  have honly (b : FragBucket) (hb : b ≠ fb) : f ∉ s.hash b := by
    rw [h.mem_hash, Linked, hf, FcbState.linked.injEq]
    exact hb.symm
  constructor
  . intro b
    by_cases hb : b = fb
    . subst hb
      simpa [Shared.hlistDel] using (h.nodup b).erase f
    . simpa [Shared.hlistDel, hb] using h.nodup b
  . intro b g
    have hmem := h.mem_hash b g
    by_cases hg : g = f
    . subst hg
      by_cases hb : b = fb
      . subst hb
        simp [Shared.hlistDel, Linked, (h.nodup b).mem_erase_iff]
      . simpa [Shared.hlistDel, Linked, hb] using honly b hb
    . by_cases hb : b = fb
      . subst hb
        simpa [Shared.hlistDel, Linked, hg, (h.nodup b).mem_erase_iff] using hmem
      . simpa [Shared.hlistDel, Linked, hg, hb] using hmem
  . intro b g hlinked hfree
    have hg : g ≠ f := by
      rintro rfl
      simp [Shared.hlistDel, Linked] at hlinked
    simp only [Shared.hlistDel, Linked, slot_setSlot_of_ne hg] at hlinked hfree
    refine (h.intact b g hlinked hfree).mono ?_ fun _ hm => hm
    simp [Shared.hlistDel, fragments, hg]
  . exact h.counted

end Shared

variable [DecidableEq Item] [DecidableEq Packet]

theorem FragStep.consistent (hcons : s.Consistent) (hat : s.At c p)
    (hstep : FragStep FRAG_MAX_TIMEOUT c s p s' p') : s'.Consistent := by
  have hlock {f : Item} (hf : s.Locked c f) : (s.slot f).lock ≠ none := by
    rw [hf]
    simp
  cases hstep with
  | tick | tableLock | tableUnlock | missUnlock | ageTrylock | ageUnlock =>
    exact hcons.of_eq rfl rfl rfl
  | defrag m mb hnew =>
    apply hcons.setPacket
    . intro fb f _ _
      rw [Shared.Queued, hnew]
      simp
    . have hcounted := hcons.counted m
      rw [Shared.Counted, hnew] at hcounted
      exact hcounted
  | foundStore => exact hcons.setFcb fun fb hlinked hfree => hcons.intact fb _ hlinked hfree
  | create f hfree =>
    apply hcons.setSlot
    . intro fb
      rw [Shared.Linked, hfree]
      simp
    . intro fb hlinked
      rw [Shared.Linked, hfree] at hlinked
      cases hlinked
  | newStore => exact hcons.setFcb fun fb hlinked hfree => hcons.intact fb _ hlinked hfree
  | insert => exact hcons.fcbInsert hat.2.2
  | destroy => exact hcons.destroy_of_held hat
  | hw2sw small mbuf hsw =>
    apply hcons.setPacket_of_held hat.1
    have hcounted := hcons.counted_of_held hat.1
    rw [Shared.Counted, show (s.packet _).state = _ from hat.1]
    exact hcounted
  | fcbLock hfree => exact hcons.setSlot (fun _ => Iff.rfl) (by simp)
  | processErr alloc queue hprocess =>
    exact hcons.setFcb fun fb hlinked hfree => absurd hfree (hlock hat.2.2.1)
  | processCached alloc queue hprocess | processReasm alloc queue freed reasm_mb hprocess =>
    refine Shared.Consistent.enqueue ?_ hat.1
    exact hcons.setFcb fun fb hlinked hfree => absurd hfree (hlock hat.2.2.1)
  | destroyErr => exact hcons.destroy_of_held hat.1
  | freefrags =>
    apply hcons.destroy_of_queued (hat.2.2.queued _ List.mem_cons_self)
    exact fun _ _ => hlock hat.2.1
  | freefragsEnd => exact hcons.setFcb fun fb hlinked hfree => absurd hfree (hlock hat.2.1)
  | fcbUnlock => exact hcons.setSlot (fun _ => Iff.rfl) fun _ _ _ => hat.2.2
  | ageDead => exact hcons.hlistDel (hat.2.2.1.linked _ List.mem_cons_self)
  | ageDestroy =>
    apply hcons.destroy_of_queued (hat.2.2.2.1.queued _ List.mem_cons_self)
    intro fb hlinked
    exact absurd hat.2.1 (Shared.not_owned_of_linked hlinked)
  | ageDestroyEnd => exact hcons.setFcb fun fb hlinked _ => Shared.waiting_nil
  | ageFree =>
    apply hcons.setSlot
    . intro fb
      refine ⟨by simp, ?_⟩
      intro hlinked
      exact absurd hat.2.1 (Shared.not_owned_of_linked hlinked)
    . intro fb hlinked
      exact absurd hat.2.1 (Shared.not_owned_of_linked hlinked)
  | _ => exact hcons

end SecFw.Defrag
