import SecFw.Flow.Consistency

/-!
This module contains the proof that every step of a core leads to a place whose annotation holds,
and the proof outline that the annotations make up.
-/

namespace SecFw.Flow

open Place Interleaving

variable {Core Item : Type} {s s' : Shared Core Item} {c d : Core} {p p' : Place Item} {m : MbufId}
  {fb : Bucket} {f g newf flow : Item} {timeout rest : List Item}

namespace Shared

theorem at_nextBucket (cur : UInt64) (i : Bucket) : s.At c (nextBucket cur i) := by
  rw [nextBucket]
  split <;> trivial

theorem Packet.of_mbuf (h : s.Packet c m fb) (hmbuf : s'.mbuf = s.mbuf) : s'.Packet c m fb := by
  refine ⟨?_, ?_⟩
  . rw [Held, hmbuf]
    exact h.held
  . rw [hmbuf]
    exact h.bucket

theorem Pending.of_cons (h : s.Pending (f :: timeout)) : f ∉ timeout ∧ s.Pending timeout := by
  rcases List.nodup_cons.mp h.nodup with ⟨hnew, hnodup⟩
  exact ⟨hnew, hnodup, fun g hg => h.owned g (List.mem_cons_of_mem f hg)⟩

theorem Pending.notMem_of_linked (h : s.Pending timeout) (hf : s.Linked f) : f ∉ timeout :=
  fun hmem => (h.owned f hmem).1.linked hf

theorem Unseen.of_cons (h : s.Unseen fb (f :: rest)) : f ∉ rest ∧ s.Unseen fb rest := by
  rcases List.nodup_cons.mp h.nodup with ⟨hnew, hnodup⟩
  exact ⟨hnew, hnodup, fun g hg => h.mem g (List.mem_cons_of_mem f hg)⟩

theorem Unseen.of_hash (h : s.Unseen fb rest) (hhash : s'.hash = s.hash) : s'.Unseen fb rest := by
  refine ⟨h.nodup, ?_⟩
  rw [hhash]
  exact h.mem

theorem Pending.of_item (h : s.Pending timeout) (hhash : ∀ g, s'.Linked g → s.Linked g)
    (hpool : ∀ g ∈ timeout, g ∉ s.pool → g ∉ s'.pool)
    (hitem : ∀ g ∈ timeout, s'.item g = s.item g) : s'.Pending timeout := by
  refine ⟨h.nodup, ?_⟩
  intro g hg
  rcases h.owned g hg with ⟨hpriv, hlock⟩
  rw [hitem g hg]
  refine ⟨⟨hpool g hg hpriv.pool, fun hlinked => hpriv.linked (hhash g hlinked), ?_⟩, hlock⟩
  rw [hitem g hg]
  exact hpriv.use_cnt

variable [DecidableEq Item] {item : flow_item_t Core}

theorem Matches.setItem (h : s.Matches m g) (htuple : item.tuple = (s.item f).tuple)
    : (s.setItem f item).Matches m g := by
  rw [Matches, flowMatch_iff] at h ⊢
  by_cases hg : g = f
  . subst hg
    rw [item_setItem_self, htuple]
    exact h
  . rw [item_setItem_of_ne hg]
    exact h

theorem Private.setItem (h : s.Private g) (huse : item.use_cnt = (s.item f).use_cnt)
    : (s.setItem f item).Private g := by
  refine ⟨h.pool, h.linked, ?_⟩
  by_cases hg : g = f
  . subst hg
    rw [item_setItem_self, huse]
    exact h.use_cnt
  . rw [item_setItem_of_ne hg]
    exact h.use_cnt

theorem locked_itemLock : (s.itemLock c f).Locked c f := by
  simp [Locked, Shared.itemLock]

theorem Pending.setItem (h : s.Pending timeout) (hf : f ∉ timeout)
    : (s.setItem f item).Pending timeout := by
  refine h.of_item (fun _ hg => hg) (fun _ _ hg => hg) ?_
  intro g hg
  apply item_setItem_of_ne
  rintro rfl
  exact hf hg

theorem Consistent.at_hlistDel (hcons : s.Consistent) {cur : UInt64}
    (hat : s.At c (ageTest cur fb f rest timeout)) (huse : (s.item f).use_cnt ≤ 0)
    : (s.hlistDel fb f).At c (ageUnlockDead cur fb f rest timeout) := by
  rcases hat with ⟨hlock, hunseen, hlocked, htimeout⟩
  have hf : f ∈ s.hash fb := hunseen.mem f (by simp)
  rcases hunseen.of_cons with ⟨hnew, hrest⟩
  refine ⟨hlock, ⟨hrest.nodup, ?_⟩, (hcons.hlistDel hf huse).2, hlocked,
    htimeout.notMem_of_linked ⟨fb, hf⟩, ?_⟩
  . intro g hg
    have hgf : g ≠ f := by
      rintro rfl
      exact hnew hg
    rw [hash_hlistDel_self, List.mem_erase_of_ne hgf]
    exact hrest.mem g hg
  . apply htimeout.of_item
    . exact fun g hg => ((hcons.linked_hlistDel hf g).mp hg).2
    . exact fun _ _ hg => hg
    . exact fun _ _ => rfl

theorem Consistent.at_flowItemAlloc (hcons : s.Consistent) (hpacket : s.Packet c m fb)
    (hnew : newf ∈ s.pool) (cycle : UInt64)
    : (s.flowItemAlloc newf (s.mbuf m).mbuf cycle).At c (addLockNew m fb newf) := by
  have hitem : (s.flowItemAlloc newf (s.mbuf m).mbuf cycle).item newf
      = newItem (s.mbuf m).mbuf cycle := by
    simp [Shared.flowItemAlloc, Shared.setItem]
  refine ⟨hpacket.of_mbuf rfl, ⟨?_, ?_, ?_⟩, ?_⟩
  . rintro ⟨-, hne⟩
    exact hne rfl
  . exact fun hlinked => hcons.pool newf hlinked hnew
  . rw [hitem]
    rfl
  . rw [Matches, flowMatch_iff, hitem]
    rfl

theorem at_flowReference (hat : s.At c (reference m f))
    : (s.flowReference m f).At c (unlockItem m f) := by
  rcases hat with ⟨hheld, hlinked, -, hlocked⟩
  rw [Shared.flowReference]
  split
  . exact ⟨hheld, hlinked, hlocked⟩
  . refine ⟨?_, hlinked, ?_⟩
    . rw [Held, Shared.setFlow, mbuf_setMbuf_self]
      exact hheld
    . simpa [Shared.setFlow, Shared.setMbuf, Shared.addUsecnt, Locked] using hlocked

theorem at_flowDeReference (hheld : s.Held c m) : (s.flowDeReference m).At c (freeSlice m) := by
  rw [Shared.flowDeReference]
  split
  . next hflow => exact ⟨hheld, hflow⟩
  . refine ⟨?_, ?_⟩
    . rw [Held, Shared.setFlow, mbuf_setMbuf_self]
      exact hheld
    . rw [Shared.setFlow, mbuf_setMbuf_self]

end Shared

variable [DecidableEq Item] {FLOW_MAX_TIMEOUT : UInt64}

theorem FlowStep.at' (hcons : s.Consistent) (hat : s.At c p)
    (hstep : FlowStep FLOW_MAX_TIMEOUT c s p s' p') : s'.At c p' := by
  cases hstep with
  | receive m mbuf hfree => trivial
  | handlePacket m hqueued =>
    refine ⟨?_, ?_⟩
    . rw [Shared.Held, Shared.setState, Shared.mbuf_setMbuf_self]
    . rw [Shared.setState, Shared.mbuf_setMbuf_self, bucket_tupleOf]
  | mbufFree m hqueued =>
    show (s.setState m (.held c)).Held c m
    rw [Shared.Held, Shared.setState, Shared.mbuf_setMbuf_self]
  | ageTimeout cur => trivial
  | lookupLock hfree => exact ⟨hat.of_mbuf rfl, Shared.lock_tableLock_self⟩
  | lookupFind cycle hfind =>
    rcases flowFind_eq_some hfind with ⟨hflow, hmatch⟩
    exact ⟨hat.1.of_mbuf rfl, hat.2, hflow, Shared.Matches.setItem hmatch rfl⟩
  | lookupMiss hfind => exact hat
  | lookupItem hfree =>
    rcases hat with ⟨hpacket, hlock, hflow, hmatch⟩
    exact ⟨hpacket.of_mbuf rfl, hlock, hflow, hmatch.setItem rfl, Shared.locked_itemLock⟩
  | lookupUnlock =>
    rcases hat with ⟨hpacket, hlock, hflow, hmatch, hlocked⟩
    exact ⟨hpacket.held, ⟨_, hflow⟩, hmatch, hlocked⟩
  | missUnlock => exact hat.1.of_mbuf rfl
  | addAlloc newf cycle hpool => exact hcons.at_flowItemAlloc hat hpool cycle
  | addAllocFailed => exact hat.held
  | addLockNew hfree =>
    rcases hat with ⟨hpacket, hpriv, hmatch⟩
    exact ⟨hpacket.of_mbuf rfl, hpriv.setItem rfl, hmatch.setItem rfl, Shared.locked_itemLock⟩
  | addLock hfree =>
    rcases hat with ⟨hpacket, hpriv, hmatch, hlocked⟩
    exact ⟨hpacket.of_mbuf rfl, ⟨hpriv.pool, hpriv.linked, hpriv.use_cnt⟩, hmatch, hlocked,
      Shared.lock_tableLock_self⟩
  | addInsert hfind =>
    rcases hat with ⟨hpacket, hpriv, hmatch, hlocked, hlock⟩
    exact ⟨hpacket.of_mbuf rfl, hlock, by simp, hmatch, hlocked⟩
  | addFind cycle hfind =>
    rcases hat with ⟨hpacket, hpriv, -, -, hlock⟩
    rcases flowFind_eq_some hfind with ⟨hflow, hmatch⟩
    exact ⟨hpacket.of_mbuf rfl, hpriv.setItem rfl, hlock, hflow, Shared.Matches.setItem hmatch rfl⟩
  | addUnlock =>
    rcases hat with ⟨hpacket, hlock, hnewf, hmatch, hlocked⟩
    exact ⟨hpacket.held, ⟨_, hnewf⟩, hmatch, hlocked⟩
  | addItem hfree =>
    rcases hat with ⟨hpacket, hpriv, hlock, hflow, hmatch⟩
    exact ⟨hpacket.of_mbuf rfl, hpriv.setItem rfl, hlock, hflow, hmatch.setItem rfl,
      Shared.locked_itemLock⟩
  | addItemUnlock =>
    rcases hat with ⟨hpacket, hpriv, hlock, hflow, hmatch, hlocked⟩
    exact ⟨hpacket.held, ⟨hpriv.pool, hpriv.linked, hpriv.use_cnt⟩, ⟨_, hflow⟩, hmatch, hlocked⟩
  | addFree =>
    rcases hat with ⟨hheld, -, hlinked, hmatch, hlocked⟩
    exact ⟨hheld, hlinked, hmatch, hlocked⟩
  | reference => exact s.at_flowReference hat
  | unlockItem => exact hat.1
  | deliver => trivial
  | recycle => exact s.at_flowDeReference hat
  | freeSlice => trivial
  | ageTrylock hfree =>
    exact ⟨Shared.lock_tableLock_self, ⟨hcons.nodup _, fun _ hf => hf⟩, List.nodup_nil, by simp⟩
  | ageSkipBucket hlocked => exact s.at_nextBucket _ _
  | ageItem hfree =>
    rcases hat with ⟨hlock, hunseen, htimeout⟩
    exact ⟨hlock, hunseen.of_hash rfl, Shared.locked_itemLock,
      htimeout.setItem (htimeout.notMem_of_linked ⟨_, hunseen.mem _ (by simp)⟩)⟩
  | ageSkipItem hlocked =>
    rcases hat with ⟨hlock, hunseen, htimeout⟩
    exact ⟨hlock, hunseen.of_cons.2, htimeout⟩
  | ageUnlock => exact hat.2.2.of_item (fun _ hg => hg) (fun _ _ hg => hg) fun _ _ => rfl
  | ageDead htimeout => exact hcons.at_hlistDel hat (use_cnt_of_flowTimeOut htimeout)
  | ageKeep htimeout =>
    rcases hat with ⟨hlock, hunseen, hlocked, htimeout⟩
    exact ⟨hlock, hunseen.of_cons.2, hunseen.mem _ (by simp), hlocked, htimeout⟩
  | @ageUnlockDead _ _ cur i f rest timeout =>
    rcases hat with ⟨hlock, hunseen, hpriv, -, hnew, htimeout⟩
    have hrest : (s.itemUnlock f).Pending timeout := htimeout.setItem hnew
    refine ⟨hlock, hunseen.of_hash rfl, List.nodup_cons.mpr ⟨hnew, hrest.nodup⟩, ?_⟩
    rw [List.forall_mem_cons]
    exact ⟨⟨hpriv.setItem rfl, by simp [Shared.itemUnlock]⟩, hrest.owned⟩
  | ageUnlockKeep =>
    rcases hat with ⟨hlock, hunseen, hf, -, htimeout⟩
    exact ⟨hlock, hunseen.of_hash rfl, htimeout.setItem (htimeout.notMem_of_linked ⟨_, hf⟩)⟩
  | @ageFree _ _ cur i tf timeout =>
    rcases hat.of_cons with ⟨hnew, htimeout⟩
    refine htimeout.of_item (fun _ hg => hg) ?_ fun _ _ => rfl
    rintro g hg hpool (rfl | hfree)
    . exact hnew hg
    . exact hpool hfree
  | ageFinish => exact s.at_nextBucket _ _

def flowOutline (Core Item : Type) [DecidableEq Item] (FLOW_MAX_TIMEOUT : UInt64)
    : ProofOutline (@FlowStep Core Item _ FLOW_MAX_TIMEOUT) where
  shared := Shared.Consistent
  at' := fun c s p => s.At c p
  apart := fun p q => List.Disjoint p.owned q.owned
  apart_symm := fun _ _ h => h.symm
  step := fun hcons hat hstep => ⟨hstep.consistent hcons hat, hstep.at' hcons hat⟩
  noninterference := fun hne hcons hp hq hapart hstep =>
    ⟨(hstep.kept hne hcons hp hq hapart).at' hcons hq, hstep.apart hp hq hapart⟩

end SecFw.Flow
