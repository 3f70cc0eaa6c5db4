import SecFw.Flow.Outline

/-!
This module contains the proof that the cores do not interfere with each other on the flow table.
-/

namespace SecFw.Flow

open Place

variable {Core Item : Type} {s s' s'' : Shared Core Item} {c d : Core} {p p' q : Place Item}
  {m : MbufId} {fb : Bucket} {f newf : Item}

theorem Shared.Consistent.notMem_pool (h : s.Consistent) (hf : f ∈ s.hash fb) : f ∉ s.pool :=
  h.pool f ⟨fb, hf⟩

theorem Kept.at' (h : Kept d q s s') (hcons : s.Consistent) (hat : s.At d q) : s'.At d q := by
  cases q with
  | idle => trivial
  | lookupLock m fb => exact h.packet hat
  | lookupFind m fb => exact ⟨h.packet hat.1, h.lock fb hat.2⟩
  | lookupItem m fb flow =>
    rcases hat with ⟨hpacket, hlock, hflow, hmatch⟩
    exact ⟨h.packet hpacket, h.lock fb hlock, h.mem_hash hlock hflow,
      h.matches' hpacket.held (hcons.notMem_pool hflow) hmatch⟩
  | lookupUnlock m fb flow =>
    rcases hat with ⟨hpacket, hlock, hflow, hmatch, hlocked⟩
    exact ⟨h.packet hpacket, h.lock fb hlock, h.mem_hash hlock hflow,
      h.matches' hpacket.held (hcons.notMem_pool hflow) hmatch, (h.linked flow ⟨fb, hflow⟩ hlocked).2⟩
  | missUnlock m fb => exact ⟨h.packet hat.1, h.lock fb hat.2⟩
  | addAlloc m fb => exact h.packet hat
  | addLockNew m fb newf =>
    rcases hat with ⟨hpacket, hpriv, hmatch⟩
    exact ⟨h.packet hpacket, (h.owned newf (by simp [Place.owned]) hpriv).1,
      h.matches' hpacket.held hpriv.pool hmatch⟩
  | addLock m fb newf =>
    rcases hat with ⟨hpacket, hpriv, hmatch, hlocked⟩
    exact ⟨h.packet hpacket, (h.owned newf (by simp [Place.owned]) hpriv).1,
      h.matches' hpacket.held hpriv.pool hmatch, h.locked_of_owned (by simp [Place.owned]) hpriv hlocked⟩
  | addFind m fb newf =>
    rcases hat with ⟨hpacket, hpriv, hmatch, hlocked, hlock⟩
    exact ⟨h.packet hpacket, (h.owned newf (by simp [Place.owned]) hpriv).1,
      h.matches' hpacket.held hpriv.pool hmatch, h.locked_of_owned (by simp [Place.owned]) hpriv hlocked,
      h.lock fb hlock⟩
  | addUnlock m fb newf =>
    rcases hat with ⟨hpacket, hlock, hnewf, hmatch, hlocked⟩
    exact ⟨h.packet hpacket, h.lock fb hlock, h.mem_hash hlock hnewf,
      h.matches' hpacket.held (hcons.notMem_pool hnewf) hmatch, (h.linked newf ⟨fb, hnewf⟩ hlocked).2⟩
  | addItem m fb newf flow =>
    rcases hat with ⟨hpacket, hpriv, hlock, hflow, hmatch⟩
    exact ⟨h.packet hpacket, (h.owned newf (by simp [Place.owned]) hpriv).1, h.lock fb hlock,
      h.mem_hash hlock hflow, h.matches' hpacket.held (hcons.notMem_pool hflow) hmatch⟩
  | addItemUnlock m fb newf flow =>
    rcases hat with ⟨hpacket, hpriv, hlock, hflow, hmatch, hlocked⟩
    exact ⟨h.packet hpacket, (h.owned newf (by simp [Place.owned]) hpriv).1, h.lock fb hlock,
      h.mem_hash hlock hflow, h.matches' hpacket.held (hcons.notMem_pool hflow) hmatch,
      (h.linked flow ⟨fb, hflow⟩ hlocked).2⟩
  | addFree m newf flow =>
    rcases hat with ⟨hheld, hpriv, hlinked, hmatch, hlocked⟩
    rcases h.linked flow hlinked hlocked with ⟨hlinked', hlocked'⟩
    exact ⟨h.held hheld, (h.owned newf (by simp [Place.owned]) hpriv).1, hlinked',
      h.matches' hheld (hcons.pool flow hlinked) hmatch, hlocked'⟩
  | reference m f =>
    rcases hat with ⟨hheld, hlinked, hmatch, hlocked⟩
    rcases h.linked f hlinked hlocked with ⟨hlinked', hlocked'⟩
    exact ⟨h.held hheld, hlinked', h.matches' hheld (hcons.pool f hlinked) hmatch, hlocked'⟩
  | unlockItem m f =>
    rcases hat with ⟨hheld, hlinked, hlocked⟩
    exact ⟨h.held hheld, h.linked f hlinked hlocked⟩
  | deliver m => exact h.held hat
  | recycle m => exact h.held hat
  | freeSlice m =>
    refine ⟨h.held hat.1, ?_⟩
    rw [h.mbuf m hat.1]
    exact hat.2
  | ageTrylock cur i => trivial
  | ageNext cur i rest timeout =>
    rcases hat with ⟨hlock, hrest, htimeout⟩
    exact ⟨h.lock i hlock, h.unseen hlock hrest, h.pending (fun _ hf => hf) htimeout⟩
  | ageTest cur i f rest timeout =>
    rcases hat with ⟨hlock, hrest, hlocked, htimeout⟩
    exact ⟨h.lock i hlock, h.unseen hlock hrest,
      (h.linked f ⟨i, hrest.mem f (by simp)⟩ hlocked).2, h.pending (fun _ hf => hf) htimeout⟩
  | ageUnlockDead cur i f rest timeout =>
    rcases hat with ⟨hlock, hrest, hpriv, hlocked, hnew, htimeout⟩
    have hf : f ∈ (ageUnlockDead cur i f rest timeout).owned := by simp [Place.owned]
    exact ⟨h.lock i hlock, h.unseen hlock hrest, (h.owned f hf hpriv).1,
      h.locked_of_owned hf hpriv hlocked, hnew,
      h.pending (fun g hg => List.mem_cons_of_mem f hg) htimeout⟩
  | ageUnlockKeep cur i f rest timeout =>
    rcases hat with ⟨hlock, hrest, hf, hlocked, htimeout⟩
    exact ⟨h.lock i hlock, h.unseen hlock hrest, h.mem_hash hlock hf,
      (h.linked f ⟨i, hf⟩ hlocked).2, h.pending (fun _ hf => hf) htimeout⟩
  | ageFree cur i timeout => exact h.pending (fun _ hf => hf) hat

namespace Kept

theorem tableLock (hfree : s.lock fb = none) : Kept d q s (s.tableLock c fb) where
  lock := by
    intro b hb
    rw [Shared.lock_tableLock_of_ne]
    . exact hb
    . rintro rfl
      simp [hfree] at hb
  hash := fun _ _ => rfl
  linked := fun _ h h' => ⟨h, h'⟩
  tuple := fun _ _ => rfl
  owned := fun _ _ h => ⟨⟨h.pool, h.linked, h.use_cnt⟩, rfl⟩
  mbuf := fun _ _ => rfl

theorem tableUnlock (hlock : s.lock fb = some c) (hne : c ≠ d) : Kept d q s (s.tableUnlock fb) where
  lock := by
    intro b hb
    rw [Shared.lock_tableUnlock_of_ne]
    . exact hb
    . rintro rfl
      rw [hlock, Option.some.injEq] at hb
      exact hne hb
  hash := fun _ _ => rfl
  linked := fun _ h h' => ⟨h, h'⟩
  tuple := fun _ _ => rfl
  owned := fun _ _ h => ⟨⟨h.pool, h.linked, h.use_cnt⟩, rfl⟩
  mbuf := fun _ _ => rfl

theorem setMbuf {slot : MbufSlot Core Item} (hm : ¬s.Held d m) : Kept d q s (s.setMbuf m slot) where
  lock := fun _ h => h
  hash := fun _ _ => rfl
  linked := fun _ h h' => ⟨h, h'⟩
  tuple := fun _ _ => rfl
  owned := fun _ _ h => ⟨⟨h.pool, h.linked, h.use_cnt⟩, rfl⟩
  mbuf := by
    intro m' hm'
    apply Shared.mbuf_setMbuf_of_ne
    rintro rfl
    exact hm hm'

theorem flowInsert (hlock : s.lock fb = some c) (hne : c ≠ d) (hnew : newf ∉ q.owned)
    : Kept d q s (s.flowInsert fb newf) where
  lock := fun _ h => h
  hash := by
    intro b hb
    apply Shared.hash_flowInsert_of_ne
    rintro rfl
    rw [hlock, Option.some.injEq] at hb
    exact hne hb
  linked := fun _ hf hlocked => ⟨Shared.linked_flowInsert.mpr (Or.inr hf), hlocked⟩
  tuple := fun _ _ => rfl
  owned := by
    intro f hf hpriv
    refine ⟨⟨hpriv.pool, ?_, hpriv.use_cnt⟩, rfl⟩
    rw [Shared.linked_flowInsert, not_or]
    refine ⟨?_, hpriv.linked⟩
    rintro rfl
    exact hnew hf
  mbuf := fun _ _ => rfl

theorem flowItemFree (hf : f ∉ q.owned) : Kept d q s (s.flowItemFree f) where
  lock := fun _ h => h
  hash := fun _ _ => rfl
  linked := fun _ h h' => ⟨h, h'⟩
  tuple := fun _ _ => rfl
  owned := by
    intro g hg hpriv
    refine ⟨⟨?_, hpriv.linked, hpriv.use_cnt⟩, rfl⟩
    rintro (rfl | hpool)
    . exact hf hg
    . exact hpriv.pool hpool
  mbuf := fun _ _ => rfl

theorem trans (h : Kept d q s s') (h' : Kept d q s' s'') (hpool : s'.pool = s.pool)
    : Kept d q s s'' where
  lock := fun fb hfb => h'.lock fb (h.lock fb hfb)
  hash := fun fb hfb => (h'.hash fb (h.lock fb hfb)).trans (h.hash fb hfb)
  linked := by
    intro f hlinked hlocked
    rcases h.linked f hlinked hlocked with ⟨hlinked', hlocked'⟩
    exact h'.linked f hlinked' hlocked'
  tuple := by
    intro f hf
    rw [h'.tuple f (by rwa [hpool]), h.tuple f hf]
  owned := by
    intro f hf hpriv
    rcases h.owned f hf hpriv with ⟨hpriv', heq⟩
    rcases h'.owned f hf hpriv' with ⟨hpriv'', heq'⟩
    exact ⟨hpriv'', heq'.trans heq⟩
  mbuf := fun m hm => (h'.mbuf m (h.held hm)).trans (h.mbuf m hm)

variable [DecidableEq Item]

theorem setItem {item : flow_item_t Core} (hf : f ∉ q.owned) (htuple : item.tuple = (s.item f).tuple)
    (hlock : s.Locked d f → item.item_lock = some d) : Kept d q s (s.setItem f item) where
  lock := fun _ h => h
  hash := fun _ _ => rfl
  linked := by
    intro g hlinked hlocked
    refine ⟨hlinked, ?_⟩
    by_cases hg : g = f
    . subst hg
      simpa [Shared.Locked] using hlock hlocked
    . simpa [Shared.Locked, hg] using hlocked
  tuple := by
    intro g _
    by_cases hg : g = f
    . subst hg
      simpa using htuple
    . simp [hg]
  owned := by
    intro g hg hpriv
    have hne : g ≠ f := by
      rintro rfl
      exact hf hg
    have hitem : (s.setItem f item).item g = s.item g := by simp [hne]
    exact ⟨⟨hpriv.pool, hpriv.linked, by rw [hitem, hpriv.use_cnt]⟩, hitem⟩
  mbuf := fun _ _ => rfl

theorem itemLock (hfree : (s.item f).item_lock = none) (hf : f ∉ q.owned)
    : Kept d q s (s.itemLock c f) := by
  apply setItem hf
  . rfl
  . intro hlocked
    rw [Shared.Locked, hfree] at hlocked
    simp at hlocked

theorem itemUnlock (hlock : s.Locked c f) (hne : c ≠ d) (hf : f ∉ q.owned)
    : Kept d q s (s.itemUnlock f) := by
  apply setItem hf
  . rfl
  . intro hlocked
    rw [Shared.Locked, hlock, Option.some.injEq] at hlocked
    exact absurd hlocked hne

theorem updateTimestamp {cycle : UInt64} (hf : f ∉ q.owned)
    : Kept d q s (s.updateTimestamp f cycle) := setItem hf rfl fun h => h

theorem addUsecnt {incr : Int} (hf : f ∉ q.owned) : Kept d q s (s.addUsecnt f incr) :=
  setItem hf rfl fun h => h

theorem flowReference (hm : ¬s.Held d m) (hf : f ∉ q.owned) : Kept d q s (s.flowReference m f) := by
  rw [Shared.flowReference]
  split
  . exact refl d q s
  . exact (addUsecnt hf).trans (setMbuf hm) rfl

theorem flowDeReference (hm : ¬s.Held d m) (hf : ∀ f ∈ (s.mbuf m).flow, f ∉ q.owned)
    : Kept d q s (s.flowDeReference m) := by
  rw [Shared.flowDeReference]
  split
  . exact refl d q s
  . next f hflow => exact (addUsecnt (hf f hflow)).trans (setMbuf hm) rfl

theorem flowItemAlloc {mbuf : Mbuf} {cycle : UInt64} (hcons : s.Consistent) (hnew : newf ∈ s.pool)
    : Kept d q s (s.flowItemAlloc newf mbuf cycle) := by
  have hitem (f : Item) (hf : f ∉ s.pool)
      : (s.flowItemAlloc newf mbuf cycle).item f = s.item f := by
    have hne : f ≠ newf := by
      rintro rfl
      exact hf hnew
    simp [Shared.flowItemAlloc, Shared.setItem, hne]
  constructor
  . exact fun _ h => h
  . exact fun _ _ => rfl
  . intro f hlinked hlocked
    refine ⟨hlinked, ?_⟩
    rw [Shared.Locked, hitem f (hcons.pool f hlinked)]
    exact hlocked
  . intro f hf
    rw [hitem f hf]
  . intro f _ hpriv
    have heq := hitem f hpriv.pool
    exact ⟨⟨fun hpool => hpriv.pool hpool.1, hpriv.linked, by rw [heq, hpriv.use_cnt]⟩, heq⟩
  . exact fun _ _ => rfl

theorem hlistDel (hlock : s.lock fb = some c) (hlocked : s.Locked c f) (hne : c ≠ d)
    : Kept d q s (s.hlistDel fb f) where
  lock := fun _ h => h
  hash := by
    intro b hb
    apply Shared.hash_hlistDel_of_ne
    rintro rfl
    rw [hlock, Option.some.injEq] at hb
    exact hne hb
  linked := by
    rintro g ⟨b, hg⟩ hg'
    -- core `c` holds the lock of the item it removes, so `d` does not
    have hgf : g ≠ f := by
      rintro rfl
      rw [Shared.Locked, hlocked, Option.some.injEq] at hg'
      exact hne hg'
    refine ⟨⟨b, ?_⟩, hg'⟩
    by_cases hb : b = fb
    . subst hb
      simpa [List.mem_erase_of_ne hgf] using hg
    . simpa [hb] using hg
  tuple := fun _ _ => rfl
  owned := by
    intro g _ hpriv
    refine ⟨⟨hpriv.pool, ?_, hpriv.use_cnt⟩, rfl⟩
    rintro ⟨b, hb⟩
    apply hpriv.linked
    by_cases heq : b = fb
    . subst heq
      rw [Shared.hash_hlistDel_self] at hb
      exact ⟨b, List.mem_of_mem_erase hb⟩
    . rw [Shared.hash_hlistDel_of_ne heq] at hb
      exact ⟨b, hb⟩
  mbuf := fun _ _ => rfl

end Kept

section Step

theorem Shared.private_of_owned (hat : s.At d q) : ∀ f ∈ q.owned, s.Private f := by
  intro f hf
  cases q with
  | addLockNew m fb newf | addLock m fb newf | addFind m fb newf | addItem m fb newf flow
  | addItemUnlock m fb newf flow | addFree m newf flow =>
    rw [owned, List.mem_singleton] at hf
    rw [hf]
    exact hat.2.1
  | ageNext cur i rest timeout => exact (hat.2.2.owned f hf).1
  | ageTest cur i g rest timeout => exact (hat.2.2.2.owned f hf).1
  | ageUnlockDead cur i g rest timeout =>
    rcases hat with ⟨-, -, hpriv, -, -, htimeout⟩
    rw [owned, List.mem_cons] at hf
    cases hf with
    | inl hf => rwa [hf]
    | inr hf => exact (htimeout.owned f hf).1
  | ageUnlockKeep cur i g rest timeout => exact (hat.2.2.2.2.owned f hf).1
  | ageFree cur i timeout => exact (hat.owned f hf).1
  | _ => simp [owned] at hf

theorem Shared.notMem_owned_of_linked (hat : s.At d q) (hf : s.Linked f) : f ∉ q.owned :=
  fun howned => (s.private_of_owned hat f howned).linked hf

variable [DecidableEq Item] {FLOW_MAX_TIMEOUT : UInt64}

theorem FlowStep.owned (hat : s.At c p) (hstep : FlowStep FLOW_MAX_TIMEOUT c s p s' p')
    : ∀ f ∈ p'.owned, f ∈ p.owned ∨ f ∈ s.pool ∨ s.Linked f := by
  intro f hf
  cases hstep with
  | addAlloc newf cycle hpool =>
    rw [Place.owned, List.mem_singleton] at hf
    rw [hf]
    exact Or.inr (Or.inl hpool)
  | @ageDead _ _ cur i g rest timeout htimeout =>
    rw [Place.owned, List.mem_cons] at hf
    cases hf with
    | inl hf =>
      rw [hf]
      exact Or.inr (Or.inr ⟨i, hat.2.1.mem g (by simp)⟩)
    | inr hf => exact Or.inl hf
  | ageFree => exact Or.inl (List.mem_cons_of_mem _ hf)
  | ageSkipBucket | ageFinish => simp at hf
  | _ => first | exact Or.inl hf | simp [Place.owned] at hf

theorem FlowStep.apart (hp : s.At c p) (hq : s.At d q) (hapart : List.Disjoint p.owned q.owned)
    (hstep : FlowStep FLOW_MAX_TIMEOUT c s p s' p') : List.Disjoint p'.owned q.owned := by
  intro f hf hfq
  have hpriv := s.private_of_owned hq f hfq
  rcases hstep.owned hp f hf with hold | hpool | hlinked
  . exact hapart hold hfq
  . exact hpriv.pool hpool
  . exact hpriv.linked hlinked

theorem FlowStep.kept (hne : c ≠ d) (hcons : s.Consistent) (hp : s.At c p) (hq : s.At d q)
    (hapart : List.Disjoint p.owned q.owned) (hstep : FlowStep FLOW_MAX_TIMEOUT c s p s' p')
    : Kept d q s s' := by
  have hheld {m : MbufId} (hm : s.Held c m) : ¬s.Held d m := by
    intro hm'
    rw [Shared.Held, hm, MbufState.held.injEq] at hm'
    exact hne hm'
  have hlinked {f : Item} (hf : s.Linked f) : f ∉ q.owned := s.notMem_owned_of_linked hq hf
  have howned {f : Item} (hf : f ∈ p.owned) : f ∉ q.owned := fun hfq => hapart hf hfq
  have hfound {fb : Bucket} {mbuf : Mbuf} {flow : Item}
      (hfind : flowFind s.item (s.hash fb) mbuf = some flow) : flow ∉ q.owned :=
    hlinked ⟨fb, (flowFind_eq_some hfind).1⟩
  cases hstep with
  | receive m mbuf hfree => exact .setMbuf (by simp [Shared.Held, hfree])
  | handlePacket m hqueued => exact .setMbuf (by simp [Shared.Held, hqueued])
  | mbufFree m hqueued => exact .setMbuf (by simp [Shared.Held, hqueued])
  | ageTimeout cur => exact .refl d q s
  | lookupLock hfree => exact .tableLock hfree
  | lookupFind cycle hfind => exact .updateTimestamp (hfound hfind)
  | lookupMiss hfind => exact .refl d q s
  | lookupItem hfree => exact .itemLock hfree (hlinked ⟨_, hp.2.2.1⟩)
  | lookupUnlock => exact .tableUnlock hp.2.1 hne
  | missUnlock => exact .tableUnlock hp.2 hne
  | addAlloc newf cycle hpool => exact .flowItemAlloc hcons hpool
  | addAllocFailed => exact .refl d q s
  | addLockNew hfree => exact .itemLock hfree (howned (by simp [Place.owned]))
  | addLock hfree => exact .tableLock hfree
  | addInsert hfind => exact .flowInsert hp.2.2.2.2 hne (howned (by simp [Place.owned]))
  | addFind cycle hfind => exact .updateTimestamp (hfound hfind)
  | addUnlock => exact .tableUnlock hp.2.1 hne
  | addItem hfree => exact .itemLock hfree (hlinked ⟨_, hp.2.2.2.1⟩)
  | addItemUnlock => exact .tableUnlock hp.2.2.1 hne
  | addFree => exact .flowItemFree (howned (by simp [Place.owned]))
  | reference => exact .flowReference (hheld hp.1) (hlinked hp.2.1)
  | unlockItem => exact .itemUnlock hp.2.2 hne (hlinked hp.2.1)
  | deliver => exact .setMbuf (hheld hp)
  | @recycle _ _ m =>
    apply Kept.flowDeReference (hheld hp)
    intro f hflow
    have hpoints : s.PointsTo m f := by
      refine ⟨?_, hflow⟩
      rw [show (s.mbuf m).state = .held c from hp]
      simp
    exact hlinked (hcons.points m f hpoints).1
  | freeSlice => exact .setMbuf (hheld hp.1)
  | ageTrylock hfree => exact .tableLock hfree
  | ageSkipBucket hlocked => exact .refl d q s
  | ageItem hfree => exact .itemLock hfree (hlinked ⟨_, hp.2.1.mem _ (by simp)⟩)
  | ageSkipItem hlocked => exact .refl d q s
  | ageUnlock => exact .tableUnlock hp.1 hne
  | ageDead htimeout => exact .hlistDel hp.1 hp.2.2.1 hne
  | ageKeep htimeout => exact .refl d q s
  | ageUnlockDead => exact .itemUnlock hp.2.2.2.1 hne (howned (by simp [Place.owned]))
  | ageUnlockKeep => exact .itemUnlock hp.2.2.2.1 hne (hlinked ⟨_, hp.2.2.1⟩)
  | ageFree => exact .flowItemFree (howned (by simp [Place.owned]))
  | ageFinish => exact .refl d q s

end Step

end SecFw.Flow
