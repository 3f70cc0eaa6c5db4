import SecFw.Flow.Interference

/-!
This module contains the proof that every step keeps the table, the pools and the use counts
consistent.
-/

namespace SecFw.Flow

open Place

variable {Core Item : Type} {s s' : Shared Core Item} {c : Core} {p p' : Place Item} {m : MbufId}
  {fb : Bucket} {f newf : Item}

namespace Shared

theorem Consistent.eq_of_mem_hash (h : s.Consistent) {b : Bucket} (hf : f ∈ s.hash fb)
    (hb : f ∈ s.hash b) : b = fb := by
  rw [← h.bucket fb f hf, h.bucket b f hb]

theorem Consistent.congr (h : s.Consistent) (hhash : s'.hash = s.hash)
    (hpool : ∀ f, s.Linked f → f ∉ s'.pool)
    (hitem : ∀ f, s.Linked f →
      (s'.item f).tuple = (s.item f).tuple ∧ (s'.item f).use_cnt = (s.item f).use_cnt)
    (hpoints : ∀ m f, s'.PointsTo m f ↔ s.PointsTo m f)
    (hmbuf : ∀ m f, s.PointsTo m f → (s'.mbuf m).mbuf = (s.mbuf m).mbuf) : s'.Consistent := by
  have hlinked (f : Item) : s'.Linked f ↔ s.Linked f := by rw [Linked, Linked, hhash]
  constructor
  . intro fb
    rw [hhash]
    exact h.nodup fb
  . intro fb f hf
    rw [hhash] at hf
    rw [(hitem f ⟨fb, hf⟩).1, h.bucket fb f hf]
  . intro f g hf hg heq
    rw [hlinked] at hf hg
    rw [(hitem f hf).1, (hitem g hg).1] at heq
    exact h.unique f g hf hg heq
  . intro f hf
    exact hpool f ((hlinked f).mp hf)
  . intro f hf
    rw [hlinked] at hf
    rw [(hitem f hf).2, h.use_cnt f hf]
    simp only [refs, hpoints]
  . intro m f hpt
    rw [hpoints] at hpt
    rcases h.points m f hpt with ⟨hf, hmatch⟩
    refine ⟨(hlinked f).mpr hf, ?_⟩
    rw [Matches, flowMatch_iff] at hmatch ⊢
    rw [hmbuf m f hpt, (hitem f hf).1, hmatch]

theorem Consistent.tableLock (h : s.Consistent) : (s.tableLock c fb).Consistent :=
  h.congr rfl h.pool (fun _ _ => ⟨rfl, rfl⟩) (fun _ _ => Iff.rfl) fun _ _ _ => rfl

theorem Consistent.tableUnlock (h : s.Consistent) : (s.tableUnlock fb).Consistent :=
  h.congr rfl h.pool (fun _ _ => ⟨rfl, rfl⟩) (fun _ _ => Iff.rfl) fun _ _ _ => rfl

theorem Consistent.setMbuf (h : s.Consistent) {slot : MbufSlot Core Item}
    (hold : ∀ f, ¬s.PointsTo m f) (hnew : slot.state = .free ∨ slot.flow = none)
    : (s.setMbuf m slot).Consistent := by
  refine h.congr rfl h.pool (fun _ _ => ⟨rfl, rfl⟩) ?_ ?_
  . intro n f
    by_cases hn : n = m
    . subst hn
      rw [iff_false_right (hold f), PointsTo, mbuf_setMbuf_self]
      rintro ⟨hstate, hflow⟩
      cases hnew with
      | inl hfree => exact hstate hfree
      | inr hnone => simp [hnone] at hflow
    . rw [PointsTo, mbuf_setMbuf_of_ne hn, PointsTo]
  . intro n f hpt
    rw [mbuf_setMbuf_of_ne]
    rintro rfl
    exact hold f hpt

theorem Consistent.setState (h : s.Consistent) {state : MbufState Core}
    (hold : (s.mbuf m).state ≠ .free) (hnew : state ≠ .free) : (s.setState m state).Consistent := by
  refine h.congr rfl h.pool (fun _ _ => ⟨rfl, rfl⟩) ?_ ?_
  . intro n f
    by_cases hn : n = m
    . subst hn
      simp [PointsTo, Shared.setState, hold, hnew]
    . simp [PointsTo, Shared.setState, hn]
  . intro n f _
    by_cases hn : n = m
    . subst hn
      simp [Shared.setState]
    . simp [Shared.setState, hn]

theorem Consistent.flowItemFree (h : s.Consistent) (hf : ¬s.Linked f)
    : (s.flowItemFree f).Consistent := by
  refine h.congr rfl ?_ (fun _ _ => ⟨rfl, rfl⟩) (fun _ _ => Iff.rfl) fun _ _ _ => rfl
  rintro g hg (rfl | hpool)
  . exact hf hg
  . exact h.pool g hg hpool

theorem Packet.bucket_of_matches (hpacket : s.Packet c m fb) (hmatch : s.Matches m f)
    : (s.item f).tuple.bucket = fb := by
  rw [Tuple.bucket_eq_of_connection_eq (flowMatch_iff.mp hmatch), hpacket.bucket]

theorem Consistent.connection_ne (h : s.Consistent) (hpacket : s.Packet c m fb)
    (hmatch : s.Matches m newf) (hfind : flowFind s.item (s.hash fb) (s.mbuf m).mbuf = none)
    (hf : s.Linked f) : (s.item f).tuple.connection ≠ (s.item newf).tuple.connection := by
  rcases hf with ⟨b, hf⟩
  intro heq
  have hb : b = fb := by
    rw [← h.bucket b f hf, Tuple.bucket_eq_of_connection_eq heq, hpacket.bucket_of_matches hmatch]
  subst hb
  exact flowFind_eq_none hfind f hf (flowMatch_iff.mpr (heq.trans (flowMatch_iff.mp hmatch)))

theorem Consistent.flowInsert (h : s.Consistent) (hpacket : s.Packet c m fb)
    (hpriv : s.Private newf) (hmatch : s.Matches m newf)
    (hfind : flowFind s.item (s.hash fb) (s.mbuf m).mbuf = none)
    : (s.flowInsert fb newf).Consistent := by
  have hbucket : (s.item newf).tuple.bucket = fb := hpacket.bucket_of_matches hmatch
  have habsent (f : Item) (hf : s.Linked f)
      : (s.item f).tuple.connection ≠ (s.item newf).tuple.connection :=
    h.connection_ne hpacket hmatch hfind hf
  constructor
  . intro b
    by_cases heq : b = fb
    . subst heq
      rw [hash_flowInsert_self, List.nodup_cons]
      exact ⟨fun hf => hpriv.linked ⟨b, hf⟩, h.nodup b⟩
    . rw [hash_flowInsert_of_ne heq]
      exact h.nodup b
  . intro b f hf
    by_cases heq : b = fb
    . subst heq
      rw [hash_flowInsert_self, List.mem_cons] at hf
      cases hf with
      | inl hf =>
        rw [hf]
        exact hbucket
      | inr hf => exact h.bucket b f hf
    . rw [hash_flowInsert_of_ne heq] at hf
      exact h.bucket b f hf
  . intro f g hf hg heq
    rw [linked_flowInsert] at hf hg
    rcases hf with rfl | hf
    . rcases hg with rfl | hg
      . rfl
      . exact absurd heq.symm (habsent g hg)
    . rcases hg with rfl | hg
      . exact absurd heq (habsent f hf)
      . exact h.unique f g hf hg heq
  . intro f hf
    rw [linked_flowInsert] at hf
    cases hf with
    | inl hf =>
      rw [hf]
      exact hpriv.pool
    | inr hf => exact h.pool f hf
  . intro f hf
    rw [linked_flowInsert] at hf
    cases hf with
    | inl hf =>
      subst hf
      have hnone : { m | s.PointsTo m f } = ∅ := by
        rw [Set.eq_empty_iff_forall_notMem]
        intro n hn
        exact hpriv.linked (h.points n f hn).1
      have hzero : (s.flowInsert fb f).refs f = 0 := (congrArg Set.ncard hnone).trans (Set.ncard_empty _)
      rw [hzero]
      exact hpriv.use_cnt
    | inr hf => exact h.use_cnt f hf
  . intro n f hn
    rcases h.points n f hn with ⟨hf, hm⟩
    exact ⟨linked_flowInsert.mpr (Or.inr hf), hm⟩

theorem refs_congr (hpoints : ∀ n, s'.PointsTo n f ↔ s.PointsTo n f) : s'.refs f = s.refs f := by
  simp only [refs, hpoints]

theorem refs_le (s : Shared Core Item) (f : Item) : s.refs f ≤ MEM_POOL_HOST_MBUF_NUM := by
  have hle := Set.ncard_le_ncard (Set.subset_univ { m | s.PointsTo m f })
  rwa [Set.ncard_univ, Nat.card_fin] at hle

theorem atomicAdd32_refs (s : Shared Core Item) (f : Item)
    : atomicAdd32 (s.refs f) 1 = s.refs f + 1 ∧ atomicAdd32 (s.refs f) (-1) = s.refs f - 1 := by
  have hle := s.refs_le f
  simp only [MEM_POOL_HOST_MBUF_NUM] at hle
  exact ⟨atomicAdd32_of_bounds (by omega) (by omega), atomicAdd32_of_bounds (by omega) (by omega)⟩

variable [DecidableEq Item]

theorem Consistent.setItem (h : s.Consistent) {item : flow_item_t Core}
    (htuple : item.tuple = (s.item f).tuple) (huse : item.use_cnt = (s.item f).use_cnt)
    : (s.setItem f item).Consistent := by
  refine h.congr rfl h.pool ?_ (fun _ _ => Iff.rfl) fun _ _ _ => rfl
  intro g _
  by_cases hg : g = f
  . subst hg
    simpa using ⟨htuple, huse⟩
  . simp [hg]

theorem Consistent.flowItemAlloc (h : s.Consistent) {mbuf : Mbuf} {cycle : UInt64}
    (hnew : newf ∈ s.pool) : (s.flowItemAlloc newf mbuf cycle).Consistent := by
  refine h.congr rfl ?_ ?_ (fun _ _ => Iff.rfl) fun _ _ _ => rfl
  . intro f hf hpool
    exact h.pool f hf hpool.1
  . intro f hf
    have hne : f ≠ newf := by
      rintro rfl
      exact h.pool f hf hnew
    simp [Shared.flowItemAlloc, Shared.setItem, hne]

theorem Consistent.linked_hlistDel (h : s.Consistent) (hf : f ∈ s.hash fb) (g : Item)
    : (s.hlistDel fb f).Linked g ↔ g ≠ f ∧ s.Linked g := by
  constructor
  . rintro ⟨b, hb⟩
    by_cases heq : b = fb
    . subst heq
      rw [hash_hlistDel_self, (h.nodup b).mem_erase_iff] at hb
      exact ⟨hb.1, b, hb.2⟩
    . rw [hash_hlistDel_of_ne heq] at hb
      refine ⟨?_, b, hb⟩
      rintro rfl
      exact heq (h.eq_of_mem_hash hf hb)
  . rintro ⟨hne, b, hb⟩
    by_cases heq : b = fb
    . subst heq
      exact ⟨b, by simp [List.mem_erase_of_ne hne, hb]⟩
    . exact ⟨b, by simp [heq, hb]⟩

theorem Consistent.hlistDel (h : s.Consistent) (hf : f ∈ s.hash fb) (huse : (s.item f).use_cnt ≤ 0)
    : (s.hlistDel fb f).Consistent ∧ (s.hlistDel fb f).Private f := by
  have hlinked := h.linked_hlistDel hf
  have hrefs : s.refs f = 0 := by
    have := h.use_cnt f ⟨fb, hf⟩
    omega
  have hnone (n : MbufId) : ¬s.PointsTo n f := by
    intro hn
    rw [refs, Set.ncard_eq_zero] at hrefs
    exact Set.eq_empty_iff_forall_notMem.mp hrefs n hn
  refine ⟨⟨?_, ?_, ?_, ?_, ?_, ?_⟩, ?_, ?_, ?_⟩
  . intro b
    by_cases heq : b = fb
    . subst heq
      rw [hash_hlistDel_self]
      exact (h.nodup b).erase f
    . rw [hash_hlistDel_of_ne heq]
      exact h.nodup b
  . intro b g hg
    by_cases heq : b = fb
    . subst heq
      rw [hash_hlistDel_self] at hg
      exact h.bucket b g (List.mem_of_mem_erase hg)
    . rw [hash_hlistDel_of_ne heq] at hg
      exact h.bucket b g hg
  . intro g g' hg hg' heq
    rw [hlinked] at hg hg'
    exact h.unique g g' hg.2 hg'.2 heq
  . intro g hg
    rw [hlinked] at hg
    exact h.pool g hg.2
  . intro g hg
    rw [hlinked] at hg
    exact h.use_cnt g hg.2
  . intro n g hn
    rcases h.points n g hn with ⟨hg, hmatch⟩
    refine ⟨(hlinked g).mpr ⟨?_, hg⟩, hmatch⟩
    rintro rfl
    exact hnone n hn
  . exact h.notMem_pool hf
  . rw [hlinked]
    simp
  . rw [← Int.natCast_zero, ← hrefs]
    exact h.use_cnt f ⟨fb, hf⟩

theorem Consistent.setFlow (h : s.Consistent) {incr : Int} {flow : Option Item}
    (hs' : s' = (s.addUsecnt f incr).setFlow m flow)
    (hflow : ∀ g ∈ flow, s.Linked g ∧ s.Matches m g) (huse : (s'.item f).use_cnt = s'.refs f)
    (hrefs : ∀ g, g ≠ f → s'.refs g = s.refs g) : s'.Consistent := by
  have hhash : s'.hash = s.hash := by rw [hs']; rfl
  have hpool : s'.pool = s.pool := by rw [hs']; rfl
  have hlinked (g : Item) : s'.Linked g ↔ s.Linked g := by rw [Linked, Linked, hhash]
  have hitem (g : Item) (hg : g ≠ f) : s'.item g = s.item g := by
    simp [hs', Shared.addUsecnt, Shared.setFlow, Shared.setMbuf, hg]
  have htuple (g : Item) : (s'.item g).tuple = (s.item g).tuple := by
    by_cases hg : g = f
    . subst hg
      simp [hs', Shared.addUsecnt, Shared.setFlow, Shared.setMbuf, flow_item_t.tuple]
    . rw [hitem g hg]
  have hmatch (n : MbufId) (g : Item) (hm : s.Matches n g) : s'.Matches n g := by
    have hmbuf : (s'.mbuf n).mbuf = (s.mbuf n).mbuf := by
      by_cases heq : n = m
      . subst heq
        simp [hs', Shared.setFlow, Shared.addUsecnt, Shared.setItem]
      . simp [hs', heq, Shared.setFlow, Shared.addUsecnt, Shared.setItem]
    rw [Matches, flowMatch_iff] at hm ⊢
    rw [htuple, hmbuf, hm]
  constructor
  . rw [hhash]
    exact h.nodup
  . intro b g hg
    rw [hhash] at hg
    rw [htuple]
    exact h.bucket b g hg
  . intro g g' hg hg' heq
    rw [htuple, htuple] at heq
    exact h.unique g g' ((hlinked g).mp hg) ((hlinked g').mp hg') heq
  . intro g hg
    rw [hpool]
    exact h.pool g ((hlinked g).mp hg)
  . intro g hg
    by_cases heq : g = f
    . rw [heq]
      exact huse
    . rw [hitem g heq, hrefs g heq]
      exact h.use_cnt g ((hlinked g).mp hg)
  . intro n g hn
    rw [hlinked]
    by_cases heq : n = m
    . subst heq
      rw [hs', Shared.setFlow, PointsTo, mbuf_setMbuf_self] at hn
      rcases hflow g hn.2 with ⟨hg, hm⟩
      exact ⟨hg, hmatch n g hm⟩
    . rw [hs', Shared.setFlow, PointsTo, mbuf_setMbuf_of_ne heq] at hn
      rcases h.points n g hn with ⟨hg, hm⟩
      exact ⟨hg, hmatch n g hm⟩

theorem pointsTo_setFlow {incr : Int} {flow : Option Item} (n : MbufId) (g : Item)
    : ((s.addUsecnt f incr).setFlow m flow).PointsTo n g
        ↔ if n = m then (s.mbuf m).state ≠ .free ∧ flow = some g else s.PointsTo n g := by
  by_cases hn : n = m
  . subst hn
    simp [Shared.setFlow, Shared.addUsecnt, Shared.setItem, PointsTo]
  . simp [Shared.setFlow, Shared.addUsecnt, Shared.setItem, PointsTo, hn]

theorem Consistent.flowReference (h : s.Consistent) (hheld : s.Held c m) (hf : s.Linked f)
    (hmatch : s.Matches m f) : (s.flowReference m f).Consistent := by
  have hstate : (s.mbuf m).state ≠ .free := by
    rw [hheld]
    simp
  -- an mbuf that points to an item already points to this one, there is only one that matches
  have hother (g : Item) (hg : s.PointsTo m g) : g = f := by
    rcases h.points m g hg with ⟨hlinked, hm⟩
    exact h.unique g f hlinked hf ((flowMatch_iff.mp hm).trans (flowMatch_iff.mp hmatch).symm)
  rw [Shared.flowReference]
  split
  . exact h
  . next hflow =>
    have hnone (g : Item) : ¬s.PointsTo m g := by
      intro hg
      have := hg.2
      rw [hother g hg] at this
      exact hflow this
    have hrefs : ((s.addUsecnt f 1).setFlow m (some f)).refs f = s.refs f + 1 := by
      have hset : { n | ((s.addUsecnt f 1).setFlow m (some f)).PointsTo n f }
          = insert m { n | s.PointsTo n f } := by
        ext n
        simp only [Set.mem_ofPred_eq, pointsTo_setFlow, Set.mem_insert_iff]
        split
        . next hn => simp [hn, hstate]
        . next hn => simp [hn]
      have hnew : m ∉ { n | s.PointsTo n f } := hnone f
      rw [refs, hset, Set.ncard_insert_of_notMem hnew, refs]
    refine h.setFlow rfl ?_ ?_ ?_
    . intro g hg
      rw [Option.mem_def, Option.some.injEq] at hg
      rw [← hg]
      exact ⟨hf, hmatch⟩
    . rw [hrefs, Nat.cast_add, Nat.cast_one, ← (s.atomicAdd32_refs f).1, ← h.use_cnt f hf]
      simp [Shared.setFlow, Shared.addUsecnt, Shared.setMbuf]
    . intro g hg
      apply refs_congr
      intro n
      rw [pointsTo_setFlow]
      split
      . next hn =>
        rw [hn, iff_false_right (hnone g), Option.some.injEq]
        rintro ⟨-, heq⟩
        exact hg heq.symm
      . rfl

theorem Consistent.flowDeReference (h : s.Consistent) (hheld : s.Held c m)
    : (s.flowDeReference m).Consistent := by
  have hstate : (s.mbuf m).state ≠ .free := by
    rw [hheld]
    simp
  rw [Shared.flowDeReference]
  split
  . exact h
  . next f hflow =>
    have hpoints : s.PointsTo m f := ⟨hstate, hflow⟩
    have hf : s.Linked f := (h.points m f hpoints).1
    have hrefs : ((s.addUsecnt f (-1)).setFlow m none).refs f + 1 = s.refs f := by
      have hset : { n | ((s.addUsecnt f (-1)).setFlow m none).PointsTo n f }
          = { n | s.PointsTo n f } \ {m} := by
        ext n
        simp only [Set.mem_ofPred_eq, pointsTo_setFlow, Set.mem_sdiff, Set.mem_singleton_iff]
        split
        . next hn => simp [hn]
        . next hn => simp [hn]
      have hmem : m ∈ { n | s.PointsTo n f } := hpoints
      rw [refs, hset, Set.ncard_sdiff_singleton_add_one hmem, refs]
    refine h.setFlow rfl (by simp) ?_ ?_
    . have hcast : (((s.addUsecnt f (-1)).setFlow m none).refs f : Int) = s.refs f - 1 := by
        omega
      rw [hcast, ← (s.atomicAdd32_refs f).2, ← h.use_cnt f hf]
      simp [Shared.setFlow, Shared.addUsecnt, Shared.setMbuf]
    . intro g hg
      apply refs_congr
      intro n
      rw [pointsTo_setFlow]
      split
      . next hn =>
        rw [hn]
        simp [PointsTo, hflow, Ne.symm hg]
      . rfl

end Shared

variable [DecidableEq Item] {FLOW_MAX_TIMEOUT : UInt64}

theorem FlowStep.consistent (hcons : s.Consistent) (hat : s.At c p)
    (hstep : FlowStep FLOW_MAX_TIMEOUT c s p s' p') : s'.Consistent := by
  have hused {m : MbufId} (hm : s.Held c m) : (s.mbuf m).state ≠ .free := by
    rw [hm]
    simp
  cases hstep with
  | receive m mbuf hfree =>
    apply hcons.setMbuf
    . exact fun f hpoints => hpoints.1 hfree
    . exact Or.inr rfl
  | handlePacket m hqueued => exact hcons.setState (by simp [hqueued]) (by simp)
  | mbufFree m hqueued => exact hcons.setState (by simp [hqueued]) (by simp)
  | ageTimeout cur => exact hcons
  | lookupLock hfree => exact hcons.tableLock
  | lookupFind cycle hfind => exact hcons.setItem rfl rfl
  | lookupMiss hfind => exact hcons
  | lookupItem hfree => exact hcons.setItem rfl rfl
  | lookupUnlock => exact hcons.tableUnlock
  | missUnlock => exact hcons.tableUnlock
  | addAlloc newf cycle hpool => exact hcons.flowItemAlloc hpool
  | addAllocFailed => exact hcons
  | addLockNew hfree => exact hcons.setItem rfl rfl
  | addLock hfree => exact hcons.tableLock
  | addInsert hfind => exact hcons.flowInsert hat.1 hat.2.1 hat.2.2.1 hfind
  | addFind cycle hfind => exact hcons.setItem rfl rfl
  | addUnlock => exact hcons.tableUnlock
  | addItem hfree => exact hcons.setItem rfl rfl
  | addItemUnlock => exact hcons.tableUnlock
  | addFree => exact hcons.flowItemFree hat.2.1.linked
  | reference => exact hcons.flowReference hat.1 hat.2.1 hat.2.2.1
  | unlockItem => exact hcons.setItem rfl rfl
  | deliver => exact hcons.setState (hused hat) (by simp)
  | recycle => exact hcons.flowDeReference hat
  | freeSlice =>
    apply hcons.setMbuf
    . intro f hpoints
      have hflow := hpoints.2
      rw [hat.2] at hflow
      simp at hflow
    . exact Or.inl rfl
  | ageTrylock hfree => exact hcons.tableLock
  | ageSkipBucket hlocked => exact hcons
  | ageItem hfree => exact hcons.setItem rfl rfl
  | ageSkipItem hlocked => exact hcons
  | ageUnlock => exact hcons.tableUnlock
  | ageDead htimeout =>
    exact (hcons.hlistDel (hat.2.1.mem _ (by simp)) (use_cnt_of_flowTimeOut htimeout)).1
  | ageKeep htimeout => exact hcons
  | ageUnlockDead => exact hcons.setItem rfl rfl
  | ageUnlockKeep => exact hcons.setItem rfl rfl
  | @ageFree _ _ cur i tf timeout => exact hcons.flowItemFree (hat.owned tf (by simp)).1.linked
  | ageFinish => exact hcons

end SecFw.Flow
