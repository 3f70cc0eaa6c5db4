import SecFw.Flow.Basic
import SecFw.Interleaving.Basic

/-!
This module contains the program of the cores on the flow table: `FlowHandlePacket`, `mbuf_free` and
`FlowAgeTimeoutCB`. The steps are the lock operations, the searches of a bucket, the calls of the
allocator and the changes of a use count.
-/

namespace SecFw.Flow

open Interleaving

abbrev MEM_POOL_HOST_MBUF_NUM : Nat := 3000

abbrev MbufId : Type := Fin MEM_POOL_HOST_MBUF_NUM

inductive MbufState (Core : Type) where
  | free
  | queued
  | held (c : Core)
  deriving DecidableEq, Repr

structure MbufSlot (Core Item : Type) where
  state : MbufState Core
  mbuf : Mbuf
  flow : Option Item

structure Shared (Core Item : Type) where
  lock : Bucket → Option Core
  hash : Bucket → List Item
  item : Item → flow_item_t Core
  pool : Set Item
  mbuf : MbufId → MbufSlot Core Item

section Operations

variable {Core Item : Type}

namespace Shared

/-- The item is in a bucket. -/
def Linked (s : Shared Core Item) (f : Item) : Prop := ∃ fb, f ∈ s.hash fb

def PointsTo (s : Shared Core Item) (m : MbufId) (f : Item) : Prop :=
  (s.mbuf m).state ≠ .free ∧ (s.mbuf m).flow = some f

def tableLock (s : Shared Core Item) (c : Core) (fb : Bucket) : Shared Core Item :=
  -- `FLOW_TABLE_LOCK` and `FLOW_TABLE_TRYLOCK`, when the lock is free
  { s with lock := Function.update s.lock fb (some c) }

def tableUnlock (s : Shared Core Item) (fb : Bucket) : Shared Core Item :=
  { s with lock := Function.update s.lock fb none }

def setMbuf (s : Shared Core Item) (m : MbufId) (slot : MbufSlot Core Item) : Shared Core Item :=
  { s with mbuf := Function.update s.mbuf m slot }

def setState (s : Shared Core Item) (m : MbufId) (state : MbufState Core) : Shared Core Item :=
  s.setMbuf m { s.mbuf m with state := state }

def flowItemFree (s : Shared Core Item) (f : Item) : Shared Core Item :=
  { s with pool := insert f s.pool }

def flowInsert (s : Shared Core Item) (fb : Bucket) (fi : Item) : Shared Core Item :=
  { s with hash := Function.update s.hash fb (fi :: s.hash fb) }

def setFlow (s : Shared Core Item) (m : MbufId) (flow : Option Item) : Shared Core Item :=
  s.setMbuf m { s.mbuf m with flow := flow }

variable {s : Shared Core Item} {c : Core} {fb b : Bucket} {f g : Item} {m n : MbufId}

@[simp]
theorem lock_tableLock_self : (s.tableLock c fb).lock fb = some c := by simp [tableLock]

@[simp]
theorem lock_tableLock_of_ne (h : b ≠ fb) : (s.tableLock c fb).lock b = s.lock b := by
  simp [tableLock, h]

@[simp]
theorem lock_tableUnlock_self : (s.tableUnlock fb).lock fb = none := by simp [tableUnlock]

@[simp]
theorem lock_tableUnlock_of_ne (h : b ≠ fb) : (s.tableUnlock fb).lock b = s.lock b := by
  simp [tableUnlock, h]

@[simp]
theorem mbuf_setMbuf_self {slot : MbufSlot Core Item} : (s.setMbuf m slot).mbuf m = slot := by
  simp [setMbuf]

@[simp]
theorem mbuf_setMbuf_of_ne {slot : MbufSlot Core Item} (h : n ≠ m)
    : (s.setMbuf m slot).mbuf n = s.mbuf n := by
  simp [setMbuf, h]

@[simp]
theorem hash_flowInsert_self : (s.flowInsert fb f).hash fb = f :: s.hash fb := by simp [flowInsert]

@[simp]
theorem hash_flowInsert_of_ne (h : b ≠ fb) : (s.flowInsert fb f).hash b = s.hash b := by
  simp [flowInsert, h]

theorem linked_flowInsert : (s.flowInsert fb f).Linked g ↔ g = f ∨ s.Linked g := by
  constructor
  . rintro ⟨b, hb⟩
    by_cases heq : b = fb
    . subst heq
      rw [hash_flowInsert_self, List.mem_cons] at hb
      exact hb.imp_right fun hg => ⟨b, hg⟩
    . rw [hash_flowInsert_of_ne heq] at hb
      exact Or.inr ⟨b, hb⟩
  . rintro (rfl | ⟨b, hb⟩)
    . exact ⟨fb, by simp⟩
    . by_cases heq : b = fb
      . subst heq
        exact ⟨b, by simp [hb]⟩
      . exact ⟨b, by simp [heq, hb]⟩

variable [DecidableEq Item]

def setItem (s : Shared Core Item) (f : Item) (item : flow_item_t Core) : Shared Core Item :=
  { s with item := Function.update s.item f item }

def itemLock (s : Shared Core Item) (c : Core) (f : Item) : Shared Core Item :=
  -- `FLOW_ITEM_LOCK` and `FLOW_ITEM_TRYLOCK`, when the lock is free
  s.setItem f { s.item f with item_lock := some c }

def itemUnlock (s : Shared Core Item) (f : Item) : Shared Core Item :=
  s.setItem f { s.item f with item_lock := none }

def updateTimestamp (s : Shared Core Item) (f : Item) (cycle : UInt64) : Shared Core Item :=
  s.setItem f { s.item f with cycle := cycle }

def flowItemAlloc (s : Shared Core Item) (newf : Item) (mbuf : Mbuf) (cycle : UInt64)
    : Shared Core Item :=
  -- `flow_item_alloc` and the initialization of the new item
  { s.setItem newf (newItem mbuf cycle) with pool := s.pool \ {newf} }

def hlistDel (s : Shared Core Item) (fb : Bucket) (f : Item) : Shared Core Item :=
  -- `hlist_del` of an item in a bucket
  { s with hash := Function.update s.hash fb ((s.hash fb).erase f) }

def addUsecnt (s : Shared Core Item) (f : Item) (incr : Int) : Shared Core Item :=
  s.setItem f { s.item f with use_cnt := atomicAdd32 (s.item f).use_cnt incr }

def flowReference (s : Shared Core Item) (m : MbufId) (f : Item) : Shared Core Item :=
  if (s.mbuf m).flow = some f then
    s
  else
    (s.addUsecnt f 1).setFlow m (some f)

def flowDeReference (s : Shared Core Item) (m : MbufId) : Shared Core Item :=
  match (s.mbuf m).flow with
  | none => s
  | some f => (s.addUsecnt f (-1)).setFlow m none

@[simp]
theorem item_setItem_self {item : flow_item_t Core} : (s.setItem f item).item f = item := by
  simp [setItem]

@[simp]
theorem item_setItem_of_ne {item : flow_item_t Core} (h : g ≠ f)
    : (s.setItem f item).item g = s.item g := by
  simp [setItem, h]

@[simp]
theorem hash_hlistDel_self : (s.hlistDel fb f).hash fb = (s.hash fb).erase f := by simp [hlistDel]

@[simp]
theorem hash_hlistDel_of_ne (h : b ≠ fb) : (s.hlistDel fb f).hash b = s.hash b := by
  simp [hlistDel, h]

theorem pool_flowReference : (s.flowReference m f).pool = s.pool := by
  rw [flowReference]
  split <;> rfl

end Shared

end Operations

inductive Place (Item : Type) where
  | idle
  -- `FlowGetFlowFromHash`
  | lookupLock (m : MbufId) (fb : Bucket)
  | lookupFind (m : MbufId) (fb : Bucket)
  | lookupItem (m : MbufId) (fb : Bucket) (flow : Item)
  | lookupUnlock (m : MbufId) (fb : Bucket) (flow : Item)
  | missUnlock (m : MbufId) (fb : Bucket)
  -- `FlowAdd`
  | addAlloc (m : MbufId) (fb : Bucket)
  | addLockNew (m : MbufId) (fb : Bucket) (newf : Item)
  | addLock (m : MbufId) (fb : Bucket) (newf : Item)
  | addFind (m : MbufId) (fb : Bucket) (newf : Item)
  | addUnlock (m : MbufId) (fb : Bucket) (newf : Item)
  | addItem (m : MbufId) (fb : Bucket) (newf flow : Item)
  | addItemUnlock (m : MbufId) (fb : Bucket) (newf flow : Item)
  | addFree (m : MbufId) (newf flow : Item)
  -- `FlowHandlePacket`
  | reference (m : MbufId) (f : Item)
  | unlockItem (m : MbufId) (f : Item)
  | deliver (m : MbufId)
  -- `mbuf_free`
  | recycle (m : MbufId)
  | freeSlice (m : MbufId)
  -- `FlowAgeTimeoutCB`, `rest` are the items of the bucket that the loop has not seen
  | ageTrylock (current_cycle : UInt64) (i : Bucket)
  | ageNext (current_cycle : UInt64) (i : Bucket) (rest timeout : List Item)
  | ageTest (current_cycle : UInt64) (i : Bucket) (f : Item) (rest timeout : List Item)
  | ageUnlockDead (current_cycle : UInt64) (i : Bucket) (f : Item) (rest timeout : List Item)
  | ageUnlockKeep (current_cycle : UInt64) (i : Bucket) (f : Item) (rest timeout : List Item)
  | ageFree (current_cycle : UInt64) (i : Bucket) (timeout : List Item)

def Place.nextBucket (current_cycle : UInt64) (i : Bucket) : Place Item :=
  if h : i.val + 1 < FLOW_BUCKET_NUM then .ageTrylock current_cycle ⟨i.val + 1, h⟩ else .idle

open Place

inductive FlowStep {Core Item : Type} [DecidableEq Item] (FLOW_MAX_TIMEOUT : UInt64)
    : Program Core (Shared Core Item) (Place Item) where
  -- an idle core takes a packet from the hardware, or calls one of the functions
  | receive {c s} (m : MbufId) (mbuf : Mbuf) (hfree : (s.mbuf m).state = .free)
      : FlowStep _ c s idle (s.setMbuf m ⟨.queued, mbuf, none⟩) idle
  | handlePacket {c s} (m : MbufId) (hqueued : (s.mbuf m).state = .queued)
      : FlowStep _ c s idle (s.setState m (.held c))
          (lookupLock m (flowhashfn (s.mbuf m).mbuf.sip (s.mbuf m).mbuf.dip (s.mbuf m).mbuf.sport
            (s.mbuf m).mbuf.dport (s.mbuf m).mbuf.proto))
  | mbufFree {c s} (m : MbufId) (hqueued : (s.mbuf m).state = .queued)
      : FlowStep _ c s idle (s.setState m (.held c)) (recycle m)
  | ageTimeout {c s} (current_cycle : UInt64) : FlowStep _ c s idle s (ageTrylock current_cycle 0)
  -- `FlowGetFlowFromHash`
  | lookupLock {c s m fb} (hfree : s.lock fb = none)
      : FlowStep _ c s (lookupLock m fb) (s.tableLock c fb) (lookupFind m fb)
  | lookupFind {c s m fb flow} (cycle : UInt64)
      (hfind : flowFind s.item (s.hash fb) (s.mbuf m).mbuf = some flow)
      : FlowStep _ c s (lookupFind m fb) (s.updateTimestamp flow cycle) (lookupItem m fb flow)
  | lookupMiss {c s m fb} (hfind : flowFind s.item (s.hash fb) (s.mbuf m).mbuf = none)
      : FlowStep _ c s (lookupFind m fb) s (missUnlock m fb)
  | lookupItem {c s m fb flow} (hfree : (s.item flow).item_lock = none)
      : FlowStep _ c s (lookupItem m fb flow) (s.itemLock c flow) (lookupUnlock m fb flow)
  | lookupUnlock {c s m fb flow}
      : FlowStep _ c s (lookupUnlock m fb flow) (s.tableUnlock fb) (reference m flow)
  | missUnlock {c s m fb} : FlowStep _ c s (missUnlock m fb) (s.tableUnlock fb) (addAlloc m fb)
  -- `FlowAdd`
  | addAlloc {c s m fb} (newf : Item) (cycle : UInt64) (hpool : newf ∈ s.pool)
      : FlowStep _ c s (addAlloc m fb) (s.flowItemAlloc newf (s.mbuf m).mbuf cycle)
          (addLockNew m fb newf)
  | addAllocFailed {c s m fb} : FlowStep _ c s (addAlloc m fb) s (recycle m)
  | addLockNew {c s m fb newf} (hfree : (s.item newf).item_lock = none)
      : FlowStep _ c s (addLockNew m fb newf) (s.itemLock c newf) (addLock m fb newf)
  | addLock {c s m fb newf} (hfree : s.lock fb = none)
      : FlowStep _ c s (addLock m fb newf) (s.tableLock c fb) (addFind m fb newf)
  | addInsert {c s m fb newf} (hfind : flowFind s.item (s.hash fb) (s.mbuf m).mbuf = none)
      : FlowStep _ c s (addFind m fb newf) (s.flowInsert fb newf) (addUnlock m fb newf)
  | addFind {c s m fb newf flow} (cycle : UInt64)
      (hfind : flowFind s.item (s.hash fb) (s.mbuf m).mbuf = some flow)
      : FlowStep _ c s (addFind m fb newf) (s.updateTimestamp flow cycle) (addItem m fb newf flow)
  | addUnlock {c s m fb newf}
      : FlowStep _ c s (addUnlock m fb newf) (s.tableUnlock fb) (reference m newf)
  | addItem {c s m fb newf flow} (hfree : (s.item flow).item_lock = none)
      : FlowStep _ c s (addItem m fb newf flow) (s.itemLock c flow) (addItemUnlock m fb newf flow)
  | addItemUnlock {c s m fb newf flow}
      : FlowStep _ c s (addItemUnlock m fb newf flow) (s.tableUnlock fb) (addFree m newf flow)
  | addFree {c s m newf flow}
      : FlowStep _ c s (addFree m newf flow) (s.flowItemFree newf) (reference m flow)
  -- `FlowHandlePacket`
  | reference {c s m f}
      : FlowStep _ c s (reference m f) (s.flowReference m f) (unlockItem m f)
  | unlockItem {c s m f} : FlowStep _ c s (unlockItem m f) (s.itemUnlock f) (deliver m)
  | deliver {c s m} : FlowStep _ c s (deliver m) (s.setState m .queued) idle
  -- `mbuf_free`
  | recycle {c s m} : FlowStep _ c s (recycle m) (s.flowDeReference m) (freeSlice m)
  | freeSlice {c s m} : FlowStep _ c s (freeSlice m) (s.setState m .free) idle
  -- `FlowAgeTimeoutCB`
  | ageTrylock {c s cur i} (hfree : s.lock i = none)
      : FlowStep _ c s (ageTrylock cur i) (s.tableLock c i) (ageNext cur i (s.hash i) [])
  | ageSkipBucket {c s cur i} (hlocked : s.lock i ≠ none)
      : FlowStep _ c s (ageTrylock cur i) s (nextBucket cur i)
  | ageItem {c s cur i f rest timeout} (hfree : (s.item f).item_lock = none)
      : FlowStep _ c s (ageNext cur i (f :: rest) timeout) (s.itemLock c f)
          (ageTest cur i f rest timeout)
  | ageSkipItem {c s cur i f rest timeout} (hlocked : (s.item f).item_lock ≠ none)
      : FlowStep _ c s (ageNext cur i (f :: rest) timeout) s (ageNext cur i rest timeout)
  | ageUnlock {c s cur i timeout}
      : FlowStep _ c s (ageNext cur i [] timeout) (s.tableUnlock i) (ageFree cur i timeout)
  | ageDead {c s cur i f rest timeout} (htimeout : flowTimeOut FLOW_MAX_TIMEOUT (s.item f) cur = true)
      : FlowStep _ c s (ageTest cur i f rest timeout) (s.hlistDel i f)
          (ageUnlockDead cur i f rest timeout)
  | ageKeep {c s cur i f rest timeout}
      (htimeout : flowTimeOut FLOW_MAX_TIMEOUT (s.item f) cur = false)
      : FlowStep _ c s (ageTest cur i f rest timeout) s (ageUnlockKeep cur i f rest timeout)
  | ageUnlockDead {c s cur i f rest timeout}
      : FlowStep _ c s (ageUnlockDead cur i f rest timeout) (s.itemUnlock f)
          (ageNext cur i rest (f :: timeout))
  | ageUnlockKeep {c s cur i f rest timeout}
      : FlowStep _ c s (ageUnlockKeep cur i f rest timeout) (s.itemUnlock f)
          (ageNext cur i rest timeout)
  | ageFree {c s cur i tf timeout}
      : FlowStep _ c s (ageFree cur i (tf :: timeout)) (s.flowItemFree tf) (ageFree cur i timeout)
  | ageFinish {c s cur i} : FlowStep _ c s (ageFree cur i []) s (nextBucket cur i)

/-- At the start all items and mbufs are in their pools, and no core is in one of the functions. -/
structure Initial {Core Item : Type} (s : Config Core (Shared Core Item) (Place Item)) : Prop where
  lock : ∀ fb, s.mem.lock fb = none
  hash : ∀ fb, s.mem.hash fb = []
  pool : ∀ f, f ∈ s.mem.pool
  mbuf : ∀ m, (s.mem.mbuf m).state = .free
  pc : ∀ c, s.pc c = idle

end SecFw.Flow
