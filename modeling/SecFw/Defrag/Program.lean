import SecFw.Decode.FragTable
import SecFw.Interleaving.Basic

/-!
This module contains the program of the cores on the table of control blocks: `Defrag` with
`Frag_defrag_begin`, and `Frag_defrag_timeout`. The steps are the lock operations, the search of a
bucket, the calls of the allocators, the accesses to a time stamp and the destruction of a packet.
-/

namespace SecFw.Defrag

open Interleaving Decode HashChains

inductive FcbState (Core : Type) where
  | free
  | linked (fb : FragBucket)
  | owned (c : Core)

structure FcbSlot (Core Packet : Type) where
  state : FcbState Core
  freed : Nat
  lock : Option Core
  fcb : fcb_t (FragQueue Packet)

inductive PacketState (Core Item : Type) where
  | new
  | held (c : Core)
  | queued (f : Item)
  | destroyed

structure PacketSlot (Core Item : Type) where
  state : PacketState Core Item
  enqueues : Nat
  destroys : Nat
  mbuf : Mbuf

structure Shared (Core Item Packet : Type) where
  clock : UInt64
  lock : FragBucket → Option Core
  hash : FragBucket → List Item
  slot : Item → FcbSlot Core Packet
  packet : Packet → PacketSlot Core Item

structure FcbPtr (Item : Type) where
  fcb : Item
  freed : Nat

section Operations

variable {Core Item Packet : Type}

namespace Shared

variable (s : Shared Core Item Packet)

def mbuf (m : Packet) : Mbuf := (s.packet m).mbuf

def fragments (f : Item) : List Packet := (s.slot f).fcb.queue.fragments

def ptr (f : Item) : FcbPtr Item := ⟨f, (s.slot f).freed⟩

def fragFind (fb : FragBucket) (mb : Mbuf) : Option Item :=
  (s.hash fb).find? fun f => ip4FragMatch (s.slot f).fcb mb

def tableLock (c : Core) (fb : FragBucket) : Shared Core Item Packet :=
  -- `FCB_TABLE_LOCK` and `FCB_TABLE_TRYLOCK`, when the lock is free
  { s with lock := Function.update s.lock fb (some c) }

def tableUnlock (fb : FragBucket) : Shared Core Item Packet :=
  { s with lock := Function.update s.lock fb none }

section Packets

variable [DecidableEq Packet]

def setPacket (m : Packet) (packet : PacketSlot Core Item) : Shared Core Item Packet :=
  { s with packet := Function.update s.packet m packet }

def setMbuf (m : Packet) (mbuf : Mbuf) : Shared Core Item Packet :=
  s.setPacket m { s.packet m with mbuf := mbuf }

def receive (c : Core) (m : Packet) (mb : Mbuf) : Shared Core Item Packet :=
  -- `Defrag` is called with a fragment
  s.setPacket m { s.packet m with state := .held c, mbuf := mb }

def enqueue (m : Packet) (f : Item) : Shared Core Item Packet :=
  s.setPacket m
    { s.packet m with state := .queued f, enqueues := (s.packet m).enqueues + 1 }

def packetDestroyAll (m : Packet) : Shared Core Item Packet :=
  s.setPacket m
    { s.packet m with state := .destroyed, destroys := (s.packet m).destroys + 1 }

variable {s} {m n : Packet}

@[simp]
theorem packet_setPacket_self {packet : PacketSlot Core Item}
    : (s.setPacket m packet).packet m = packet := by
  simp [setPacket]

@[simp]
theorem packet_setPacket_of_ne {packet : PacketSlot Core Item} (h : n ≠ m)
    : (s.setPacket m packet).packet n = s.packet n := by
  simp [setPacket, h]

end Packets

variable [DecidableEq Item]

def setSlot (f : Item) (slot : FcbSlot Core Packet) : Shared Core Item Packet :=
  { s with slot := Function.update s.slot f slot }

def setFcb (f : Item) (fcb : fcb_t (FragQueue Packet)) : Shared Core Item Packet :=
  s.setSlot f { s.slot f with fcb := fcb }

def fcbCreate (c : Core) (f : Item) (mb : Mbuf) : Shared Core Item Packet :=
  s.setSlot f
    { s.slot f with state := .owned c, lock := none, fcb := newFcb FragQueue.empty mb 0 }

def updateTimestamp (f : Item) (cycle : UInt64) : Shared Core Item Packet :=
  s.setFcb f { (s.slot f).fcb with cycle := cycle }

def setQueue (f : Item) (queue : FragQueue Packet) : Shared Core Item Packet :=
  s.setFcb f { (s.slot f).fcb with queue := queue }

def clearFragments (f : Item) : Shared Core Item Packet :=
  s.setQueue f { (s.slot f).fcb.queue with fragments := [] }

def fcbInsert (fb : FragBucket) (f : Item) : Shared Core Item Packet :=
  { s.setSlot f { s.slot f with state := .linked fb } with
    hash := Function.update s.hash fb (f :: s.hash fb) }

def hlistDel (c : Core) (fb : FragBucket) (f : Item) : Shared Core Item Packet :=
  -- `hlist_del` of a control block in a bucket
  { s.setSlot f { s.slot f with state := .owned c } with
    hash := Function.update s.hash fb ((s.hash fb).erase f) }

def fcbLock (c : Core) (f : Item) : Shared Core Item Packet :=
  -- when the lock is free
  s.setSlot f { s.slot f with lock := some c }

def fcbUnlock (f : Item) : Shared Core Item Packet := s.setSlot f { s.slot f with lock := none }

def fcbFree (f : Item) : Shared Core Item Packet :=
  s.setSlot f { s.slot f with state := .free, freed := (s.slot f).freed + 1 }

variable {s} {f g : Item}

@[simp]
theorem slot_setSlot_self {slot : FcbSlot Core Packet} : (s.setSlot f slot).slot f = slot := by
  simp [setSlot]

@[simp]
theorem slot_setSlot_of_ne {slot : FcbSlot Core Packet} (h : g ≠ f)
    : (s.setSlot f slot).slot g = s.slot g := by
  simp [setSlot, h]

@[simp]
theorem state_setFcb {fcb : fcb_t (FragQueue Packet)}
    : ((s.setFcb f fcb).slot g).state = (s.slot g).state := by
  by_cases hg : g = f
  . subst hg
    simp [setFcb]
  . simp [setFcb, hg]

@[simp]
theorem lock_setFcb {fcb : fcb_t (FragQueue Packet)}
    : ((s.setFcb f fcb).slot g).lock = (s.slot g).lock := by
  by_cases hg : g = f
  . subst hg
    simp [setFcb]
  . simp [setFcb, hg]

end Shared

end Operations

inductive Place (Item Packet : Type) where
  | idle
  -- `Defrag`
  | tableLock (m : Packet) (fb : FragBucket)
  | find (m : Packet) (fb : FragBucket)
  | foundTouch (m : Packet) (fb : FragBucket) (ptr : FcbPtr Item)
  | foundStore (m : Packet) (fb : FragBucket) (ptr : FcbPtr Item) (cycle : UInt64)
  | create (m : Packet) (fb : FragBucket)
  | newTouch (m : Packet) (fb : FragBucket) (ptr : FcbPtr Item)
  | newStore (m : Packet) (fb : FragBucket) (ptr : FcbPtr Item) (cycle : UInt64)
  | insert (m : Packet) (fb : FragBucket) (ptr : FcbPtr Item)
  | tableUnlock (m : Packet) (fb : FragBucket) (ptr : FcbPtr Item)
  | missUnlock (m : Packet) (fb : FragBucket)
  | destroy (m : Packet)
  -- `Frag_defrag_begin`
  | hw2sw (m : Packet) (ptr : FcbPtr Item)
  | fcbLock (m : Packet) (ptr : FcbPtr Item)
  | process (m : Packet) (ptr : FcbPtr Item)
  | processErr (m : Packet) (ptr : FcbPtr Item)
  | freefrags (ptr : FcbPtr Item) (rest : List Packet)
  | fcbUnlock (ptr : FcbPtr Item)
  -- `Frag_defrag_timeout`, `rest` are the blocks of the bucket that the loop has not seen
  | ageTrylock (current_cycle : UInt64) (i : FragBucket)
  | ageNext (current_cycle : UInt64) (i : FragBucket) (rest timeout : List Item)
  | ageFrags (current_cycle : UInt64) (i : FragBucket) (timeout : List Item)
  | ageDestroy (current_cycle : UInt64) (i : FragBucket) (tfcb : Item) (rest : List Packet)
      (timeout : List Item)
  | ageFree (current_cycle : UInt64) (i : FragBucket) (tfcb : Item) (timeout : List Item)

namespace Place

variable {Item Packet : Type}

def nextBucket (current_cycle : UInt64) (i : FragBucket) : Place Item Packet :=
  if h : i.val + 1 < FRAG_BUCKET_NUM then .ageTrylock current_cycle ⟨i.val + 1, h⟩ else .idle

def holds : Place Item Packet → Option (FcbPtr Item)
  | process _ ptr => some ptr
  | processErr _ ptr => some ptr
  | freefrags ptr _ => some ptr
  | fcbUnlock ptr => some ptr
  | _ => none

def uses : Place Item Packet → Option (FcbPtr Item)
  | fcbLock _ ptr => some ptr
  | p => p.holds

def found : Place Item Packet → Option (FcbPtr Item)
  | tableUnlock _ _ ptr => some ptr
  | hw2sw _ ptr => some ptr
  | p => p.uses

end Place

open Place

inductive FragStep {Core Item Packet : Type} [DecidableEq Item] [DecidableEq Packet]
    (FRAG_MAX_TIMEOUT : UInt64) : Program Core (Shared Core Item Packet) (Place Item Packet) where
  -- the cycle counter goes on
  | tick {c s p} (cycle : UInt64) (hle : s.clock ≤ cycle)
      : FragStep _ c s p { s with clock := cycle } p
  -- an idle core calls one of the functions
  | defrag {c s} (m : Packet) (mb : Mbuf) (hnew : (s.packet m).state = .new)
      : FragStep _ c s idle (s.receive c m mb) (tableLock m (ip4FragHashfn mb))
  | ageTimeout {c s} : FragStep _ c s idle s (ageTrylock s.clock 0)
  -- `Defrag`
  | tableLock {c s m fb} (hfree : s.lock fb = none)
      : FragStep _ c s (tableLock m fb) (s.tableLock c fb) (find m fb)
  | found {c s m fb f} (hfind : s.fragFind fb (s.mbuf m) = some f)
      : FragStep _ c s (find m fb) s (foundTouch m fb (s.ptr f))
  | foundTouch {c s m fb ptr}
      : FragStep _ c s (foundTouch m fb ptr) s (foundStore m fb ptr s.clock)
  | foundStore {c s m fb ptr cycle}
      : FragStep _ c s (foundStore m fb ptr cycle) (s.updateTimestamp ptr.fcb cycle)
          (tableUnlock m fb ptr)
  | miss {c s m fb} (hfind : s.fragFind fb (s.mbuf m) = none)
      : FragStep _ c s (find m fb) s (create m fb)
  | create {c s m fb} (f : Item) (hfree : (s.slot f).state = .free)
      : FragStep _ c s (create m fb) (s.fcbCreate c f (s.mbuf m)) (newTouch m fb (s.ptr f))
  | createFailed {c s m fb} : FragStep _ c s (create m fb) s (missUnlock m fb)
  | newTouch {c s m fb ptr} : FragStep _ c s (newTouch m fb ptr) s (newStore m fb ptr s.clock)
  | newStore {c s m fb ptr cycle}
      : FragStep _ c s (newStore m fb ptr cycle) (s.updateTimestamp ptr.fcb cycle) (insert m fb ptr)
  | insert {c s m fb ptr}
      : FragStep _ c s (insert m fb ptr) (s.fcbInsert fb ptr.fcb) (tableUnlock m fb ptr)
  | tableUnlock {c s m fb ptr}
      : FragStep _ c s (tableUnlock m fb ptr) (s.tableUnlock fb) (hw2sw m ptr)
  | missUnlock {c s m fb} : FragStep _ c s (missUnlock m fb) (s.tableUnlock fb) (destroy m)
  | destroy {c s m} : FragStep _ c s (destroy m) (s.packetDestroyAll m) idle
  -- `Frag_defrag_begin`
  | hw2sw {c s m ptr} (small : UInt64) (mbuf : Mbuf) (hsw : packetHw2sw small (s.mbuf m) = some mbuf)
      : FragStep _ c s (hw2sw m ptr) (s.setMbuf m mbuf) (fcbLock m ptr)
  | hw2swFailed {c s m ptr} (small : UInt64) (hsw : packetHw2sw small (s.mbuf m) = none)
      : FragStep _ c s (hw2sw m ptr) s (destroy m)
  | fcbLock {c s m ptr} (hfree : (s.slot ptr.fcb).lock = none)
      : FragStep _ c s (fcbLock m ptr) (s.fcbLock c ptr.fcb) (process m ptr)
  -- `Frag_defrag_process`
  | processErr {c s m ptr} (alloc : Alloc) (queue : FragQueue Packet)
      (hprocess : (s.slot ptr.fcb).fcb.queue.process alloc s.mbuf m = (queue, .destroyed))
      : FragStep _ c s (process m ptr) (s.setQueue ptr.fcb queue) (processErr m ptr)
  | processCached {c s m ptr} (alloc : Alloc) (queue : FragQueue Packet)
      (hprocess : (s.slot ptr.fcb).fcb.queue.process alloc s.mbuf m = (queue, .cached))
      : FragStep _ c s (process m ptr) ((s.setQueue ptr.fcb queue).enqueue m ptr.fcb) (fcbUnlock ptr)
  | processReasm {c s m ptr} (alloc : Alloc) (queue : FragQueue Packet) (freed : List Packet)
      (reasm_mb : Mbuf)
      (hprocess : (s.slot ptr.fcb).fcb.queue.process alloc s.mbuf m
        = (queue, .reassembled freed reasm_mb))
      : FragStep _ c s (process m ptr)
          ((s.setQueue ptr.fcb { queue with fragments := freed }).enqueue m ptr.fcb)
          (freefrags ptr freed)
  | destroyErr {c s m ptr}
      : FragStep _ c s (processErr m ptr) (s.packetDestroyAll m) (fcbUnlock ptr)
  | freefrags {c s ptr head rest}
      : FragStep _ c s (freefrags ptr (head :: rest)) (s.packetDestroyAll head) (freefrags ptr rest)
  | freefragsEnd {c s ptr}
      : FragStep _ c s (freefrags ptr []) (s.clearFragments ptr.fcb) (fcbUnlock ptr)
  | fcbUnlock {c s ptr} : FragStep _ c s (fcbUnlock ptr) (s.fcbUnlock ptr.fcb) idle
  -- `Frag_defrag_timeout`
  | ageTrylock {c s cur i} (hfree : s.lock i = none)
      : FragStep _ c s (ageTrylock cur i) (s.tableLock c i) (ageNext cur i (s.hash i) [])
  | ageSkip {c s cur i} (hlocked : s.lock i ≠ none)
      : FragStep _ c s (ageTrylock cur i) s (nextBucket cur i)
  | ageDead {c s cur i f rest timeout}
      (htimeout : timedOut FRAG_MAX_TIMEOUT cur (s.slot f).fcb = true)
      : FragStep _ c s (ageNext cur i (f :: rest) timeout) (s.hlistDel c i f)
          (ageNext cur i rest (f :: timeout))
  | ageKeep {c s cur i f rest timeout}
      (htimeout : timedOut FRAG_MAX_TIMEOUT cur (s.slot f).fcb = false)
      : FragStep _ c s (ageNext cur i (f :: rest) timeout) s (ageNext cur i rest timeout)
  | ageUnlock {c s cur i timeout}
      : FragStep _ c s (ageNext cur i [] timeout) (s.tableUnlock i) (ageFrags cur i timeout)
  | ageFrags {c s cur i tfcb timeout}
      : FragStep _ c s (ageFrags cur i (tfcb :: timeout)) s
          (ageDestroy cur i tfcb (s.fragments tfcb) timeout)
  | ageDestroy {c s cur i tfcb head rest timeout}
      : FragStep _ c s (ageDestroy cur i tfcb (head :: rest) timeout) (s.packetDestroyAll head)
          (ageDestroy cur i tfcb rest timeout)
  | ageDestroyEnd {c s cur i tfcb timeout}
      : FragStep _ c s (ageDestroy cur i tfcb [] timeout) (s.clearFragments tfcb)
          (ageFree cur i tfcb timeout)
  | ageFree {c s cur i tfcb timeout}
      : FragStep _ c s (ageFree cur i tfcb timeout) (s.fcbFree tfcb) (ageFrags cur i timeout)
  | ageFinish {c s cur i} : FragStep _ c s (ageFrags cur i []) s (nextBucket cur i)

/-- At the start all control blocks are in the pool, and no core is in one of the functions. -/
structure Initial {Core Item Packet : Type}
    (s : Config Core (Shared Core Item Packet) (Place Item Packet)) : Prop where
  lock : ∀ fb, s.mem.lock fb = none
  hash : ∀ fb, s.mem.hash fb = []
  slot : ∀ f, (s.mem.slot f).state = .free
  packet : ∀ m, (s.mem.packet m).state = .new ∧ (s.mem.packet m).enqueues = 0
    ∧ (s.mem.packet m).destroys = 0
  pc : ∀ c, s.pc c = idle

end SecFw.Defrag
