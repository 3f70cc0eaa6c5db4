import SecFw.Flow.Program

/-!
This module contains the annotations of the program on the flow table: what holds of the shared
memory at every time, and what a core can rely on at a place of its program.
-/

namespace SecFw.Flow

open Place

variable {Core Item : Type}

namespace Place

def owned : Place Item → List Item
  | addLockNew _ _ newf => [newf]
  | addLock _ _ newf => [newf]
  | addFind _ _ newf => [newf]
  | addItem _ _ newf _ => [newf]
  | addItemUnlock _ _ newf _ => [newf]
  | addFree _ newf _ => [newf]
  | ageNext _ _ _ timeout => timeout
  | ageTest _ _ _ _ timeout => timeout
  | ageUnlockDead _ _ f _ timeout => f :: timeout
  | ageUnlockKeep _ _ _ _ timeout => timeout
  | ageFree _ _ timeout => timeout
  | _ => []

def uses : Place Item → List Item
  | lookupItem _ _ flow => [flow]
  | lookupUnlock _ _ flow => [flow]
  | addLockNew _ _ newf => [newf]
  | addLock _ _ newf => [newf]
  | addFind _ _ newf => [newf]
  | addUnlock _ _ newf => [newf]
  | addItem _ _ newf flow => [newf, flow]
  | addItemUnlock _ _ newf flow => [newf, flow]
  | addFree _ newf flow => [newf, flow]
  | reference _ f => [f]
  | unlockItem _ f => [f]
  | _ => []

@[simp]
theorem owned_nextBucket (cur : UInt64) (i : Bucket) : (nextBucket cur i : Place Item).owned = [] := by
  rw [nextBucket]
  split <;> rfl

end Place

namespace Shared

variable (s : Shared Core Item)

noncomputable def refs (f : Item) : Nat := { m | s.PointsTo m f }.ncard

def Held (c : Core) (m : MbufId) : Prop := (s.mbuf m).state = .held c

def Locked (c : Core) (f : Item) : Prop := (s.item f).item_lock = some c

def Matches (m : MbufId) (f : Item) : Prop := flowMatch (s.item f) (s.mbuf m).mbuf

structure Private (f : Item) : Prop where
  pool : f ∉ s.pool
  linked : ¬s.Linked f
  use_cnt : (s.item f).use_cnt = 0

structure Packet (c : Core) (m : MbufId) (fb : Bucket) : Prop where
  held : s.Held c m
  bucket : (tupleOf (s.mbuf m).mbuf).bucket = fb

structure Unseen (i : Bucket) (rest : List Item) : Prop where
  nodup : rest.Nodup
  mem : ∀ f ∈ rest, f ∈ s.hash i

structure Pending (timeout : List Item) : Prop where
  nodup : timeout.Nodup
  owned : ∀ f ∈ timeout, s.Private f ∧ (s.item f).item_lock = none

structure Consistent : Prop where
  nodup : ∀ fb, (s.hash fb).Nodup
  bucket : ∀ fb, ∀ f ∈ s.hash fb, (s.item f).tuple.bucket = fb
  unique : ∀ f g, s.Linked f → s.Linked g →
    (s.item f).tuple.connection = (s.item g).tuple.connection → f = g
  pool : ∀ f, s.Linked f → f ∉ s.pool
  use_cnt : ∀ f, s.Linked f → (s.item f).use_cnt = s.refs f
  points : ∀ m f, s.PointsTo m f → s.Linked f ∧ s.Matches m f

def At (c : Core) (s : Shared Core Item) : Place Item → Prop
  | idle => True
  | lookupLock m fb => s.Packet c m fb
  | lookupFind m fb => s.Packet c m fb ∧ s.lock fb = some c
  | lookupItem m fb flow =>
    s.Packet c m fb ∧ s.lock fb = some c ∧ flow ∈ s.hash fb ∧ s.Matches m flow
  | lookupUnlock m fb flow =>
    s.Packet c m fb ∧ s.lock fb = some c ∧ flow ∈ s.hash fb ∧ s.Matches m flow ∧ s.Locked c flow
  | missUnlock m fb => s.Packet c m fb ∧ s.lock fb = some c
  | addAlloc m fb => s.Packet c m fb
  | addLockNew m fb newf => s.Packet c m fb ∧ s.Private newf ∧ s.Matches m newf
  | addLock m fb newf => s.Packet c m fb ∧ s.Private newf ∧ s.Matches m newf ∧ s.Locked c newf
  | addFind m fb newf =>
    s.Packet c m fb ∧ s.Private newf ∧ s.Matches m newf ∧ s.Locked c newf ∧ s.lock fb = some c
  | addUnlock m fb newf =>
    s.Packet c m fb ∧ s.lock fb = some c ∧ newf ∈ s.hash fb ∧ s.Matches m newf ∧ s.Locked c newf
  | addItem m fb newf flow =>
    s.Packet c m fb ∧ s.Private newf ∧ s.lock fb = some c ∧ flow ∈ s.hash fb ∧ s.Matches m flow
  | addItemUnlock m fb newf flow =>
    s.Packet c m fb ∧ s.Private newf ∧ s.lock fb = some c ∧ flow ∈ s.hash fb ∧ s.Matches m flow
      ∧ s.Locked c flow
  | addFree m newf flow =>
    s.Held c m ∧ s.Private newf ∧ s.Linked flow ∧ s.Matches m flow ∧ s.Locked c flow
  | reference m f => s.Held c m ∧ s.Linked f ∧ s.Matches m f ∧ s.Locked c f
  | unlockItem m f => s.Held c m ∧ s.Linked f ∧ s.Locked c f
  | deliver m => s.Held c m
  | recycle m => s.Held c m
  | freeSlice m => s.Held c m ∧ (s.mbuf m).flow = none
  | ageTrylock _ _ => True
  | ageNext _ i rest timeout => s.lock i = some c ∧ s.Unseen i rest ∧ s.Pending timeout
  | ageTest _ i f rest timeout =>
    s.lock i = some c ∧ s.Unseen i (f :: rest) ∧ s.Locked c f ∧ s.Pending timeout
  | ageUnlockDead _ i f rest timeout =>
    s.lock i = some c ∧ s.Unseen i rest ∧ s.Private f ∧ s.Locked c f ∧ f ∉ timeout
      ∧ s.Pending timeout
  | ageUnlockKeep _ i f rest timeout =>
    s.lock i = some c ∧ s.Unseen i rest ∧ f ∈ s.hash i ∧ s.Locked c f ∧ s.Pending timeout
  | ageFree _ _ timeout => s.Pending timeout

end Shared

section Kept

variable {s s' s'' : Shared Core Item} {c d : Core} {p q : Place Item} {m : MbufId} {fb : Bucket}
  {f : Item}

structure Kept (d : Core) (q : Place Item) (s s' : Shared Core Item) : Prop where
  lock : ∀ fb, s.lock fb = some d → s'.lock fb = some d
  hash : ∀ fb, s.lock fb = some d → s'.hash fb = s.hash fb
  linked : ∀ f, s.Linked f → s.Locked d f → s'.Linked f ∧ s'.Locked d f
  tuple : ∀ f, f ∉ s.pool → (s'.item f).tuple = (s.item f).tuple
  owned : ∀ f ∈ q.owned, s.Private f → s'.Private f ∧ s'.item f = s.item f
  mbuf : ∀ m, s.Held d m → s'.mbuf m = s.mbuf m

namespace Kept

theorem refl (d : Core) (q : Place Item) (s : Shared Core Item) : Kept d q s s where
  lock := fun _ h => h
  hash := fun _ _ => rfl
  linked := fun _ h h' => ⟨h, h'⟩
  tuple := fun _ _ => rfl
  owned := fun _ _ h => ⟨h, rfl⟩
  mbuf := fun _ _ => rfl

theorem held (h : Kept d q s s') (hm : s.Held d m) : s'.Held d m := by
  rw [Shared.Held, h.mbuf m hm]
  exact hm

theorem packet (h : Kept d q s s') (hm : s.Packet d m fb) : s'.Packet d m fb := by
  refine ⟨h.held hm.held, ?_⟩
  rw [h.mbuf m hm.held]
  exact hm.bucket

theorem mem_hash (h : Kept d q s s') (hlock : s.lock fb = some d) (hf : f ∈ s.hash fb)
    : f ∈ s'.hash fb := by
  rw [h.hash fb hlock]
  exact hf

theorem matches' (h : Kept d q s s') (hm : s.Held d m) (hf : f ∉ s.pool) (hmatch : s.Matches m f)
    : s'.Matches m f := by
  rw [Shared.Matches, flowMatch_iff] at hmatch ⊢
  rw [h.mbuf m hm, h.tuple f hf]
  exact hmatch

theorem locked_of_owned (h : Kept d q s s') (hf : f ∈ q.owned) (hpriv : s.Private f)
    (hlocked : s.Locked d f) : s'.Locked d f := by
  rw [Shared.Locked, (h.owned f hf hpriv).2]
  exact hlocked

theorem unseen {rest : List Item} (h : Kept d q s s') (hlock : s.lock fb = some d)
    (hrest : s.Unseen fb rest) : s'.Unseen fb rest :=
  ⟨hrest.nodup, fun f hf => h.mem_hash hlock (hrest.mem f hf)⟩

theorem pending {timeout : List Item} (h : Kept d q s s') (howned : ∀ f ∈ timeout, f ∈ q.owned)
    (htimeout : s.Pending timeout) : s'.Pending timeout := by
  refine ⟨htimeout.nodup, ?_⟩
  intro f hf
  rcases htimeout.owned f hf with ⟨hpriv, hlock⟩
  rcases h.owned f (howned f hf) hpriv with ⟨hpriv', heq⟩
  exact ⟨hpriv', by rw [heq, hlock]⟩

end Kept

end Kept

end SecFw.Flow
