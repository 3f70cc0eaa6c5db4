import SecFw.Defrag.Program

/-!
This module contains the annotations of the program on the table of control blocks: what holds of
the shared memory at every time, and what a core can rely on at a place of its program.
-/

namespace SecFw.Defrag

open Place Decode

variable {Core Item Packet : Type}

namespace Shared

def Held (s : Shared Core Item Packet) (c : Core) (m : Packet) : Prop :=
  (s.packet m).state = .held c

def Queued (s : Shared Core Item Packet) (f : Item) (m : Packet) : Prop :=
  (s.packet m).state = .queued f

def Linked (s : Shared Core Item Packet) (fb : FragBucket) (f : Item) : Prop :=
  (s.slot f).state = .linked fb

def Owned (s : Shared Core Item Packet) (c : Core) (f : Item) : Prop := (s.slot f).state = .owned c

def Locked (s : Shared Core Item Packet) (c : Core) (f : Item) : Prop := (s.slot f).lock = some c

structure Waiting (s : Shared Core Item Packet) (f : Item) (fragments : List Packet) : Prop where
  nodup : fragments.Nodup
  queued : ∀ m ∈ fragments, s.Queued f m

def Intact (s : Shared Core Item Packet) (f : Item) : Prop := s.Waiting f (s.fragments f)

structure Used (s : Shared Core Item Packet) (ptr : FcbPtr Item) : Prop where
  linked : ∃ fb, s.Linked fb ptr.fcb
  freed : (s.slot ptr.fcb).freed = ptr.freed

structure Created (s : Shared Core Item Packet) (c : Core) (ptr : FcbPtr Item) : Prop where
  owned : s.Owned c ptr.fcb
  freed : (s.slot ptr.fcb).freed = ptr.freed
  lock : (s.slot ptr.fcb).lock = none
  intact : s.Intact ptr.fcb

structure Unseen (s : Shared Core Item Packet) (fb : FragBucket) (rest : List Item) : Prop where
  nodup : rest.Nodup
  linked : ∀ f ∈ rest, s.Linked fb f

structure Pending (s : Shared Core Item Packet) (c : Core) (timeout : List Item) : Prop where
  nodup : timeout.Nodup
  owned : ∀ f ∈ timeout, s.Owned c f ∧ s.Intact f

def Counted (packet : PacketSlot Core Item) : Prop :=
  match packet.state with
  | .new => packet.enqueues = 0 ∧ packet.destroys = 0
  | .held _ => packet.enqueues = 0 ∧ packet.destroys = 0
  | .queued _ => packet.enqueues = 1 ∧ packet.destroys = 0
  | .destroyed => packet.enqueues ≤ 1 ∧ packet.destroys = 1

structure Consistent (s : Shared Core Item Packet) : Prop where
  nodup : ∀ fb, (s.hash fb).Nodup
  mem_hash : ∀ fb f, f ∈ s.hash fb ↔ s.Linked fb f
  intact : ∀ fb f, s.Linked fb f → (s.slot f).lock = none → s.Intact f
  counted : ∀ m, Counted (s.packet m)

def At (s : Shared Core Item Packet) (c : Core) : Place Item Packet → Prop
  | .idle => True
  | .tableLock m _ => s.Held c m
  | .find m fb => s.Held c m ∧ s.lock fb = some c
  | .foundTouch m fb ptr =>
    s.Held c m ∧ s.lock fb = some c ∧ s.Linked fb ptr.fcb ∧ (s.slot ptr.fcb).freed = ptr.freed
  | .foundStore m fb ptr _ =>
    s.Held c m ∧ s.lock fb = some c ∧ s.Linked fb ptr.fcb ∧ (s.slot ptr.fcb).freed = ptr.freed
  | .create m fb => s.Held c m ∧ s.lock fb = some c
  | .newTouch m fb ptr => s.Held c m ∧ s.lock fb = some c ∧ s.Created c ptr
  | .newStore m fb ptr _ => s.Held c m ∧ s.lock fb = some c ∧ s.Created c ptr
  | .insert m fb ptr => s.Held c m ∧ s.lock fb = some c ∧ s.Created c ptr
  | .tableUnlock m fb ptr => s.Held c m ∧ s.lock fb = some c ∧ s.Used ptr
  | .missUnlock m fb => s.Held c m ∧ s.lock fb = some c
  | .destroy m => s.Held c m
  | .hw2sw m ptr => s.Held c m ∧ s.Used ptr
  | .fcbLock m ptr => s.Held c m ∧ s.Used ptr
  | .process m ptr => s.Held c m ∧ s.Used ptr ∧ s.Locked c ptr.fcb ∧ s.Intact ptr.fcb
  | .processErr m ptr => s.Held c m ∧ s.Used ptr ∧ s.Locked c ptr.fcb ∧ s.Intact ptr.fcb
  | .freefrags ptr rest => s.Used ptr ∧ s.Locked c ptr.fcb ∧ s.Waiting ptr.fcb rest
  | .fcbUnlock ptr => s.Used ptr ∧ s.Locked c ptr.fcb ∧ s.Intact ptr.fcb
  | .ageTrylock cur _ => cur ≤ s.clock
  | .ageNext cur i rest timeout =>
    cur ≤ s.clock ∧ s.lock i = some c ∧ s.Unseen i rest ∧ s.Pending c timeout
  | .ageFrags cur _ timeout => cur ≤ s.clock ∧ s.Pending c timeout
  | .ageDestroy cur _ tfcb rest timeout =>
    cur ≤ s.clock ∧ s.Owned c tfcb ∧ tfcb ∉ timeout ∧ s.Waiting tfcb rest ∧ s.Pending c timeout
  | .ageFree cur _ tfcb timeout =>
    cur ≤ s.clock ∧ s.Owned c tfcb ∧ tfcb ∉ timeout ∧ s.Pending c timeout

structure Annotated (s : Shared Core Item Packet) (c : Core) (p : Place Item Packet) : Prop where
  at' : s.At c p
  holder : ∀ fb f, s.Linked fb f → s.Locked c f → ∃ ptr ∈ p.holds, ptr.fcb = f

end Shared

section Kept

variable {s s' s'' : Shared Core Item Packet} {c d : Core} {p p' q : Place Item Packet} {m : Packet}
  {fb : FragBucket} {f : Item} {ptr : FcbPtr Item} {fragments : List Packet}

structure Kept (d : Core) (q : Place Item Packet) (s s' : Shared Core Item Packet) : Prop where
  clock : s.clock ≤ s'.clock
  held : ∀ m, s.Held d m → s'.Held d m
  lock : ∀ fb, s.lock fb = some d → s'.lock fb = some d
  linked : ∀ fb f, s.lock fb = some d → s.Linked fb f →
    s'.Linked fb f ∧ (s'.slot f).freed = (s.slot f).freed
  owned : ∀ f, s.Owned d f → s'.slot f = s.slot f ∧ ∀ m, s.Queued f m → s'.Queued f m
  used : ∀ ptr ∈ q.found, s.Used ptr → s'.Used ptr
  locked : ∀ fb f, s.Linked fb f → s.Locked d f →
    s'.Locked d f ∧ s'.fragments f = s.fragments f ∧ ∀ m, s.Queued f m → s'.Queued f m
  holder : ∀ fb f, s'.Linked fb f → s'.Locked d f → s.Linked fb f ∧ s.Locked d f

theorem Shared.Used.of_slot (h : s.Used ptr) (hslot : s'.slot = s.slot) : s'.Used ptr := by
  rcases h.linked with ⟨fb, hlinked⟩
  refine ⟨⟨fb, ?_⟩, ?_⟩
  . rw [Shared.Linked, hslot]
    exact hlinked
  . rw [hslot]
    exact h.freed

theorem Shared.Waiting.mono (h : s.Waiting f fragments) (hqueued : ∀ m, s.Queued f m → s'.Queued f m)
    : s'.Waiting f fragments := ⟨h.nodup, fun m hm => hqueued m (h.queued m hm)⟩

theorem Shared.waiting_nil : s.Waiting f [] := ⟨List.nodup_nil, by simp⟩

theorem Shared.pending_nil : s.Pending c [] := ⟨List.nodup_nil, by simp⟩

theorem Shared.not_owned_of_linked (h : s.Linked fb f) : ¬s.Owned c f := by
  rw [Shared.Linked] at h
  rw [Shared.Owned, h]
  simp

theorem Shared.Waiting.of_cons (h : s.Waiting f (m :: fragments))
    : m ∉ fragments ∧ s.Waiting f fragments := by
  rcases List.nodup_cons.mp h.nodup with ⟨hnew, hnodup⟩
  exact ⟨hnew, hnodup, fun n hn => h.queued n (List.mem_cons_of_mem m hn)⟩

theorem Shared.Pending.of_cons {timeout : List Item} (h : s.Pending c (f :: timeout))
    : f ∉ timeout ∧ s.Pending c timeout := by
  rcases List.nodup_cons.mp h.nodup with ⟨hnew, hnodup⟩
  exact ⟨hnew, hnodup, fun g hg => h.owned g (List.mem_cons_of_mem f hg)⟩

theorem Shared.Unseen.of_cons {rest : List Item} (h : s.Unseen fb (f :: rest))
    : f ∉ rest ∧ s.Unseen fb rest := by
  rcases List.nodup_cons.mp h.nodup with ⟨hnew, hnodup⟩
  exact ⟨hnew, hnodup, fun g hg => h.linked g (List.mem_cons_of_mem f hg)⟩

namespace Kept

theorem refl (d : Core) (q : Place Item Packet) (s : Shared Core Item Packet) : Kept d q s s where
  clock := UInt64.le_refl _
  held := fun _ h => h
  lock := fun _ h => h
  linked := fun _ _ _ h => ⟨h, rfl⟩
  owned := fun _ _ => ⟨rfl, fun _ h => h⟩
  used := fun _ _ h => h
  locked := fun _ _ _ h => ⟨h, rfl, fun _ h => h⟩
  holder := fun _ _ h h' => ⟨h, h'⟩

theorem owned' (h : Kept d q s s') (hf : s.Owned d f) : s'.Owned d f := by
  rw [Shared.Owned, (h.owned f hf).1]
  exact hf

theorem waiting_of_owned (h : Kept d q s s') (hf : s.Owned d f) (hrest : s.Waiting f fragments)
    : s'.Waiting f fragments := hrest.mono (h.owned f hf).2

theorem intact_of_owned (h : Kept d q s s') (hf : s.Owned d f) (hintact : s.Intact f)
    : s'.Intact f := by
  rw [Shared.Intact, Shared.fragments, (h.owned f hf).1]
  exact h.waiting_of_owned hf hintact

theorem created (h : Kept d q s s') (hptr : s.Created d ptr) : s'.Created d ptr where
  owned := h.owned' hptr.owned
  freed := by
    rw [(h.owned _ hptr.owned).1]
    exact hptr.freed
  lock := by
    rw [(h.owned _ hptr.owned).1]
    exact hptr.lock
  intact := h.intact_of_owned hptr.owned hptr.intact

theorem pending {timeout : List Item} (h : Kept d q s s') (htimeout : s.Pending d timeout)
    : s'.Pending d timeout := by
  refine ⟨htimeout.nodup, ?_⟩
  intro f hf
  rcases htimeout.owned f hf with ⟨howned, hintact⟩
  exact ⟨h.owned' howned, h.intact_of_owned howned hintact⟩

theorem unseen {rest : List Item} (h : Kept d q s s') (hlock : s.lock fb = some d)
    (hrest : s.Unseen fb rest) : s'.Unseen fb rest :=
  ⟨hrest.nodup, fun f hf => (h.linked fb f hlock (hrest.linked f hf)).1⟩

theorem found (h : Kept d q s s') (hlock : s.lock fb = some d) (hlinked : s.Linked fb ptr.fcb)
    (hfreed : (s.slot ptr.fcb).freed = ptr.freed)
    : s'.Linked fb ptr.fcb ∧ (s'.slot ptr.fcb).freed = ptr.freed := by
  rcases h.linked fb ptr.fcb hlock hlinked with ⟨hlinked', hfreed'⟩
  exact ⟨hlinked', hfreed'.trans hfreed⟩

theorem locked_of_used (h : Kept d q s s') (hused : s.Used ptr) (hlock : s.Locked d ptr.fcb)
    : s'.Locked d ptr.fcb := by
  rcases hused.linked with ⟨fb, hlinked⟩
  exact (h.locked fb _ hlinked hlock).1

theorem waiting_of_locked (h : Kept d q s s') (hused : s.Used ptr) (hlock : s.Locked d ptr.fcb)
    (hrest : s.Waiting ptr.fcb fragments) : s'.Waiting ptr.fcb fragments := by
  rcases hused.linked with ⟨fb, hlinked⟩
  exact hrest.mono (h.locked fb _ hlinked hlock).2.2

theorem intact_of_locked (h : Kept d q s s') (hused : s.Used ptr) (hlock : s.Locked d ptr.fcb)
    (hintact : s.Intact ptr.fcb) : s'.Intact ptr.fcb := by
  rcases hused.linked with ⟨fb, hlinked⟩
  rw [Shared.Intact, (h.locked fb _ hlinked hlock).2.1]
  exact h.waiting_of_locked hused hlock hintact

end Kept

theorem Kept.at' (h : Kept d q s s') (hat : s.At d q) : s'.At d q := by
  cases q with
  | idle => trivial
  | tableLock m fb => exact h.held m hat
  | find m fb => exact ⟨h.held m hat.1, h.lock fb hat.2⟩
  | foundTouch m fb ptr =>
    rcases hat with ⟨hheld, hlock, hlinked, hfreed⟩
    exact ⟨h.held m hheld, h.lock fb hlock, h.found hlock hlinked hfreed⟩
  | foundStore m fb ptr cycle =>
    rcases hat with ⟨hheld, hlock, hlinked, hfreed⟩
    exact ⟨h.held m hheld, h.lock fb hlock, h.found hlock hlinked hfreed⟩
  | create m fb => exact ⟨h.held m hat.1, h.lock fb hat.2⟩
  | newTouch m fb ptr => exact ⟨h.held m hat.1, h.lock fb hat.2.1, h.created hat.2.2⟩
  | newStore m fb ptr cycle => exact ⟨h.held m hat.1, h.lock fb hat.2.1, h.created hat.2.2⟩
  | insert m fb ptr => exact ⟨h.held m hat.1, h.lock fb hat.2.1, h.created hat.2.2⟩
  | tableUnlock m fb ptr =>
    rcases hat with ⟨hheld, hlock, hused⟩
    exact ⟨h.held m hheld, h.lock fb hlock, h.used ptr rfl hused⟩
  | missUnlock m fb => exact ⟨h.held m hat.1, h.lock fb hat.2⟩
  | destroy m => exact h.held m hat
  | hw2sw m ptr => exact ⟨h.held m hat.1, h.used ptr rfl hat.2⟩
  | fcbLock m ptr => exact ⟨h.held m hat.1, h.used ptr rfl hat.2⟩
  | process m ptr =>
    rcases hat with ⟨hheld, hused, hlocked, hintact⟩
    exact ⟨h.held m hheld, h.used ptr rfl hused, h.locked_of_used hused hlocked,
      h.intact_of_locked hused hlocked hintact⟩
  | processErr m ptr =>
    rcases hat with ⟨hheld, hused, hlocked, hintact⟩
    exact ⟨h.held m hheld, h.used ptr rfl hused, h.locked_of_used hused hlocked,
      h.intact_of_locked hused hlocked hintact⟩
  | freefrags ptr rest =>
    rcases hat with ⟨hused, hlocked, hrest⟩
    exact ⟨h.used ptr rfl hused, h.locked_of_used hused hlocked,
      h.waiting_of_locked hused hlocked hrest⟩
  | fcbUnlock ptr =>
    rcases hat with ⟨hused, hlocked, hintact⟩
    exact ⟨h.used ptr rfl hused, h.locked_of_used hused hlocked,
      h.intact_of_locked hused hlocked hintact⟩
  | ageTrylock cur i => exact UInt64.le_trans hat h.clock
  | ageNext cur i rest timeout =>
    rcases hat with ⟨hcur, hlock, hrest, htimeout⟩
    exact ⟨UInt64.le_trans hcur h.clock, h.lock i hlock, h.unseen hlock hrest, h.pending htimeout⟩
  | ageFrags cur i timeout => exact ⟨UInt64.le_trans hat.1 h.clock, h.pending hat.2⟩
  | ageDestroy cur i tfcb rest timeout =>
    rcases hat with ⟨hcur, howned, hnew, hrest, htimeout⟩
    exact ⟨UInt64.le_trans hcur h.clock, h.owned' howned, hnew, h.waiting_of_owned howned hrest,
      h.pending htimeout⟩
  | ageFree cur i tfcb timeout =>
    rcases hat with ⟨hcur, howned, hnew, htimeout⟩
    exact ⟨UInt64.le_trans hcur h.clock, h.owned' howned, hnew, h.pending htimeout⟩

theorem Kept.annotated (h : Kept d q s s') (hat : s.Annotated d q) : s'.Annotated d q := by
  refine ⟨h.at' hat.at', ?_⟩
  intro fb f hlinked hlocked
  rcases h.holder fb f hlinked hlocked with ⟨hlinked', hlocked'⟩
  exact hat.holder fb f hlinked' hlocked'

end Kept

end SecFw.Defrag
