import SecFw.Defrag.Consistency

/-!
This module contains the proof that every step of a core leads to a place whose annotation holds.
-/

namespace SecFw.Defrag

open Place Decode

variable {Core Item Packet : Type} {s s' : Shared Core Item Packet} {c d : Core}
  {p p' q : Place Item Packet} {m : Packet} {fb : FragBucket} {f g : Item} {ptr : FcbPtr Item}
  {timeout rest : List Item} {FRAG_MAX_TIMEOUT : UInt64}

@[simp]
theorem Place.holds_nextBucket (cur : UInt64) (i : FragBucket)
    : (nextBucket cur i : Place Item Packet).holds = none := by
  rw [nextBucket]
  split <;> rfl

namespace Shared

section Packets

variable [DecidableEq Packet]

theorem Pending.setPacket {packet : PacketSlot Core Item} (h : s.Pending c timeout)
    (hm : s.Queued f m) (hf : f ∉ timeout) : (s.setPacket m packet).Pending c timeout := by
  refine h.mono (fun _ _ => rfl) ?_
  intro g hg n hn
  apply hn.setPacket
  apply not_queued_of_ne hm
  rintro rfl
  exact hf hg

theorem Waiting.setPacket {packet : PacketSlot Core Item} {fragments : List Packet}
    (h : s.Waiting f (m :: fragments)) : (s.setPacket m packet).Waiting f fragments := by
  rcases h.of_cons with ⟨hnew, hrest⟩
  refine ⟨hrest.nodup, ?_⟩
  intro n hn
  have hne : n ≠ m := by
    rintro rfl
    exact hnew hn
  rw [Queued, packet_setPacket_of_ne hne]
  exact hrest.queued n hn

end Packets

variable [DecidableEq Item] {slot : FcbSlot Core Packet} {fcb : fcb_t (FragQueue Packet)}

theorem Pending.setSlot (h : s.Pending c timeout) (hf : f ∉ timeout)
    : (s.setSlot f slot).Pending c timeout := by
  refine h.mono ?_ fun _ _ _ hm => hm
  intro g hg
  apply slot_setSlot_of_ne
  rintro rfl
  exact hf hg

theorem Used.setSlot (h : s.Used ptr) (hstate : slot.state = (s.slot ptr.fcb).state)
    (hfreed : slot.freed = (s.slot ptr.fcb).freed) : (s.setSlot ptr.fcb slot).Used ptr := by
  rcases h.linked with ⟨fb, hlinked⟩
  refine ⟨⟨fb, ?_⟩, ?_⟩
  . rw [Linked, slot_setSlot_self, hstate]
    exact hlinked
  . rw [slot_setSlot_self, hfreed]
    exact h.freed

theorem Used.setFcb (h : s.Used ptr) : (s.setFcb ptr.fcb fcb).Used ptr := h.setSlot rfl rfl

theorem Locked.setFcb (h : s.Locked c f) : (s.setFcb f fcb).Locked c f := by
  rw [Locked, Shared.setFcb, slot_setSlot_self]
  exact h

theorem intact_setSlot (h : s.Waiting f slot.fcb.queue.fragments) : (s.setSlot f slot).Intact f := by
  rw [Intact, fragments, slot_setSlot_self]
  exact h.mono fun _ hm => hm

theorem enqueue_setQueue [DecidableEq Packet] {queue : FragQueue Packet}
    : (s.setQueue f queue).enqueue m g = (s.enqueue m g).setQueue f queue := rfl

theorem created_fcbCreate (c : Core) (f : Item) (mb : Mbuf)
    : (s.fcbCreate c f mb).Created c (s.ptr f) where
  owned := by simp [Owned, fcbCreate, ptr]
  freed := by simp [fcbCreate, ptr]
  lock := by simp [fcbCreate, ptr]
  intact := intact_setSlot waiting_nil

theorem Created.updateTimestamp {cycle : UInt64} (h : s.Created c ptr)
    : (s.updateTimestamp ptr.fcb cycle).Created c ptr where
  owned := by
    rw [Owned, Shared.updateTimestamp, state_setFcb]
    exact h.owned
  freed := by
    rw [Shared.updateTimestamp, Shared.setFcb, slot_setSlot_self]
    exact h.freed
  lock := by
    rw [Shared.updateTimestamp, Shared.setFcb, slot_setSlot_self]
    exact h.lock
  intact := intact_setSlot h.intact

theorem used_fcbInsert (h : s.Created c ptr) : (s.fcbInsert fb ptr.fcb).Used ptr where
  linked := ⟨fb, by simp [Linked, fcbInsert]⟩
  freed := by
    rw [← h.freed]
    simp [fcbInsert]

theorem at_hlistDel {cur : UInt64} (hcons : s.Consistent)
    (hat : s.At c (ageNext cur fb (f :: rest) timeout)) (hfree : (s.slot f).lock = none)
    : (s.hlistDel c fb f).At c (ageNext cur fb rest (f :: timeout)) := by
  rcases hat with ⟨hcur, hlock, hunseen, htimeout⟩
  have hlinked : s.Linked fb f := hunseen.linked f List.mem_cons_self
  rcases hunseen.of_cons with ⟨hnew, hrest⟩
  have hf : f ∉ timeout := fun hmem => not_owned_of_linked hlinked (htimeout.owned f hmem).1
  have hslot (g : Item) (hg : g ≠ f) : (s.hlistDel c fb f).slot g = s.slot g := slot_setSlot_of_ne hg
  have htimeout' : (s.hlistDel c fb f).Pending c timeout := by
    refine htimeout.mono ?_ fun _ _ _ hm => hm
    intro g hg
    apply hslot
    rintro rfl
    exact hf hg
  refine ⟨hcur, hlock, ⟨hrest.nodup, ?_⟩, List.nodup_cons.mpr ⟨hf, htimeout.nodup⟩, ?_⟩
  . intro g hg
    have hgf : g ≠ f := by
      rintro rfl
      exact hnew hg
    rw [Linked, hslot g hgf]
    exact hrest.linked g hg
  . rw [List.forall_mem_cons]
    refine ⟨⟨?_, ?_⟩, htimeout'.owned⟩
    . simp [Owned, hlistDel]
    . refine (hcons.intact fb f hlinked hfree).mono ?_ fun _ hm => hm
      simp [fragments, hlistDel]

end Shared

variable [DecidableEq Item] [DecidableEq Packet]

theorem FragStep.at' (hcons : s.Consistent) (hat : s.At c p) (hspares : Spares FRAG_MAX_TIMEOUT s p q)
    (hstep : FragStep FRAG_MAX_TIMEOUT c s p s' p') : s'.At c p' := by
  cases hstep with
  | tick cycle hle => exact (Kept.tick (q := p) hle).at' hat
  | defrag m mb hnew => simp [Shared.At, Shared.Held, Shared.receive]
  | ageTimeout => exact UInt64.le_refl _
  | tableLock hfree => exact ⟨hat, by simp [Shared.tableLock]⟩
  | @found _ _ m fb f hfind =>
    exact ⟨hat.1, hat.2, (hcons.mem_hash fb f).mp (Shared.mem_hash_of_fragFind hfind), rfl⟩
  | foundTouch | miss | createFailed | newTouch => exact hat
  | foundStore =>
    rcases hat with ⟨hheld, hlock, hlinked, hfreed⟩
    exact ⟨hheld, hlock, Shared.Used.setFcb ⟨⟨_, hlinked⟩, hfreed⟩⟩
  | create f hfree => exact ⟨hat.1, hat.2, Shared.created_fcbCreate c f _⟩
  | newStore => exact ⟨hat.1, hat.2.1, hat.2.2.updateTimestamp⟩
  | insert => exact ⟨hat.1, hat.2.1, Shared.used_fcbInsert hat.2.2⟩
  | tableUnlock => exact ⟨hat.1, hat.2.2.of_slot rfl⟩
  | missUnlock => exact hat.1
  | destroy => trivial
  | hw2sw small mbuf hsw =>
    refine ⟨?_, hat.2.of_slot rfl⟩
    rw [Shared.Held, Shared.setMbuf, Shared.packet_setPacket_self]
    exact hat.1
  | hw2swFailed => exact hat.1
  | fcbLock hfree =>
    rcases hat with ⟨hheld, hused⟩
    rcases hused.linked with ⟨fb, hlinked⟩
    refine ⟨hheld, hused.setSlot rfl rfl, ?_, ?_⟩
    . simp [Shared.Locked, Shared.fcbLock]
    . exact Shared.intact_setSlot (hcons.intact fb _ hlinked hfree)
  | processErr alloc queue hprocess =>
    rcases hat with ⟨hheld, hused, hlocked, hintact⟩
    exact ⟨hheld, hused.setFcb, hlocked.setFcb,
      Shared.intact_setSlot (Shared.waiting_of_process hintact hheld hprocess)⟩
  | processCached alloc queue hprocess =>
    rcases hat with ⟨hheld, hused, hlocked, hintact⟩
    refine ⟨hused.setFcb.of_slot rfl, hlocked.setFcb, ?_⟩
    rw [Shared.enqueue_setQueue]
    exact Shared.intact_setSlot (Shared.waiting_of_process hintact hheld hprocess)
  | processReasm alloc queue freed reasm_mb hprocess =>
    rcases hat with ⟨hheld, hused, hlocked, hintact⟩
    refine ⟨hused.setFcb.of_slot rfl, hlocked.setFcb, ?_⟩
    exact (Shared.waiting_of_process hintact hheld hprocess).mono fun _ hm => hm
  | destroyErr =>
    rcases hat with ⟨hheld, hused, hlocked, hintact⟩
    exact ⟨hused.of_slot rfl, hlocked, hintact.mono rfl fun _ hn =>
      hn.setPacket (Shared.not_queued_of_held hheld)⟩
  | freefrags =>
    rcases hat with ⟨hused, hlocked, hrest⟩
    exact ⟨hused.of_slot rfl, hlocked, hrest.setPacket⟩
  | freefragsEnd =>
    rcases hat with ⟨hused, hlocked, hrest⟩
    exact ⟨hused.setFcb, hlocked.setFcb, Shared.intact_setSlot hrest⟩
  | fcbUnlock => trivial
  | ageTrylock hfree =>
    refine ⟨hat, by simp [Shared.tableLock], ⟨hcons.nodup _, ?_⟩, Shared.pending_nil⟩
    exact fun f hf => (hcons.mem_hash _ f).mp hf
  | ageSkip => exact Shared.at_nextBucket hat _
  | ageDead htimeout => exact Shared.at_hlistDel hcons hat (hspares _ _ _ _ _ rfl htimeout).1
  | ageKeep =>
    rcases hat with ⟨hcur, hlock, hunseen, htimeout⟩
    exact ⟨hcur, hlock, hunseen.of_cons.2, htimeout⟩
  | ageUnlock =>
    rcases hat with ⟨hcur, -, -, htimeout⟩
    exact ⟨hcur, htimeout.mono (fun _ _ => rfl) fun _ _ _ hm => hm⟩
  | ageFrags =>
    rcases hat with ⟨hcur, htimeout⟩
    rcases htimeout.owned _ List.mem_cons_self with ⟨howned, hintact⟩
    rcases htimeout.of_cons with ⟨hnew, hrest⟩
    exact ⟨hcur, howned, hnew, hintact, hrest⟩
  | ageDestroy =>
    rcases hat with ⟨hcur, howned, hnew, hrest, htimeout⟩
    exact ⟨hcur, howned, hnew, hrest.setPacket,
      htimeout.setPacket (hrest.queued _ List.mem_cons_self) hnew⟩
  | ageDestroyEnd =>
    rcases hat with ⟨hcur, howned, hnew, hrest, htimeout⟩
    refine ⟨hcur, ?_, hnew, htimeout.setSlot hnew⟩
    rw [Shared.Owned, Shared.clearFragments, Shared.setQueue, Shared.state_setFcb]
    exact howned
  | ageFree =>
    rcases hat with ⟨hcur, howned, hnew, htimeout⟩
    exact ⟨hcur, htimeout.setSlot hnew⟩
  | ageFinish => exact Shared.at_nextBucket hat.1 _

theorem FragStep.holder (hp : s.Annotated c p) (hstep : FragStep FRAG_MAX_TIMEOUT c s p s' p')
    (hlinked : s'.Linked fb f) (hlocked : s'.Locked c f) : ∃ ptr ∈ p'.holds, ptr.fcb = f := by
  have hold (h : s.Linked fb f) (h' : s.Locked c f) : ∃ ptr ∈ p.holds, ptr.fcb = f :=
    hp.holder fb f h h'
  have hsetFcb {g : Item} {fcb : fcb_t (FragQueue Packet)}
      (h : (s.setFcb g fcb).Linked fb f) (h' : (s.setFcb g fcb).Locked c f)
      : ∃ ptr ∈ p.holds, ptr.fcb = f := by
    rw [Shared.Linked, Shared.state_setFcb] at h
    rw [Shared.Locked, Shared.lock_setFcb] at h'
    exact hold h h'
  have hsetSlot {g : Item} {slot : FcbSlot Core Packet} (h : (s.setSlot g slot).Linked fb f)
      (h' : (s.setSlot g slot).Locked c f)
      : (f = g ∧ slot.state = .linked fb ∧ slot.lock = some c)
        ∨ (f ≠ g ∧ ∃ ptr ∈ p.holds, ptr.fcb = f) := by
    by_cases hf : f = g
    . subst hf
      simp only [Shared.Linked, Shared.Locked, Shared.slot_setSlot_self] at h h'
      exact Or.inl ⟨rfl, h, h'⟩
    . simp only [Shared.Linked, Shared.Locked, Shared.slot_setSlot_of_ne hf] at h h'
      exact Or.inr ⟨hf, hold h h'⟩
  cases hstep with
  | foundStore | newStore | processErr | processCached | processReasm | freefragsEnd
  | ageDestroyEnd => exact hsetFcb hlinked hlocked
  | create g hfree =>
    rcases hsetSlot hlinked hlocked with ⟨-, hstate, -⟩ | ⟨-, h⟩
    . cases hstate
    . exact h
  | insert =>
    rcases hsetSlot hlinked hlocked with ⟨-, -, hlock⟩ | ⟨-, h⟩
    . have hfree := hp.at'.2.2.lock
      rw [hlock] at hfree
      cases hfree
    . exact h
  | fcbLock =>
    rcases hsetSlot hlinked hlocked with ⟨hf, -, -⟩ | ⟨-, _, hptr, -⟩
    . exact ⟨_, rfl, hf.symm⟩
    . cases hptr
  | @fcbUnlock _ _ ptr =>
    rcases hsetSlot hlinked hlocked with ⟨-, -, hlock⟩ | ⟨hne, ptr', hptr, hf⟩
    . cases hlock
    . have hsame : ptr = ptr' := Option.some.inj hptr
      rw [hsame, hf] at hne
      exact absurd rfl hne
  | ageDead htimeout =>
    rcases hsetSlot hlinked hlocked with ⟨-, hstate, -⟩ | ⟨-, h⟩
    . cases hstate
    . exact h
  | ageFree =>
    rcases hsetSlot hlinked hlocked with ⟨-, hstate, -⟩ | ⟨-, h⟩
    . cases hstate
    . exact h
  | ageSkip | ageFinish =>
    rcases hold hlinked hlocked with ⟨_, hptr, -⟩
    cases hptr
  | _ => exact hold hlinked hlocked

end SecFw.Defrag
