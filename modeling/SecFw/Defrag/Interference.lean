import SecFw.Defrag.Outline

/-!
This module contains the proof that the cores do not interfere with each other on the table of
control blocks, as long as the callback leaves the blocks in the table that `Defrag` has found.
-/

namespace SecFw.Defrag

open Place Decode

variable {Core Item Packet : Type} {s s' s'' : Shared Core Item Packet} {c d : Core}
  {p p' q : Place Item Packet} {m : Packet} {fb : FragBucket} {f : Item} {ptr : FcbPtr Item}

namespace Kept

theorem trans (h : Kept d q s s') (h' : Kept d q s' s'')
    (hstate : ∀ f, (s'.slot f).state = (s.slot f).state) : Kept d q s s'' where
  clock := UInt64.le_trans h.clock h'.clock
  held := fun m hm => h'.held m (h.held m hm)
  lock := fun fb hfb => h'.lock fb (h.lock fb hfb)
  linked := by
    intro fb f hlock hf
    rcases h.linked fb f hlock hf with ⟨hf', hfreed⟩
    rcases h'.linked fb f (h.lock fb hlock) hf' with ⟨hf'', hfreed'⟩
    exact ⟨hf'', hfreed'.trans hfreed⟩
  owned := by
    intro f hf
    rcases h.owned f hf with ⟨hslot, hqueued⟩
    rcases h'.owned f (h.owned' hf) with ⟨hslot', hqueued'⟩
    exact ⟨hslot'.trans hslot, fun m hm => hqueued' m (hqueued m hm)⟩
  used := fun ptr hptr hused => h'.used ptr hptr (h.used ptr hptr hused)
  locked := by
    intro fb f hlinked hlocked
    rcases h.locked fb f hlinked hlocked with ⟨hlocked', hfragments, hqueued⟩
    have hlinked' : s'.Linked fb f := (hstate f).trans hlinked
    rcases h'.locked fb f hlinked' hlocked' with ⟨hlocked'', hfragments', hqueued'⟩
    exact ⟨hlocked'', hfragments'.trans hfragments, fun m hm => hqueued' m (hqueued m hm)⟩
  holder := by
    intro fb f hlinked hlocked
    rcases h'.holder fb f hlinked hlocked with ⟨hlinked', hlocked'⟩
    exact h.holder fb f hlinked' hlocked'

theorem setHash (h : Kept d q s s') (hash : FragBucket → List Item)
    : Kept d q s { s' with hash := hash } :=
  ⟨h.clock, h.held, h.lock, h.linked, h.owned,
    fun ptr hptr hused => (h.used ptr hptr hused).of_slot rfl, h.locked, h.holder⟩

theorem tick {cycle : UInt64} (hle : s.clock ≤ cycle) : Kept d q s { s with clock := cycle } where
  clock := hle
  held := fun _ h => h
  lock := fun _ h => h
  linked := fun _ _ _ h => ⟨h, rfl⟩
  owned := fun _ _ => ⟨rfl, fun _ h => h⟩
  used := fun _ _ h => h.of_slot rfl
  locked := fun _ _ _ h => ⟨h, rfl, fun _ h => h⟩
  holder := fun _ _ h h' => ⟨h, h'⟩

theorem setLock {lock : FragBucket → Option Core}
    (hlock : ∀ fb, s.lock fb = some d → lock fb = some d) : Kept d q s { s with lock := lock } where
  clock := UInt64.le_refl _
  held := fun _ h => h
  lock := hlock
  linked := fun _ _ _ h => ⟨h, rfl⟩
  owned := fun _ _ => ⟨rfl, fun _ h => h⟩
  used := fun _ _ h => h.of_slot rfl
  locked := fun _ _ _ h => ⟨h, rfl, fun _ h => h⟩
  holder := fun _ _ h h' => ⟨h, h'⟩

theorem tableLock (hfree : s.lock fb = none) : Kept d q s (s.tableLock c fb) := by
  apply setLock
  intro b hb
  have hne : b ≠ fb := by
    rintro rfl
    simp [hfree] at hb
  simpa [hne] using hb

theorem tableUnlock (hlock : s.lock fb = some c) (hne : c ≠ d) : Kept d q s (s.tableUnlock fb) := by
  apply setLock
  intro b hb
  have hbfb : b ≠ fb := by
    rintro rfl
    rw [hlock, Option.some.injEq] at hb
    exact hne hb
  simpa [hbfb] using hb

section Packets

variable [DecidableEq Packet]

theorem queued_setPacket {packet : PacketSlot Core Item} {n : Packet} (hm : ¬s.Queued f m)
    (hn : s.Queued f n) : (s.setPacket m packet).Queued f n := by
  have hne : n ≠ m := by
    rintro rfl
    exact hm hn
  rw [Shared.Queued, Shared.packet_setPacket_of_ne hne]
  exact hn

theorem setPacket {packet : PacketSlot Core Item} (hheld : ¬s.Held d m)
    (howned : ∀ f, s.Owned d f → ¬s.Queued f m)
    (hlocked : ∀ fb f, s.Linked fb f → s.Locked d f → ¬s.Queued f m)
    : Kept d q s (s.setPacket m packet) where
  clock := UInt64.le_refl _
  held := by
    intro n hn
    have hne : n ≠ m := by
      rintro rfl
      exact hheld hn
    rw [Shared.Held, Shared.packet_setPacket_of_ne hne]
    exact hn
  lock := fun _ h => h
  linked := fun _ _ _ h => ⟨h, rfl⟩
  owned := fun f hf => ⟨rfl, fun _ hn => queued_setPacket (howned f hf) hn⟩
  used := fun _ _ h => h.of_slot rfl
  locked := fun fb f hf h => ⟨h, rfl, fun _ hn => queued_setPacket (hlocked fb f hf h) hn⟩
  holder := fun _ _ h h' => ⟨h, h'⟩

theorem setPacket_of_state {packet : PacketSlot Core Item} (hheld : ¬s.Held d m)
    (hqueued : ∀ f, ¬s.Queued f m) : Kept d q s (s.setPacket m packet) :=
  setPacket hheld (fun f _ => hqueued f) fun _ f _ _ => hqueued f

theorem setPacket_of_held {packet : PacketSlot Core Item} (hm : s.Held c m) (hne : c ≠ d)
    : Kept d q s (s.setPacket m packet) := by
  rw [Shared.Held] at hm
  apply setPacket_of_state
  . intro hheld
    rw [Shared.Held, hm, PacketState.held.injEq] at hheld
    exact hne hheld
  . intro f hqueued
    rw [Shared.Queued, hm] at hqueued
    cases hqueued

theorem setPacket_of_queued {packet : PacketSlot Core Item} (hm : s.Queued f m)
    (howned : ¬s.Owned d f) (hlocked : ∀ fb, s.Linked fb f → ¬s.Locked d f)
    : Kept d q s (s.setPacket m packet) := by
  have hsame (g : Item) (hg : s.Queued g m) : g = f := by
    rw [Shared.Queued] at hm hg
    rw [hm, PacketState.queued.injEq] at hg
    exact hg.symm
  apply setPacket
  . intro hheld
    rw [Shared.Queued] at hm
    rw [Shared.Held, hm] at hheld
    cases hheld
  . intro g hg hqueued
    exact howned (hsame g hqueued ▸ hg)
  . intro fb g hlinked hg hqueued
    cases hsame g hqueued
    exact hlocked fb hlinked hg

end Packets

variable [DecidableEq Item]

theorem setSlot {slot : FcbSlot Core Packet} (howned : ¬s.Owned d f)
    (hlinked : ∀ fb, s.lock fb = some d → s.Linked fb f →
      slot.state = .linked fb ∧ slot.freed = (s.slot f).freed)
    (hused : ∀ ptr ∈ q.found, ptr.fcb = f → s.Used ptr →
      (∃ fb, slot.state = .linked fb) ∧ slot.freed = (s.slot f).freed)
    (hlocked : ∀ fb, s.Linked fb f → s.Locked d f →
      slot.lock = some d ∧ slot.fcb.queue.fragments = s.fragments f)
    (hholder : ∀ fb, slot.state = .linked fb → slot.lock = some d → s.Linked fb f ∧ s.Locked d f)
    : Kept d q s (s.setSlot f slot) where
  clock := UInt64.le_refl _
  held := fun _ h => h
  lock := fun _ h => h
  linked := by
    intro fb g hlock hg
    by_cases hgf : g = f
    . subst hgf
      simpa [Shared.Linked] using hlinked fb hlock hg
    . simpa [Shared.Linked, hgf] using hg
  owned := by
    intro g hg
    have hgf : g ≠ f := by
      rintro rfl
      exact howned hg
    exact ⟨Shared.slot_setSlot_of_ne hgf, fun _ hm => hm⟩
  used := by
    intro ptr hptr h
    by_cases hf : ptr.fcb = f
    . rcases hused ptr hptr hf h with ⟨hstate, hfreed⟩
      refine ⟨?_, ?_⟩
      . simpa [Shared.Linked, hf] using hstate
      . simpa [hf, ← h.freed] using hfreed
    . refine ⟨?_, ?_⟩
      . simpa [Shared.Linked, hf] using h.linked
      . simpa [hf] using h.freed
  locked := by
    intro fb g hg hlock
    by_cases hgf : g = f
    . subst hgf
      rcases hlocked fb hg hlock with ⟨hlock', hfragments⟩
      refine ⟨?_, ?_, fun _ hm => hm⟩
      . simpa [Shared.Locked] using hlock'
      . simpa [Shared.fragments] using hfragments
    . refine ⟨?_, ?_, fun _ hm => hm⟩
      . simpa [Shared.Locked, hgf] using hlock
      . simp [Shared.fragments, hgf]
  holder := by
    intro fb g hg hlock
    by_cases hgf : g = f
    . subst hgf
      simp only [Shared.Linked, Shared.Locked, Shared.slot_setSlot_self] at hg hlock
      exact hholder fb hg hlock
    . simpa [Shared.Linked, Shared.Locked, hgf] using And.intro hg hlock

theorem setSlot_of_linked {slot : FcbSlot Core Packet} (hlinked : s.Linked fb f)
    (hstate : slot.state = (s.slot f).state) (hfreed : slot.freed = (s.slot f).freed)
    (hlock : ¬s.Locked d f) (hlock' : slot.lock ≠ some d) : Kept d q s (s.setSlot f slot) := by
  rw [Shared.Linked] at hlinked
  apply setSlot
  . rw [Shared.Owned, hlinked]
    simp
  . intro b _ hb
    exact ⟨hstate.trans hb, hfreed⟩
  . intro ptr _ _ _
    exact ⟨⟨fb, hstate.trans hlinked⟩, hfreed⟩
  . intro _ _ h
    exact absurd h hlock
  . intro _ _ h
    exact absurd h hlock'

theorem setSlot_of_owned {slot : FcbSlot Core Packet} (howned : s.Owned c f) (hne : c ≠ d)
    (hlock : ∀ fb, slot.state = .linked fb → slot.lock ≠ some d)
    : Kept d q s (s.setSlot f slot) := by
  rw [Shared.Owned] at howned
  have hlinked (fb : FragBucket) : ¬s.Linked fb f := by
    rw [Shared.Linked, howned]
    simp
  apply setSlot
  . intro h
    rw [Shared.Owned, howned, FcbState.owned.injEq] at h
    exact hne h
  . intro fb _ h
    exact absurd h (hlinked fb)
  . rintro ptr _ rfl h
    rcases h.linked with ⟨fb, h⟩
    exact absurd h (hlinked fb)
  . intro fb h _
    exact absurd h (hlinked fb)
  . intro fb h h'
    exact absurd h' (hlock fb h)

theorem setFcb_of_owned {fcb : fcb_t (FragQueue Packet)} (howned : s.Owned c f) (hne : c ≠ d)
    : Kept d q s (s.setFcb f fcb) := by
  apply setSlot_of_owned howned hne
  intro fb h
  rw [Shared.Owned] at howned
  rw [howned] at h
  cases h

theorem fcbCreate {mb : Mbuf} (hfree : (s.slot f).state = .free)
    : Kept d q s (s.fcbCreate c f mb) := by
  have hlinked (fb : FragBucket) : ¬s.Linked fb f := by
    rw [Shared.Linked, hfree]
    simp
  apply setSlot
  . rw [Shared.Owned, hfree]
    simp
  . intro fb _ h
    exact absurd h (hlinked fb)
  . rintro ptr _ rfl h
    rcases h.linked with ⟨fb, h⟩
    exact absurd h (hlinked fb)
  . intro fb h _
    exact absurd h (hlinked fb)
  . simp

theorem updateTimestamp {cycle : UInt64} (hlinked : s.Linked fb f)
    : Kept d q s (s.updateTimestamp f cycle) := by
  rw [Shared.Linked] at hlinked
  apply setSlot
  . rw [Shared.Owned, hlinked]
    simp
  . exact fun _ _ h => ⟨h, rfl⟩
  . exact fun _ _ _ _ => ⟨⟨fb, hlinked⟩, rfl⟩
  . exact fun _ _ h => ⟨h, rfl⟩
  . exact fun _ h h' => ⟨h, h'⟩

theorem setQueue {queue : FragQueue Packet} (hlinked : s.Linked fb f) (hlock : s.Locked c f)
    (hne : c ≠ d) : Kept d q s (s.setQueue f queue) := by
  have hnot : ¬s.Locked d f := by
    intro h
    rw [Shared.Locked, hlock, Option.some.injEq] at h
    exact hne h
  exact setSlot_of_linked hlinked rfl rfl hnot hnot

theorem fcbLock (hlinked : s.Linked fb f) (hfree : (s.slot f).lock = none) (hne : c ≠ d)
    : Kept d q s (s.fcbLock c f) := by
  refine setSlot_of_linked hlinked rfl rfl ?_ ?_
  . rw [Shared.Locked, hfree]
    simp
  . intro h
    rw [Option.some.injEq] at h
    exact hne h

theorem fcbUnlock (hlinked : s.Linked fb f) (hlock : s.Locked c f) (hne : c ≠ d)
    : Kept d q s (s.fcbUnlock f) := by
  refine setSlot_of_linked hlinked rfl rfl ?_ (by simp)
  intro h
  rw [Shared.Locked, hlock, Option.some.injEq] at h
  exact hne h

theorem hlistDel (hlock : s.lock fb = some c) (hlinked : s.Linked fb f) (hne : c ≠ d)
    (hfree : (s.slot f).lock = none) (hfound : ∀ ptr ∈ q.found, ptr.fcb ≠ f)
    : Kept d q s (s.hlistDel c fb f) := by
  rw [Shared.Linked] at hlinked
  apply setHash
  apply setSlot
  . rw [Shared.Owned, hlinked]
    simp
  . intro b hb h
    rw [Shared.Linked, hlinked, FcbState.linked.injEq] at h
    rw [← h, hlock, Option.some.injEq] at hb
    exact absurd hb hne
  . intro ptr hptr hf _
    exact absurd hf (hfound ptr hptr)
  . intro b _ h
    rw [Shared.Locked, hfree] at h
    cases h
  . simp

end Kept

section Step

variable [DecidableEq Item] [DecidableEq Packet] {FRAG_MAX_TIMEOUT : UInt64}

def Spares (FRAG_MAX_TIMEOUT : UInt64) (s : Shared Core Item Packet) (p q : Place Item Packet)
    : Prop :=
  ∀ cur i f rest timeout, p = ageNext cur i (f :: rest) timeout →
    timedOut FRAG_MAX_TIMEOUT cur (s.slot f).fcb = true →
    (s.slot f).lock = none ∧ ∀ ptr ∈ q.found, ptr.fcb ≠ f

theorem FragStep.kept (hne : c ≠ d) (hp : s.At c p) (hspares : Spares FRAG_MAX_TIMEOUT s p q)
    (hstep : FragStep FRAG_MAX_TIMEOUT c s p s' p') : Kept d q s s' := by
  have hlocked {f : Item} (hf : s.Locked c f) : ¬s.Locked d f := by
    intro h
    rw [Shared.Locked, hf, Option.some.injEq] at h
    exact hne h
  have howned {f : Item} (hf : s.Owned c f) : ¬s.Owned d f := by
    intro h
    rw [Shared.Owned] at hf h
    rw [hf, FcbState.owned.injEq] at h
    exact hne h
  cases hstep with
  | tick cycle hle => exact .tick hle
  | defrag m mb hnew =>
    apply Kept.setPacket_of_state
    . rw [Shared.Held, hnew]
      simp
    . intro f
      rw [Shared.Queued, hnew]
      simp
  | tableLock hfree | ageTrylock hfree => exact .tableLock hfree
  | foundStore => exact .updateTimestamp hp.2.2.1
  | create f hfree => exact .fcbCreate hfree
  | newStore => exact .setFcb_of_owned hp.2.2.owned hne
  | insert =>
    apply Kept.setHash
    apply Kept.setSlot_of_owned hp.2.2.owned hne
    intro fb _
    rw [hp.2.2.lock]
    simp
  | tableUnlock => exact .tableUnlock hp.2.1 hne
  | missUnlock => exact .tableUnlock hp.2 hne
  | destroy => exact .setPacket_of_held hp hne
  | hw2sw small mbuf hsw => exact .setPacket_of_held hp.1 hne
  | fcbLock hfree =>
    rcases hp.2.linked with ⟨fb, hlinked⟩
    exact .fcbLock hlinked hfree hne
  | processErr alloc queue hprocess =>
    rcases hp.2.1.linked with ⟨fb, hlinked⟩
    exact .setQueue hlinked hp.2.2.1 hne
  | processCached alloc queue hprocess | processReasm alloc queue freed reasm_mb hprocess =>
    rcases hp.2.1.linked with ⟨fb, hlinked⟩
    exact (Kept.setQueue hlinked hp.2.2.1 hne).trans (.setPacket_of_held hp.1 hne)
      fun _ => Shared.state_setFcb
  | destroyErr => exact .setPacket_of_held hp.1 hne
  | freefrags =>
    rcases hp.1.linked with ⟨fb, hlinked⟩
    apply Kept.setPacket_of_queued (hp.2.2.queued _ List.mem_cons_self)
    . exact Shared.not_owned_of_linked hlinked
    . exact fun _ _ => hlocked hp.2.1
  | freefragsEnd =>
    rcases hp.1.linked with ⟨fb, hlinked⟩
    exact .setQueue hlinked hp.2.1 hne
  | fcbUnlock =>
    rcases hp.1.linked with ⟨fb, hlinked⟩
    exact .fcbUnlock hlinked hp.2.1 hne
  | ageDead htimeout =>
    rcases hspares _ _ _ _ _ rfl htimeout with ⟨hfree, hfound⟩
    exact .hlistDel hp.2.1 (hp.2.2.1.linked _ List.mem_cons_self) hne hfree hfound
  | ageUnlock => exact .tableUnlock hp.2.1 hne
  | ageDestroy =>
    apply Kept.setPacket_of_queued (hp.2.2.2.1.queued _ List.mem_cons_self)
    . exact howned hp.2.1
    . exact fun _ hlinked _ => Shared.not_owned_of_linked hlinked hp.2.1
  | ageDestroyEnd => exact .setFcb_of_owned hp.2.1 hne
  | ageFree => exact .setSlot_of_owned hp.2.1 hne (by simp)
  | _ => exact .refl d q s

end Step

end SecFw.Defrag
