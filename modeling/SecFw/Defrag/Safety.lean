import SecFw.Defrag.Annotations

/-!
This module contains the proof that no core uses a control block that was freed, as long as
`Frag_defrag_timeout` does not find a block timed out that a core has not yet unlocked, and a run in
which it does.
-/

namespace SecFw.Defrag

open Place Decode Interleaving

section Results

variable {Core Item Packet : Type} {FRAG_MAX_TIMEOUT : UInt64}
  {s : Config Core (Shared Core Item Packet) (Place Item Packet)}

/--
When `Frag_defrag_timeout` takes a block out of the table, then no core has found or inserted the
block and not yet unlocked it.
-/
def Undisturbed (FRAG_MAX_TIMEOUT : UInt64)
    (s : Config Core (Shared Core Item Packet) (Place Item Packet)) (c : Core) : Prop :=
  ∀ cur i f rest timeout, s.pc c = ageNext cur i (f :: rest) timeout →
    timedOut FRAG_MAX_TIMEOUT cur (s.mem.slot f).fcb = true →
    ∀ d, ∀ ptr ∈ (s.pc d).found, ptr.fcb ≠ f

/-- No block is used that was freed, no fragment is queued or destroyed twice. -/
structure Safe (s : Config Core (Shared Core Item Packet) (Place Item Packet)) : Prop where
  uses : ∀ c, ∀ ptr ∈ (s.pc c).uses, (s.mem.slot ptr.fcb).freed = ptr.freed
  enqueues : ∀ m, (s.mem.packet m).enqueues ≤ 1
  destroys : ∀ m, (s.mem.packet m).destroys ≤ 1

theorem Place.found_of_holds {p : Place Item Packet} {ptr : FcbPtr Item} (h : ptr ∈ p.holds)
    : ptr ∈ p.found := by
  cases p <;> first | exact h | cases h

theorem Place.found_of_uses {p : Place Item Packet} {ptr : FcbPtr Item} (h : ptr ∈ p.uses)
    : ptr ∈ p.found := by
  cases p <;> first | exact h | cases h

theorem Shared.used_of_found {s : Shared Core Item Packet} {c : Core} {p : Place Item Packet}
    {ptr : FcbPtr Item} (hat : s.At c p) (hptr : ptr ∈ p.found) : s.Used ptr := by
  cases p with
  | tableUnlock m fb ptr' => exact Option.some.inj hptr ▸ hat.2.2
  | hw2sw m ptr' | fcbLock m ptr' => exact Option.some.inj hptr ▸ hat.2
  | process m ptr' | processErr m ptr' => exact Option.some.inj hptr ▸ hat.2.1
  | freefrags ptr' rest | fcbUnlock ptr' => exact Option.some.inj hptr ▸ hat.1
  | _ => cases hptr

theorem spares_of_undisturbed (hat : ∀ c, s.mem.Annotated c (s.pc c)) {c : Core}
    (hok : Undisturbed FRAG_MAX_TIMEOUT s c) (d : Core)
    : Spares FRAG_MAX_TIMEOUT s.mem (s.pc c) (s.pc d) := by
  intro cur i f rest timeout hpc htimeout
  have hfound := hok cur i f rest timeout hpc htimeout
  refine ⟨?_, hfound d⟩
  have hat' := (hat c).at'
  rw [hpc] at hat'
  have hlinked : s.mem.Linked i f := hat'.2.2.1.linked f List.mem_cons_self
  cases hlock : (s.mem.slot f).lock with
  | none => rfl
  | some e =>
    rcases (hat e).holder i f hlinked hlock with ⟨ptr, hptr, hf⟩
    exact absurd hf (hfound e ptr (Place.found_of_holds hptr))

theorem consistent_of_initial (h : Initial s) : s.mem.Consistent where
  nodup := by simp [h.hash]
  mem_hash := by simp [h.hash, Shared.Linked, h.slot]
  intact := by
    intro fb f hlinked
    rw [Shared.Linked, h.slot] at hlinked
    cases hlinked
  counted := by
    intro m
    rw [Shared.Counted, (h.packet m).1]
    exact (h.packet m).2

theorem annotated_of_initial (h : Initial s) (c : Core) : s.mem.Annotated c (s.pc c) := by
  rw [h.pc]
  refine ⟨trivial, ?_⟩
  intro fb f hlinked
  rw [Shared.Linked, h.slot] at hlinked
  cases hlinked

theorem Shared.Counted.le {packet : PacketSlot Core Item} (h : Counted packet)
    : packet.enqueues ≤ 1 ∧ packet.destroys ≤ 1 := by
  unfold Counted at h
  split at h <;> omega

theorem not_timedOut {fcb : fcb_t (FragQueue Packet)} {clock cur : UInt64} (hcur : cur ≤ clock)
    (htime : clock.toNat ≤ fcb.cycle.toNat + FRAG_MAX_TIMEOUT.toNat)
    : timedOut FRAG_MAX_TIMEOUT cur fcb = false := by
  rw [timedOut, decide_eq_false_iff_not]
  rintro ⟨hlater, hlong⟩
  rw [UInt64.le_iff_toNat_le] at hcur
  rw [gt_iff_lt, UInt64.lt_iff_toNat_lt] at hlater hlong
  rw [UInt64.toNat_sub_of_le _ _ (UInt64.le_iff_toNat_le.mpr hlater.le)] at hlong
  omega

theorem safe_of_annotated (hcons : s.mem.Consistent) (hat : ∀ c, s.mem.Annotated c (s.pc c)) : Safe s := by
  refine ⟨?_, fun m => (hcons.counted m).le.1, fun m => (hcons.counted m).le.2⟩
  intro c ptr hptr
  exact (Shared.used_of_found (hat c).at' (Place.found_of_uses hptr)).freed

variable [DecidableEq Core] [DecidableEq Item] [DecidableEq Packet]

theorem holds_of_undisturbed
    (h : ReachableUnder (FragStep FRAG_MAX_TIMEOUT) Initial (Undisturbed FRAG_MAX_TIMEOUT) s)
    : s.mem.Consistent ∧ ∀ c, s.mem.Annotated c (s.pc c) := by
  apply ReachableUnder.invariant Shared.Consistent (fun c s p => s.Annotated c p) ?_ ?_ h
  . exact fun _ hinit => ⟨consistent_of_initial hinit, annotated_of_initial hinit⟩
  . intro s c mem' p' hcons hat hok hcore
    have hspares := spares_of_undisturbed hat hok
    refine ⟨hcore.consistent hcons (hat c).at',
      ⟨hcore.at' hcons (hat c).at' (hspares c), fun _ _ => hcore.holder (hat c)⟩, ?_⟩
    intro d hd
    exact (hcore.kept hd.symm (hat c).at' (hspares d)).annotated (hat d)

theorem safe_of_undisturbed
    (h : ReachableUnder (FragStep FRAG_MAX_TIMEOUT) Initial (Undisturbed FRAG_MAX_TIMEOUT) s)
    : Safe s := by
  rcases holds_of_undisturbed h with ⟨hcons, hat⟩
  exact safe_of_annotated hcons hat

def Timely (FRAG_MAX_TIMEOUT : UInt64)
    (s : Config Core (Shared Core Item Packet) (Place Item Packet)) (_ : Core) : Prop :=
  ∀ d, ∀ ptr ∈ (s.pc d).found,
    s.mem.clock.toNat ≤ (s.mem.slot ptr.fcb).fcb.cycle.toNat + FRAG_MAX_TIMEOUT.toNat

theorem safe_of_timely
    (h : ReachableUnder (FragStep FRAG_MAX_TIMEOUT) Initial (Timely FRAG_MAX_TIMEOUT) s)
    : Safe s := by
  have hundisturbed : ReachableUnder (FragStep FRAG_MAX_TIMEOUT) Initial (Undisturbed FRAG_MAX_TIMEOUT) s := by
    apply h.weaken
    rintro t c ht htimely cur i f rest timeout hpc htimeout d ptr hptr rfl
    have hat := ((holds_of_undisturbed ht).2 c).at'
    rw [hpc] at hat
    rw [not_timedOut hat.1 (htimely d ptr hptr)] at htimeout
    cases htimeout
  rcases holds_of_undisturbed hundisturbed with ⟨hcons, hat⟩
  exact safe_of_annotated hcons hat

end Results

section Example

def firstFragment : Mbuf := { received (fragmentFrame 6 0x20 0) with defrag_id := 1328 }

theorem ip4FragHashfn_firstFragment : ip4FragHashfn firstFragment = 0 := by decide +kernel

def start : Shared Bool Unit Unit where
  clock := 1
  lock := fun _ => none
  hash := fun _ => []
  slot := fun _ => ⟨.free, 0, none, newFcb FragQueue.empty firstFragment 0⟩
  packet := fun _ => ⟨.new, 0, 0, firstFragment⟩

def places (p q : Place Unit Unit) : Bool → Place Unit Unit
  | false => p
  | true => q

def ptr : FcbPtr Unit := ⟨(), 0⟩

def created : Shared Bool Unit Unit :=
  ((start.receive false () firstFragment).tableLock false 0).fcbCreate false () firstFragment

def inserted : Shared Bool Unit Unit :=
  ((created.updateTimestamp () 1).fcbInsert 0 ()).tableUnlock 0

def converted : Mbuf := (packetHw2sw 0x100000 firstFragment).getD firstFragment

theorem packetHw2sw_firstFragment : packetHw2sw 0x100000 firstFragment = some converted := by
  have hsome : (packetHw2sw 0x100000 firstFragment).isSome = true := by decide +kernel
  rw [Option.isSome_iff_exists] at hsome
  rcases hsome with ⟨mbuf, hmbuf⟩
  rw [converted, hmbuf]
  rfl

def waiting : Shared Bool Unit Unit := inserted.setMbuf () converted

theorem update_places_false (p p' q : Place Unit Unit)
    : Function.update (places p q) false p' = places p' q := by
  funext c
  cases c <;> rfl

theorem update_places_true (p q q' : Place Unit Unit)
    : Function.update (places p q) true q' = places p q' := by
  funext c
  cases c <;> rfl

theorem first {mem mem' : Shared Bool Unit Unit} {p p' q : Place Unit Unit}
    (h : ReachableUnder (FragStep 16000000000) Initial (Undisturbed 16000000000) ⟨mem, places p q⟩)
    (hstep : FragStep 16000000000 false mem p mem' p')
    (hp : ∀ cur i rest timeout, p ≠ ageNext cur i rest timeout)
    : ReachableUnder (FragStep 16000000000) Initial (Undisturbed 16000000000)
        ⟨mem', places p' q⟩ := by
  have hok : Undisturbed 16000000000 ⟨mem, places p q⟩ false := by
    intro cur i f rest timeout hpc
    exact absurd hpc (hp _ _ _ _)
  rw [← update_places_false p]
  exact h.core false hok hstep

theorem second {mem mem' : Shared Bool Unit Unit} {p q q' : Place Unit Unit}
    (h : Reachable (FragStep 16000000000) Initial ⟨mem, places p q⟩)
    (hstep : FragStep 16000000000 true mem q mem' q')
    : Reachable (FragStep 16000000000) Initial ⟨mem', places p q'⟩ := by
  rw [← update_places_true p q]
  exact h.step (.core true hstep)

theorem reachable_waiting
    : ReachableUnder (FragStep 16000000000) Initial (Undisturbed 16000000000)
        ⟨waiting, places (fcbLock () ptr) idle⟩ := by
  have hinit : ReachableUnder (FragStep 16000000000) Initial (Undisturbed 16000000000)
      ⟨start, places idle idle⟩ := by
    apply ReachableUnder.init
    exact ⟨fun _ => rfl, fun _ => rfl, fun _ => rfl, fun _ => ⟨rfl, rfl, rfl⟩,
      fun c => by cases c <;> rfl⟩
  have hreceived := first hinit (.defrag () firstFragment rfl) (by simp)
  rw [ip4FragHashfn_firstFragment] at hreceived
  have hmissed := first (first hreceived (.tableLock rfl) (by simp)) (.miss rfl) (by simp)
  have hcreated := first hmissed (.create () rfl) (by simp)
  have hstored := first (first hcreated .newTouch (by simp)) .newStore (by simp)
  have hinserted := first (first hstored .insert (by simp)) .tableUnlock (by simp)
  exact first hinserted (.hw2sw 0x100000 converted packetHw2sw_firstFragment) (by simp)

theorem safe_of_undisturbed_locked
    : Safe (⟨waiting.fcbLock false (), places (process () ptr) idle⟩ : Config Bool _ _) := by
  exact safe_of_undisturbed (first reachable_waiting (.fcbLock rfl) (by simp))

theorem not_safe_of_reachable
    : ¬ ∀ s : Config Bool (Shared Bool Unit Unit) (Place Unit Unit),
        Reachable (FragStep 16000000000) Initial s → Safe s := by
  intro hall
  have hlate := second reachable_waiting.reachable (.tick 20000000000 (by decide))
  have hscan := second (second hlate .ageTimeout) (.ageTrylock rfl)
  have hdead := second hscan (.ageDead (by decide +kernel))
  have hfrags := second (second hdead .ageUnlock) .ageFrags
  have hfreed := second (second hfrags .ageDestroyEnd) .ageFree
  have huses := (hall _ hfreed).uses false ptr rfl
  cases huses

end Example

end SecFw.Defrag
