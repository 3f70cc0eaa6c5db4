import SecFw.Flow.Annotations

/-!
This module contains what holds in every state that the cores can reach on the flow table, for every
order of their steps: the items of the table are the flows of different connections, and an item in
use is never freed.
-/

namespace SecFw.Flow

open Place Interleaving

section Reachable

variable {Core Item : Type} [DecidableEq Item] {FLOW_MAX_TIMEOUT : UInt64}
  {s : Config Core (Shared Core Item) (Place Item)}

theorem holds_of_initial (h : Initial s) : (flowOutline Core Item FLOW_MAX_TIMEOUT).Holds s where
  shared := by
    have hlinked (f : Item) : ¬s.mem.Linked f := by
      rintro ⟨fb, hf⟩
      simp [h.hash] at hf
    have hpoints (m : MbufId) (f : Item) : ¬s.mem.PointsTo m f := fun hpt => hpt.1 (h.mbuf m)
    constructor
    . simp [h.hash]
    . simp [h.hash]
    . exact fun f g hf => absurd hf (hlinked f)
    . exact fun f hf => absurd hf (hlinked f)
    . exact fun f hf => absurd hf (hlinked f)
    . exact fun m f hpt => absurd hpt (hpoints m f)
  at' := by
    intro c
    rw [h.pc]
    trivial
  apart := by
    intro c d _
    simp [flowOutline, h.pc, owned]

theorem holds_of_reachable [DecidableEq Core]
    (h : Reachable (FlowStep FLOW_MAX_TIMEOUT) Initial s)
    : (flowOutline Core Item FLOW_MAX_TIMEOUT).Holds s :=
  (flowOutline Core Item FLOW_MAX_TIMEOUT).holds_of_reachable (fun _ => holds_of_initial) h

end Reachable

section Step

variable {Core Item : Type} {FLOW_MAX_TIMEOUT : UInt64} {s s' : Shared Core Item} {c : Core}
  {p p' : Place Item} {f : Item}

theorem Shared.linked_or_owned_of_uses (hat : s.At c p) (hf : f ∈ p.uses)
    : s.Linked f ∨ f ∈ p.owned := by
  cases p with
  | lookupItem m fb flow =>
    rw [uses, List.mem_singleton] at hf
    exact Or.inl ⟨fb, hf ▸ hat.2.2.1⟩
  | lookupUnlock m fb flow =>
    rw [uses, List.mem_singleton] at hf
    exact Or.inl ⟨fb, hf ▸ hat.2.2.1⟩
  | addLockNew m fb newf => exact Or.inr hf
  | addLock m fb newf => exact Or.inr hf
  | addFind m fb newf => exact Or.inr hf
  | addUnlock m fb newf =>
    rw [uses, List.mem_singleton] at hf
    exact Or.inl ⟨fb, hf ▸ hat.2.2.1⟩
  | addItem m fb newf flow =>
    rw [uses, List.mem_cons, List.mem_singleton] at hf
    cases hf with
    | inl hf => exact Or.inr (by simp [owned, hf])
    | inr hf => exact Or.inl ⟨fb, hf ▸ hat.2.2.2.1⟩
  | addItemUnlock m fb newf flow =>
    rw [uses, List.mem_cons, List.mem_singleton] at hf
    cases hf with
    | inl hf => exact Or.inr (by simp [owned, hf])
    | inr hf => exact Or.inl ⟨fb, hf ▸ hat.2.2.2.1⟩
  | addFree m newf flow =>
    rw [uses, List.mem_cons, List.mem_singleton] at hf
    cases hf with
    | inl hf => exact Or.inr (by simp [owned, hf])
    | inr hf => exact Or.inl (hf ▸ hat.2.2.1)
  | reference m f =>
    rw [uses, List.mem_singleton] at hf
    exact Or.inl (hf ▸ hat.2.1)
  | unlockItem m f =>
    rw [uses, List.mem_singleton] at hf
    exact Or.inl (hf ▸ hat.2.1)
  | _ => simp [uses] at hf

variable [DecidableEq Item]

theorem Shared.tuple_setItem {item : flow_item_t Core} (htuple : item.tuple = (s.item f).tuple)
    (g : Item) : ((s.setItem f item).item g).tuple = (s.item g).tuple := by
  by_cases hg : g = f
  . subst hg
    rw [item_setItem_self, htuple]
  . rw [item_setItem_of_ne hg]

theorem FlowStep.tuple (hstep : FlowStep FLOW_MAX_TIMEOUT c s p s' p') (hf : f ∉ s.pool)
    : (s'.item f).tuple = (s.item f).tuple := by
  cases hstep with
  | lookupFind | lookupItem | addLockNew | addFind | addItem | unlockItem | ageItem | ageUnlockDead
  | ageUnlockKeep =>
    apply Shared.tuple_setItem
    rfl
  | @addAlloc _ _ m fb newf cycle hpool =>
    have hne : f ≠ newf := by
      rintro rfl
      exact hf hpool
    simp [Shared.flowItemAlloc, Shared.setItem, hne]
  | reference =>
    rw [Shared.flowReference]
    split
    . rfl
    . apply Shared.tuple_setItem
      rfl
  | recycle =>
    rw [Shared.flowDeReference]
    split
    . rfl
    . apply Shared.tuple_setItem
      rfl
  | _ => rfl

end Step

section Example

def webRequest : Mbuf where
  magic_flag := MBUF_MAGIC_NUM
  pkt_space := .PKTBUF_HW
  pkt_totallen := 0
  pkt_ptr := 0
  pkt := []
  ethh := 0
  vlanh := 0
  network_header := 0
  transport_header := 0
  input_port := 0
  eth_dst := .replicate 6 0
  eth_src := .replicate 6 0
  sip := 0x0A000001
  dip := 0x0A000002
  sport := 40000
  dport := 80
  proto := 6
  vlan_idx := 0
  vlan_id := 0
  payload := 0
  frag_offset := 0
  frag_len := 0

def start : Shared Unit Bool where
  lock := fun _ => none
  hash := fun _ => []
  item := fun _ => newItem webRequest 0
  pool := Set.univ
  mbuf := fun _ => ⟨.free, webRequest, none⟩

def webBucket : Bucket := (tupleOf webRequest).bucket

def received : Shared Unit Bool :=
  (start.setMbuf 0 ⟨.queued, webRequest, none⟩).setState 0 (.held ())

def allocated : Shared Unit Bool :=
  (((received.tableLock () webBucket).tableUnlock webBucket).flowItemAlloc true webRequest 0).itemLock
    () true

def added : Shared Unit Bool :=
  -- `FlowGetFlowFromHash` has returned
  ((allocated.tableLock () webBucket).flowInsert webBucket true).tableUnlock webBucket

theorem reachable_unit {mem mem' : Shared Unit Bool} {p p' : Place Bool}
    (h : Reachable (FlowStep 0) Initial ⟨mem, fun _ => p⟩) (hstep : FlowStep 0 () mem p mem' p')
    : Reachable (FlowStep 0) Initial ⟨mem', fun _ => p'⟩ := by
  have hreach := h.step (.core () hstep)
  have hpc : Function.update (fun _ : Unit => p) () p' = fun _ => p' := by
    funext c
    simp
  rwa [hpc] at hreach

theorem reachable_added
    : Reachable (FlowStep 0) Initial (⟨added, fun _ => reference 0 true⟩ : Config Unit _ _) := by
  have hinit : Reachable (FlowStep 0) Initial (⟨start, fun _ => idle⟩ : Config Unit _ _) :=
    .init ⟨fun _ => rfl, fun _ => rfl, fun _ => trivial, fun _ => rfl, fun _ => rfl⟩
  have hreceived : Reachable (FlowStep 0) Initial
      (⟨received, fun _ => lookupLock 0 webBucket⟩ : Config Unit _ _) := by
    rw [webBucket, bucket_tupleOf]
    exact reachable_unit (reachable_unit hinit (.receive 0 webRequest rfl)) (.handlePacket 0 rfl)
  have hmissed := reachable_unit (reachable_unit hreceived (.lookupLock rfl)) (.lookupMiss rfl)
  have halloc := reachable_unit (reachable_unit hmissed .missUnlock) (.addAlloc true 0 trivial)
  have hallocated := reachable_unit halloc (.addLockNew (by simp [Shared.flowItemAlloc, newItem]))
  have hfree : allocated.lock webBucket = none := by
    simp [allocated, Shared.itemLock, Shared.setItem, Shared.flowItemAlloc]
  have hlocked := reachable_unit hallocated (.addLock hfree)
  exact reachable_unit (reachable_unit hlocked (.addInsert rfl)) .addUnlock

def webReply : Mbuf :=
  { webRequest with
    sip := webRequest.dip
    dip := webRequest.sip
    sport := webRequest.dport
    dport := webRequest.sport }

def replied : Shared Unit Bool :=
  (((((added.flowReference 0 true).itemUnlock true).setState 0 .queued).setMbuf 1
    ⟨.queued, webReply, none⟩).setState 1 (.held ()))

def answered : Shared Unit Bool :=
  -- `FlowGetFlowFromHash` has returned for the answer
  (((replied.tableLock () webBucket).updateTimestamp true 0).itemLock () true).tableUnlock webBucket

theorem runWithin_unit {P : Config Unit (Shared Unit Bool) (Place Bool) → Prop}
    {mem mem' : Shared Unit Bool} {p p' : Place Bool} {s : Config Unit _ _}
    (h : RunWithin (FlowStep 0) P s ⟨mem, fun _ => p⟩) (hstep : FlowStep 0 () mem p mem' p')
    (hP : P ⟨mem', fun _ => p'⟩) : RunWithin (FlowStep 0) P s ⟨mem', fun _ => p'⟩ := by
  have hpc : Function.update (fun _ : Unit => p) () p' = fun _ => p' := by
    funext c
    simp
  have hrun := h.step (.core () hstep) (hpc ▸ hP)
  rwa [hpc] at hrun

theorem runWithin_answered
    : RunWithin (FlowStep 0) (fun t => t.mem.Linked true)
        (⟨added, fun _ => reference 0 true⟩ : Config Unit _ _)
        ⟨answered, fun _ => reference 1 true⟩ := by
  have hadded : added.Linked true := ⟨webBucket, by simp [added, Shared.tableUnlock]⟩
  have hreferenced : (added.flowReference 0 true).Linked true := hadded
  have hswap : flowhashfn webReply.sip webReply.dip webReply.sport webReply.dport webReply.proto
      = webBucket := (bucket_tupleOf webReply).symm.trans (Tuple.bucket_swap (tupleOf webRequest))
  have hrequest : RunWithin (FlowStep 0) (fun t => t.mem.Linked true)
      (⟨added, fun _ => reference 0 true⟩ : Config Unit _ _)
      ⟨((added.flowReference 0 true).itemUnlock true).setState 0 .queued, fun _ => idle⟩ :=
    runWithin_unit (runWithin_unit (runWithin_unit (.refl hadded) .reference hreferenced) .unlockItem
      hreferenced) .deliver hreferenced
  have hreplied : RunWithin (FlowStep 0) (fun t => t.mem.Linked true)
      (⟨added, fun _ => reference 0 true⟩ : Config Unit _ _)
      ⟨replied, fun _ => lookupLock 1 webBucket⟩ := by
    rw [← hswap]
    exact runWithin_unit (runWithin_unit hrequest (.receive 1 webReply rfl) hreferenced)
      (.handlePacket 1 rfl) hreferenced
  have hlocked := runWithin_unit hreplied (.lookupLock rfl) hreferenced
  have hfound := runWithin_unit hlocked (.lookupFind 0 rfl) hreferenced
  exact runWithin_unit (runWithin_unit hfound (.lookupItem rfl) hreferenced) .lookupUnlock
    hreferenced

end Example

section Results

variable {Core Item : Type} [DecidableEq Core] [DecidableEq Item] {FLOW_MAX_TIMEOUT : UInt64}
  {s s' : Config Core (Shared Core Item) (Place Item)} {f : Item}

/-- `FlowGetFlowFromHash` has returned `f` for the packet. -/
def Resolves (s : Config Core (Shared Core Item) (Place Item)) (m : MbufId) (f : Item) : Prop :=
  ∃ c, s.pc c = reference m f

theorem tuple_of_runWithin (h : Reachable (FlowStep FLOW_MAX_TIMEOUT) Initial s)
    (hrun : RunWithin (FlowStep FLOW_MAX_TIMEOUT) (fun t => t.mem.Linked f) s s')
    : (s'.mem.item f).tuple = (s.mem.item f).tuple := by
  induction hrun with
  | refl => rfl
  | step hrun hstep _ ih =>
    have hcons := (holds_of_reachable (h.runWithin hrun)).shared
    rw [← ih]
    cases hstep with
    | core c hcore => exact hcore.tuple (hcons.pool f hrun.last)

theorem connection_of_resolves (h : Reachable (FlowStep FLOW_MAX_TIMEOUT) Initial s) {m : MbufId}
    (hf : Resolves s m f)
    : s.mem.Linked f
        ∧ (s.mem.item f).tuple.connection = (tupleOf (s.mem.mbuf m).mbuf).connection := by
  rcases hf with ⟨c, hc⟩
  have hat := (holds_of_reachable h).at' c
  rw [hc] at hat
  rcases hat with ⟨-, hlinked, hmatch, -⟩
  exact ⟨hlinked, flowMatch_iff.mp hmatch⟩

theorem flowTable_unique (h : Reachable (FlowStep FLOW_MAX_TIMEOUT) Initial s)
    : (∀ fb, (s.mem.hash fb).Nodup)
      ∧ (∀ fb, ∀ f ∈ s.mem.hash fb, fb = flowhashfn (s.mem.item f).sip (s.mem.item f).dip
          (s.mem.item f).sport (s.mem.item f).dport (s.mem.item f).protocol.toUInt8)
      ∧ (∀ f g, s.mem.Linked f → s.mem.Linked g →
          (s.mem.item f).tuple.SameConnection (s.mem.item g).tuple → f = g)
      ∧ (∀ m f, Resolves s m f → s.mem.Linked f)
      ∧ ∀ m f s' m' g, Resolves s m f →
          RunWithin (FlowStep FLOW_MAX_TIMEOUT) (fun t => t.mem.Linked f) s s' → Resolves s' m' g →
          (tupleOf (s.mem.mbuf m).mbuf).SameConnection (tupleOf (s'.mem.mbuf m').mbuf) → g = f := by
  have hcons := (holds_of_reachable h).shared
  refine ⟨hcons.nodup, ?_, ?_, fun m f hf => (connection_of_resolves h hf).1, ?_⟩
  . intro fb f hf
    exact (hcons.bucket fb f hf).symm
  . intro f g hf hg hsame
    exact hcons.unique f g hf hg (Tuple.connection_eq_iff.mpr hsame)
  . intro m f s' m' g hf hrun hg hsame
    have h' := h.runWithin hrun
    rcases connection_of_resolves h hf with ⟨-, hconn⟩
    rcases connection_of_resolves h' hg with ⟨hlinked, hconn'⟩
    apply (holds_of_reachable h').shared.unique g f hlinked hrun.last
    rw [hconn', tuple_of_runWithin h hrun, hconn, Tuple.connection_eq_iff.mpr hsame]

theorem flowTable_unique_added
    : ∃ f g, added.Linked f
        ∧ Resolves (⟨added, fun _ => reference 0 true⟩ : Config Unit _ _) 0 f
        ∧ Resolves (⟨answered, fun _ => reference 1 true⟩ : Config Unit _ _) 1 g
        ∧ g = f := by
  have hrequest : Resolves (⟨added, fun _ => reference 0 true⟩ : Config Unit _ _) 0 true := ⟨(), rfl⟩
  have hreply : Resolves (⟨answered, fun _ => reference 1 true⟩ : Config Unit _ _) 1 true := ⟨(), rfl⟩
  rcases flowTable_unique reachable_added with ⟨-, -, -, hlinked, hsame⟩
  exact ⟨true, true, hlinked 0 true hrequest, hrequest, hreply,
    hsame 0 true _ 1 true hrequest runWithin_answered hreply (Or.inr rfl)⟩

/-- Nobody can reach the item any more. -/
structure Unused (s : Config Core (Shared Core Item) (Place Item)) (f : Item) : Prop where
  linked : ¬s.mem.Linked f
  points : ∀ m, ¬s.mem.PointsTo m f
  uses : ∀ c, f ∉ (s.pc c).uses

theorem unused_of_pool (h : Reachable (FlowStep FLOW_MAX_TIMEOUT) Initial s)
    (hf : f ∈ s.mem.pool) : Unused s f := by
  have hholds := holds_of_reachable h
  have hlinked : ¬s.mem.Linked f := fun hlinked => hholds.shared.pool f hlinked hf
  refine ⟨hlinked, fun m hpoints => hlinked (hholds.shared.points m f hpoints).1, ?_⟩
  intro c huses
  cases Shared.linked_or_owned_of_uses (hholds.at' c) huses with
  | inl hl => exact hlinked hl
  | inr howned => exact (s.mem.private_of_owned (hholds.at' c) f howned).pool hf

theorem unused_of_timeout (h : Reachable (FlowStep FLOW_MAX_TIMEOUT) Initial s) {c : Core}
    {cur : UInt64} {i : Bucket} {timeout : List Item} (hc : s.pc c = ageFree cur i timeout)
    (hf : f ∈ timeout) : Unused s f ∧ (s.mem.item f).item_lock = none := by
  have hholds := holds_of_reachable h
  have hat := hholds.at' c
  rw [hc] at hat
  rcases hat.owned f hf with ⟨hpriv, hlock⟩
  have howned : f ∈ (s.pc c).owned := by
    rw [hc]
    exact hf
  refine ⟨⟨hpriv.linked, fun m hpoints => hpriv.linked (hholds.shared.points m f hpoints).1, ?_⟩,
    hlock⟩
  intro d huses
  by_cases hd : d = c
  . subst hd
    simp [hc, uses] at huses
  . cases Shared.linked_or_owned_of_uses (hholds.at' d) huses with
    | inl hl => exact hpriv.linked hl
    | inr howned' => exact hholds.apart d c hd howned' howned

theorem flowItems_safe (h : Reachable (FlowStep FLOW_MAX_TIMEOUT) Initial s)
    : (∀ f, s.mem.Linked f → (s.mem.item f).use_cnt = s.mem.refs f)
      ∧ (∀ f ∈ s.mem.pool, Unused s f)
      ∧ ∀ c cur i tf timeout, s.pc c = ageFree cur i (tf :: timeout) →
          Unused s tf ∧ (s.mem.item tf).item_lock = none := by
  refine ⟨(holds_of_reachable h).shared.use_cnt, fun f hf => unused_of_pool h hf, ?_⟩
  intro c cur i tf timeout hc
  exact unused_of_timeout h hc (by simp)

theorem flowItems_safe_added
    : ((added.flowReference 0 true).item true).use_cnt = (added.flowReference 0 true).refs true
      ∧ Unused (⟨added.flowReference 0 true, fun _ => unlockItem 0 true⟩ : Config Unit _ _) false := by
  have hreach := reachable_unit reachable_added .reference
  have hlinked : (added.flowReference 0 true).Linked true := ((holds_of_reachable hreach).at' ()).2.1
  have hpool : false ∈ (added.flowReference 0 true).pool := by
    rw [Shared.pool_flowReference]
    exact ⟨trivial, Bool.false_ne_true⟩
  have hsafe := flowItems_safe hreach
  exact ⟨hsafe.1 true hlinked, hsafe.2.1 false hpool⟩

end Results

end SecFw.Flow
