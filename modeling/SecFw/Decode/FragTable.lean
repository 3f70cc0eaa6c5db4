import SecFw.Decode.Packet
import SecFw.Decode.FragQueue
import SecFw.HashChains.Basic

/-!
This module contains the table of the datagrams that are being reassembled, and the proof of what
the fragments on one control block have in common.
-/

namespace SecFw.Decode

open HashChains

abbrev FRAG_BUCKET_NUM : Nat := 1024

def FRAG_BUCKET_MASK : UInt32 := 1023

abbrev FragBucket : Type := Fin FRAG_BUCKET_NUM

structure fcb_t (Queue : Type) where
  -- `fcb_t`, its `protocol` and ports are neither written nor read by any function
  sip : UInt32
  dip : UInt32
  id : UInt16
  cycle : UInt64
  queue : Queue

abbrev FragTable (Queue : Type) : Type := Chains FragBucket (fcb_t Queue)

abbrev JHASH_GOLDEN_RATIO : UInt32 := 0x9e3779b9

def jhash3words (a b c initval : UInt32) : UInt32 :=
  let a := a + JHASH_GOLDEN_RATIO
  let b := b + JHASH_GOLDEN_RATIO
  let c := c + initval
  let a := a - b; let a := a - c; let a := a ^^^ (c >>> 13)
  let b := b - c; let b := b - a; let b := b ^^^ (a <<< 8)
  let c := c - a; let c := c - b; let c := c ^^^ (b >>> 13)
  let a := a - b; let a := a - c; let a := a ^^^ (c >>> 12)
  let b := b - c; let b := b - a; let b := b ^^^ (a <<< 16)
  let c := c - a; let c := c - b; let c := c ^^^ (b >>> 5)
  let a := a - b; let a := a - c; let a := a ^^^ (c >>> 3)
  let b := b - c; let b := b - a; let b := b ^^^ (a <<< 10)
  let c := c - a; let c := c - b; let c := c ^^^ (b >>> 15)
  c

abbrev FragKey : Type := UInt32 × UInt32 × UInt16

namespace fcb_t

variable {Queue : Type}

def key (fcb : fcb_t Queue) : FragKey := (fcb.sip, fcb.dip, fcb.id)

end fcb_t

def fragKey (mb : Mbuf) : FragKey := (mb.sip, mb.dip, mb.defrag_id)

theorem toNat_and_frag_mask_lt (h : UInt32) : (h &&& FRAG_BUCKET_MASK).toNat < FRAG_BUCKET_NUM := by
  rw [UInt32.toNat_and]
  exact Nat.lt_of_le_of_lt Nat.and_le_right (by decide)

def fragHash (key : FragKey) : FragBucket :=
  ⟨(jhash3words key.1 key.2.1 key.2.2.toUInt32 0 &&& FRAG_BUCKET_MASK).toNat,
    toNat_and_frag_mask_lt _⟩

def ip4FragHashfn (mb : Mbuf) : FragBucket := fragHash (fragKey mb)

section Table

variable {Queue : Type}

def ip4FragMatch (fcb : fcb_t Queue) (mb : Mbuf) : Bool :=
  fcb.id = mb.defrag_id ∧ fcb.sip = mb.sip ∧ fcb.dip = mb.dip

def fragFind (bucket : List (fcb_t Queue)) (mb : Mbuf) (now : UInt64)
    : Option (Focus (fcb_t Queue)) :=
  -- `FragFind` at the time `now`
  (find (ip4FragMatch · mb) bucket).map fun focus => focus.set { focus.entry with cycle := now }

def newFcb (queue : Queue) (mb : Mbuf) (now : UInt64) : fcb_t Queue where
  -- `fcb_create` and the first timestamp, the queue is zeroed
  sip := mb.sip
  dip := mb.dip
  id := mb.defrag_id
  cycle := now
  queue := queue

def fragFindOrCreate (empty : Queue) (bucket : List (fcb_t Queue)) (mb : Mbuf) (now : UInt64)
    (fcb_alloc : Bool) : Option (Focus (fcb_t Queue)) :=
  match fragFind bucket mb now with
  | some focus => some focus
  | none => if fcb_alloc then some ⟨[], newFcb empty mb now, bucket⟩ else none

def timedOut (FRAG_MAX_TIMEOUT current_cycle : UInt64) (fcb : fcb_t Queue) : Bool :=
  current_cycle > fcb.cycle ∧ current_cycle - fcb.cycle > FRAG_MAX_TIMEOUT

def fragDefragTimeout (FRAG_MAX_TIMEOUT current_cycle : UInt64) (trylock : FragBucket → Bool)
    (table : FragTable Queue) : FragTable Queue :=
  -- a bucket whose lock is held is left out
  fun i =>
    if trylock i then
      (table i).filter fun fcb => ¬ timedOut FRAG_MAX_TIMEOUT current_cycle fcb
    else
      table i

end Table

abbrev MEM_POOL_SMALL_BUFFER_SIZE : UInt32 := 2048

def mem2kAlloc (small : UInt64) (alloc_size : UInt32) : UInt64 :=
  -- `small` is the next small buffer, 0 for none
  if alloc_size > MEM_POOL_SMALL_BUFFER_SIZE - MEM_POOL_SLICE_CTRL_SIZE then 0 else small

def packetHw2sw (small : UInt64) (mbuf : Mbuf) : Option Mbuf :=
  -- without a result for `SEC_NO`
  match mbuf.pkt_space with
  | .PKTBUF_SW => some mbuf
  | .PKTBUF_HW =>
    let pkt_buf_sw := mem2kAlloc small mbuf.pkt_totallen.toUInt32
    if pkt_buf_sw = 0 then
      none
    else
      let pkt_buf_hw := mbuf.pkt_ptr
      let mbuf := { mbuf with
        pkt_space := .PKTBUF_SW
        pkt_ptr := pkt_buf_sw
        pkt := mbuf.pkt.take mbuf.pkt_totallen.toNat }
      some (packetHeaderPtrAdjust mbuf pkt_buf_hw pkt_buf_sw)

structure DefragEnv where
  now : UInt64
  fcb_alloc : Bool
  small : UInt64
  alloc : Alloc

def fragDefragBegin (env : DefragEnv) (mbuf : Mbuf) (fcb : Fcb) : Fcb × Option Mbuf :=
  -- for a fragment that is destroyed nothing is returned
  match packetHw2sw env.small mbuf with
  | none => (fcb, none)
  | some mbuf =>
    let processed := fragDefragProcess env.alloc mbuf fcb
    (processed.fcb, processed.ret)

def defrag (env : DefragEnv) (table : FragTable Fcb) (mb : Mbuf) : FragTable Fcb × Option Mbuf :=
  let hash := ip4FragHashfn mb
  match fragFindOrCreate fcbCreate (table hash) mb env.now env.fcb_alloc with
  | none => (table, none)
  | some focus =>
    let (queue, ret) := fragDefragBegin env mb focus.entry.queue
    (Function.update table hash (focus.set { focus.entry with queue := queue }).plug, ret)

section Search

variable {Queue : Type} {empty : Queue} {table : FragTable Queue} {bucket : List (fcb_t Queue)}
  {fcb : fcb_t Queue} {focus : Focus (fcb_t Queue)} {mb : Mbuf} {now : UInt64} {fcb_alloc : Bool}

theorem ip4FragMatch_iff : ip4FragMatch fcb mb = true ↔ fcb.key = fragKey mb := by
  simp only [ip4FragMatch, fcb_t.key, fragKey, decide_eq_true_eq, Prod.mk.injEq]
  tauto

theorem fragFindOrCreate_cases
    (h : fragFindOrCreate empty bucket mb now fcb_alloc = some focus)
    : (∃ found : Focus (fcb_t Queue), found.plug = bucket ∧ found.entry.key = fragKey mb
        ∧ focus = found.set { found.entry with cycle := now })
      ∨ (focus = ⟨[], newFcb empty mb now, bucket⟩ ∧ ∀ fcb ∈ bucket, fcb.key ≠ fragKey mb) := by
  unfold fragFindOrCreate fragFind at h
  cases hfind : find (ip4FragMatch · mb) bucket with
  | some found =>
    rw [hfind] at h
    cases h
    rcases find_eq_some hfind with ⟨hplug, hmatch⟩
    apply Or.inl
    exact ⟨found, hplug, ip4FragMatch_iff.mp hmatch, rfl⟩
  | none =>
    rw [hfind] at h
    simp only [Option.map_none] at h
    split at h
    . cases h
      apply Or.inr
      refine ⟨rfl, ?_⟩
      intro fcb hfcb hkey
      have hmiss := find_eq_none hfind fcb hfcb
      rw [ip4FragMatch_iff.mpr hkey] at hmiss
      cases hmiss
    . cases h

theorem placed_fragFindOrCreate {queue : Queue} (h : Placed fragHash fcb_t.key table)
    (hfind : fragFindOrCreate empty (table (ip4FragHashfn mb)) mb now fcb_alloc = some focus)
    : Placed fragHash fcb_t.key
        (Function.update table (ip4FragHashfn mb)
          (focus.set { focus.entry with queue := queue }).plug) := by
  rcases fragFindOrCreate_cases hfind with ⟨found, hplug, _, rfl⟩ | ⟨rfl, hnew⟩
  . exact h.set (a := { found.entry with cycle := now, queue := queue }) hplug rfl
  . exact h.insert { newFcb empty mb now with queue := queue } hnew

theorem placed_fragDefragTimeout {FRAG_MAX_TIMEOUT current_cycle : UInt64}
    {trylock : FragBucket → Bool} (h : Placed fragHash fcb_t.key table)
    : Placed fragHash fcb_t.key
        (fragDefragTimeout FRAG_MAX_TIMEOUT current_cycle trylock table) := by
  apply h.sublist
  intro b
  unfold fragDefragTimeout
  split
  . exact List.filter_sublist
  . exact List.Sublist.refl _

end Search

section Queued

variable {fcb : Fcb} {mbuf f : Mbuf} {alloc : Alloc}

theorem packetHw2sw_fields {small : UInt64} {mbuf' : Mbuf} (h : packetHw2sw small mbuf = some mbuf')
    : fragKey mbuf' = fragKey mbuf ∧ mbuf'.proto = mbuf.proto := by
  unfold packetHw2sw at h
  split at h
  . cases h
    exact ⟨rfl, rfl⟩
  . dsimp only at h
    split at h
    . cases h
    . cases h
      exact ⟨rfl, rfl⟩

theorem packetHw2sw_space {small : UInt64} {mbuf' : Mbuf} (h : packetHw2sw small mbuf = some mbuf')
    : mbuf'.pkt_space = .PKTBUF_SW ∧ mbuf'.input_port = mbuf.input_port := by
  unfold packetHw2sw at h
  split at h
  . next hspace =>
    cases h
    exact ⟨hspace, rfl⟩
  . dsimp only at h
    split at h
    . cases h
    . cases h
      exact ⟨rfl, rfl⟩

theorem mem_fragDefragBegin {env : DefragEnv} (h : f ∈ (fragDefragBegin env mbuf fcb).1.fragments)
    : (fragKey f = fragKey mbuf ∧ f.proto = mbuf.proto) ∨ f ∈ fcb.fragments := by
  unfold fragDefragBegin at h
  split at h
  . exact Or.inr h
  . next mbuf' hhw2sw =>
    cases mem_fragDefragProcess h with
    | inl h =>
      apply Or.inl
      rw [h]
      exact packetHw2sw_fields hhw2sw
    | inr h => exact Or.inr h

end Queued

section Runs

inductive FragCall where
  | defrag (env : DefragEnv) (mb : Mbuf)
  | timeout (current_cycle : UInt64) (trylock : FragBucket → Bool)

def FragCall.run (FRAG_MAX_TIMEOUT : UInt64) (table : FragTable Fcb) : FragCall → FragTable Fcb
  | .defrag env mb => (Decode.defrag env table mb).1
  | .timeout current_cycle trylock =>
    fragDefragTimeout FRAG_MAX_TIMEOUT current_cycle trylock table

/-- The tables of all runs whose calls meet a condition. -/
inductive FragRun (FRAG_MAX_TIMEOUT : UInt64) (ok : FragTable Fcb → FragCall → Prop)
    : FragTable Fcb → Prop where
  | init : FragRun FRAG_MAX_TIMEOUT ok fun _ => []
  | call {table : FragTable Fcb} (h : FragRun FRAG_MAX_TIMEOUT ok table) (call : FragCall)
      (hok : ok table call) : FragRun FRAG_MAX_TIMEOUT ok (call.run FRAG_MAX_TIMEOUT table)

def Unmixed (table : FragTable Fcb) : Prop :=
  ∀ b, ∀ fcb ∈ table b, ∀ f ∈ fcb.queue.fragments, ∀ f' ∈ fcb.queue.fragments,
    f.sip = f'.sip ∧ f.dip = f'.dip ∧ f.defrag_id = f'.defrag_id ∧ f.proto = f'.proto

/-- The datagrams in the table are kept apart. -/
def Separated (table : FragTable Fcb) : Prop := Unmixed table ∧ AtMostOne fcb_t.key table

/-- The fragments that are queued on the control block found for `mb` have its protocol. -/
def SameProtocol (table : FragTable Fcb) : FragCall → Prop
  | .defrag _ mb => ∀ fcb ∈ table (ip4FragHashfn mb), ip4FragMatch fcb mb = true →
    ∀ f ∈ fcb.queue.fragments, f.proto = mb.proto
  | .timeout _ _ => True

structure Homogeneous (fcb : fcb_t Fcb) : Prop where
  key : ∀ f ∈ fcb.queue.fragments, fragKey f = fcb.key
  proto : ∀ f ∈ fcb.queue.fragments, ∀ f' ∈ fcb.queue.fragments, f.proto = f'.proto

variable {FRAG_MAX_TIMEOUT : UInt64} {table : FragTable Fcb} {ok : FragTable Fcb → FragCall → Prop}

theorem placed_run (h : Placed fragHash fcb_t.key table) (call : FragCall)
    : Placed fragHash fcb_t.key (call.run FRAG_MAX_TIMEOUT table) := by
  cases call with
  | defrag env mb =>
    simp only [FragCall.run, defrag]
    split
    . exact h
    . next focus hfind => exact placed_fragFindOrCreate h hfind
  | timeout current_cycle trylock => exact placed_fragDefragTimeout h

theorem atMostOne_of_fragRun (h : FragRun FRAG_MAX_TIMEOUT ok table)
    : AtMostOne fcb_t.key table := by
  have hplaced : Placed fragHash fcb_t.key table := by
    induction h with
    | init => exact Placed.empty
    | call _ call _ ih => exact placed_run ih call
  exact hplaced.atMostOne

theorem Homogeneous.fragDefragBegin {fcb : fcb_t Fcb} {mb : Mbuf} {env : DefragEnv}
    {now : UInt64} (h : Homogeneous fcb) (hkey : fcb.key = fragKey mb)
    (hproto : ∀ f ∈ fcb.queue.fragments, f.proto = mb.proto)
    : Homogeneous
        { fcb with cycle := now, queue := (fragDefragBegin env mb fcb.queue).1 } := by
  have hqueued (f : Mbuf) (hf : f ∈ (Decode.fragDefragBegin env mb fcb.queue).1.fragments)
      : fragKey f = fcb.key ∧ f.proto = mb.proto := by
    cases mem_fragDefragBegin hf with
    | inl hnew => exact ⟨hnew.1.trans hkey.symm, hnew.2⟩
    | inr hold => exact ⟨h.key f hold, hproto f hold⟩
  constructor
  . intro f hf
    exact (hqueued f hf).1
  . intro f hf f' hf'
    rw [(hqueued f hf).2, (hqueued f' hf').2]

theorem homogeneous_defrag {env : DefragEnv} {mb : Mbuf}
    (h : ∀ b, ∀ fcb ∈ table b, Homogeneous fcb) (hok : SameProtocol table (.defrag env mb))
    : ∀ b, ∀ fcb ∈ (defrag env table mb).1 b, Homogeneous fcb := by
  unfold defrag
  dsimp only
  split
  . exact h
  . next focus hfind =>
    intro b fcb hfcb
    by_cases hb : b = ip4FragHashfn mb
    . subst hb
      dsimp only at hfcb
      rw [Function.update_self, mem_plug] at hfcb
      rcases fragFindOrCreate_cases hfind with ⟨found, hplug, hkey, rfl⟩ | ⟨rfl, _⟩
      . have hold (x : fcb_t Fcb) (hx : x ∈ found.plug) : Homogeneous x := by
          rw [hplug] at hx
          exact h _ x hx
        rcases hfcb with hbefore | rfl | hafter
        . exact hold fcb (mem_plug.mpr (Or.inl hbefore))
        . have hentry : found.entry ∈ found.plug := mem_plug.mpr (Or.inr (Or.inl rfl))
          apply (hold _ hentry).fragDefragBegin hkey
          rw [hplug] at hentry
          exact hok _ hentry (ip4FragMatch_iff.mpr hkey)
        . exact hold fcb (mem_plug.mpr (Or.inr (Or.inr hafter)))
      . rcases hfcb with hbefore | rfl | hafter
        . cases hbefore
        . have hempty : Homogeneous (newFcb fcbCreate mb env.now) := by
            constructor <;> simp [newFcb, fcbCreate]
          apply hempty.fragDefragBegin rfl
          simp [newFcb, fcbCreate]
        . exact h _ fcb hafter
    . dsimp only at hfcb
      rw [Function.update_of_ne hb] at hfcb
      exact h b fcb hfcb

theorem homogeneous_run {call : FragCall} (h : ∀ b, ∀ fcb ∈ table b, Homogeneous fcb)
    (hok : SameProtocol table call)
    : ∀ b, ∀ fcb ∈ call.run FRAG_MAX_TIMEOUT table b, Homogeneous fcb := by
  cases call with
  | defrag env mb => exact homogeneous_defrag h hok
  | timeout current_cycle trylock =>
    intro b fcb hfcb
    simp only [FragCall.run, fragDefragTimeout] at hfcb
    split at hfcb
    . exact h b fcb (List.mem_filter.mp hfcb).1
    . exact h b fcb hfcb

/-- Datagrams are kept apart as long as no fragment meets a queue of another protocol. -/
theorem separated_of_fragRun (h : FragRun FRAG_MAX_TIMEOUT SameProtocol table)
    : Separated table := by
  refine ⟨?_, atMostOne_of_fragRun h⟩
  have hhomogeneous : ∀ b, ∀ fcb ∈ table b, Homogeneous fcb := by
    induction h with
    | init =>
      intro b fcb hfcb
      cases hfcb
    | call _ call hok ih => exact homogeneous_run ih hok
  intro b fcb hfcb f hf f' hf'
  have hfcb := hhomogeneous b fcb hfcb
  have hkey := (hfcb.key f hf).trans (hfcb.key f' hf').symm
  simp only [fragKey, Prod.mk.injEq] at hkey
  exact ⟨hkey.1, hkey.2.1, hkey.2.2, hfcb.proto f hf f' hf'⟩

def fragmentFrame (proto flags ip_off : UInt8) : List UInt8 :=
  [0x88, 0, 0, 0, 0, 1, 0x88, 0, 0, 0, 0, 2, 0x08, 0x00,
    0x45, 0, 0, 28, 0, 7, flags, ip_off, 64, proto, 0, 0, 10, 0, 0, 1, 10, 0, 0, 2,
    0x10, 0, 0x20, 0, 0, 16, 0, 0]

def received (frame : List UInt8) : Mbuf :=
  match decode (octRxProcessWork frame 0x1000 0) with
  | some (.defrag mbuf) => mbuf
  | _ => octRxProcessWork frame 0x1000 0

def richEnv : DefragEnv where
  now := 1
  fcb_alloc := true
  small := 0x100000
  alloc := ⟨true, 0x200000⟩

def tcpTable : FragTable Fcb := (defrag richEnv (fun _ => []) (received (fragmentFrame 6 0x20 0))).1

theorem fragRun_tcpTable (ok : FragTable Fcb → FragCall → Prop)
    (hok : ok (fun _ => []) (.defrag richEnv (received (fragmentFrame 6 0x20 0))))
    : FragRun 16000000000 ok tcpTable :=
  FragRun.call .init (.defrag richEnv (received (fragmentFrame 6 0x20 0))) hok

theorem separated_tcpTable
    : FragRun 16000000000 SameProtocol
        (defrag richEnv tcpTable (received (fragmentFrame 6 0x20 1))).1
      ∧ Separated (defrag richEnv tcpTable (received (fragmentFrame 6 0x20 1))).1 := by
  have hfirst : FragRun 16000000000 SameProtocol tcpTable := by
    apply fragRun_tcpTable
    intro fcb hfcb
    cases hfcb
  have hsame : ∀ fcb ∈ tcpTable (ip4FragHashfn (received (fragmentFrame 6 0x20 1))),
      ip4FragMatch fcb (received (fragmentFrame 6 0x20 1)) = true →
      ∀ f ∈ fcb.queue.fragments, f.proto = (received (fragmentFrame 6 0x20 1)).proto := by
    decide +kernel
  have hrun := hfirst.call (.defrag richEnv (received (fragmentFrame 6 0x20 1))) hsame
  exact ⟨hrun, separated_of_fragRun hrun⟩

theorem not_separated_of_fragRun
    : ¬ ∀ table, FragRun 16000000000 (fun _ _ => True) table → Separated table := by
  intro hall
  have hrun := FragRun.call (fragRun_tcpTable (fun _ _ => True) trivial)
    (.defrag richEnv (received (fragmentFrame 17 0x20 1))) trivial
  have hmixed : ∃ fcb ∈ (defrag richEnv tcpTable (received (fragmentFrame 17 0x20 1))).1
      (ip4FragHashfn (received (fragmentFrame 17 0x20 1))),
      ∃ f ∈ fcb.queue.fragments, ∃ f' ∈ fcb.queue.fragments, f.proto ≠ f'.proto := by
    decide +kernel
  rcases hmixed with ⟨fcb, hfcb, f, hf, f', hf', hne⟩
  exact hne ((hall _ hrun).1 _ fcb hfcb f hf f' hf').2.2.2

end Runs

end SecFw.Decode
