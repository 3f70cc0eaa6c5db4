import SecFw.Decode.Defrag

/-!
This module contains what one fragment can do to the queue of a control block, and the queue whose
fragments are known by their packets instead of by their descriptors.
-/

namespace SecFw.Decode

section Process

variable {fcb : Fcb} {mbuf : Mbuf} {alloc : Alloc}

theorem noteEnd_fragments {fcb' : Fcb} (h : noteEnd mbuf fcb = some fcb')
    : fcb'.fragments = fcb.fragments ∧ fcb'.fragments_tail = fcb.fragments_tail := by
  unfold noteEnd at h
  dsimp only at h
  split at h
  . split at h
    . cases h
    . cases h
      exact ⟨rfl, rfl⟩
  . split at h
    . split at h
      . cases h
      . cases h
        exact ⟨rfl, rfl⟩
    . cases h
      exact ⟨rfl, rfl⟩

theorem findPlace_congr {fcb' : Fcb} {offset : Int} (hfragments : fcb'.fragments = fcb.fragments)
    (htail : fcb'.fragments_tail = fcb.fragments_tail)
    : findPlace fcb' offset = findPlace fcb offset := by
  simp only [findPlace, hfragments, htail]

theorem findPlace_append (offset : Int) (htail : fcb.fragments_tail = fcb.fragments.getLast?)
    : (findPlace fcb offset).before ++ (findPlace fcb offset).after = fcb.fragments := by
  unfold findPlace
  split
  . next hnone =>
    rw [hnone, eq_comm, List.getLast?_eq_none_iff] at htail
    rw [htail]
    rfl
  . split
    . exact List.append_nil _
    . simp only [List.span_eq_takeWhile_dropWhile]
      exact List.takeWhile_append_dropWhile

theorem mem_findPlace {offset : Int} {f : Mbuf}
    (h : f ∈ (findPlace fcb offset).before ∨ f ∈ (findPlace fcb offset).after)
    : f ∈ fcb.fragments := by
  unfold findPlace at h
  split at h
  . simp at h
  . split at h
    . simpa using h
    . simp only [List.span_eq_takeWhile_dropWhile] at h
      cases h with
      | inl h => exact (List.takeWhile_sublist _).mem h
      | inr h => exact (List.dropWhile_sublist _).mem h

structure NewPacket (ms : List Mbuf) (reasm_mb : Mbuf) : Prop where
  pkt_space : reasm_mb.pkt_space = .PKTBUF_SW
  input_port : ∃ head ∈ ms, reasm_mb.input_port = head.input_port

inductive ProcessedAs (mbuf : Mbuf) (fcb : Fcb) (place : Place) (processed : Processed) : Prop where
  | destroyed (hdestroyed : processed.destroyed = true) (hret : processed.ret = none)
      (hfragments : processed.fcb.fragments = fcb.fragments)
      (htail : processed.fcb.fragments_tail = fcb.fragments_tail)
  | cached (hdestroyed : processed.destroyed = false) (hret : processed.ret = none)
      (hfragments : processed.fcb.fragments = place.before ++ mbuf :: place.after)
      (htail : processed.fcb.fragments_tail
        = if place.after.isEmpty then some mbuf else fcb.fragments_tail)
  | reassembled (reasm_mb : Mbuf) (hdestroyed : processed.destroyed = false)
      (hret : processed.ret = some reasm_mb) (hfragments : processed.fcb.fragments = [])
      (htail : processed.fcb.fragments_tail = none)
      (hnew : NewPacket (place.before ++ mbuf :: place.after) reasm_mb)

theorem fragDefragSetup_space {head new_mb : Mbuf} (h : fragDefragSetup alloc head fcb = some new_mb)
    : new_mb.pkt_space = .PKTBUF_SW ∧ new_mb.input_port = head.input_port := by
  unfold fragDefragSetup at h
  dsimp only at h
  split at h
  . cases h
  . split at h
    . cases h
    . cases h
      exact ⟨rfl, rfl⟩

theorem foldl_appendFragment_space (rest : List Mbuf) (reasm_mb : Mbuf)
    : (rest.foldl appendFragment reasm_mb).pkt_space = reasm_mb.pkt_space
      ∧ (rest.foldl appendFragment reasm_mb).input_port = reasm_mb.input_port := by
  induction rest generalizing reasm_mb with
  | nil => exact ⟨rfl, rfl⟩
  | cons next rest ih =>
    rw [List.foldl_cons]
    exact ih (appendFragment reasm_mb next)

theorem fragDefragReasm_cases (alloc : Alloc) (fcb : Fcb)
    : ((fragDefragReasm alloc fcb).2 = none ∧ (fragDefragReasm alloc fcb).1 = fcb)
      ∨ ∃ reasm_mb, (fragDefragReasm alloc fcb).2 = some reasm_mb
        ∧ (fragDefragReasm alloc fcb).1.fragments = []
        ∧ (fragDefragReasm alloc fcb).1.fragments_tail = none
        ∧ NewPacket fcb.fragments reasm_mb := by
  unfold fragDefragReasm
  split
  . exact Or.inl ⟨rfl, rfl⟩
  . next head rest hfragments =>
    dsimp only
    split
    . exact Or.inl ⟨rfl, rfl⟩
    . split
      . exact Or.inl ⟨rfl, rfl⟩
      . next new_mb hsetup =>
        apply Or.inr
        refine ⟨_, rfl, rfl, rfl, ?_⟩
        rcases fragDefragSetup_space hsetup with ⟨hspace, hport⟩
        have hfold := foldl_appendFragment_space rest
          (appendPacket new_mb (head.pkt.take head.pkt_totallen.toNat) head.pkt_totallen)
        constructor
        . exact hfold.1.trans hspace
        . refine ⟨head, ?_, hfold.2.trans hport⟩
          rw [hfragments]
          exact List.mem_cons_self

theorem enqueue_eq_ok {fcb' : Fcb} (h : enqueue mbuf fcb = .ok fcb')
    : ∃ noted, noteEnd mbuf fcb = some noted
        ∧ (findPlace noted mbuf.frag_offset).overlaps mbuf.frag_offset
            (mbuf.frag_offset + mbuf.frag_len) = false
        ∧ fcb' = insertFragment mbuf (findPlace noted mbuf.frag_offset) noted := by
  unfold enqueue at h
  split at h
  . contradiction
  . split at h
    . contradiction
    . next noted hnote =>
      dsimp only at h
      split at h
      . contradiction
      . next hoverlaps =>
        cases h
        exact ⟨noted, hnote, Bool.not_eq_true _ ▸ hoverlaps, rfl⟩

theorem enqueue_eq_error {fcb' : Fcb} (h : enqueue mbuf fcb = .error fcb')
    : fcb' = fcb ∧ (fcb.last_in &&& DEFRAG_COMPLETE ≠ 0 ∨ noteEnd mbuf fcb = none)
      ∨ fcb.last_in &&& DEFRAG_COMPLETE = 0 ∧ noteEnd mbuf fcb = some fcb' := by
  unfold enqueue at h
  split at h
  . next hcomplete =>
    cases h
    exact Or.inl ⟨rfl, Or.inl hcomplete⟩
  . next hcomplete =>
    split at h
    . next hnote =>
      cases h
      exact Or.inl ⟨rfl, Or.inr hnote⟩
    . next noted hnote =>
      dsimp only at h
      split at h
      . cases h
        exact Or.inr ⟨not_not.mp hcomplete, hnote⟩
      . contradiction

theorem fragDefragProcess_cases (alloc : Alloc) (mbuf : Mbuf) (fcb : Fcb)
    : ProcessedAs mbuf fcb (findPlace fcb mbuf.frag_offset) (fragDefragProcess alloc mbuf fcb) := by
  unfold fragDefragProcess
  cases henqueue : enqueue mbuf fcb with
  | error fcb' =>
    rcases enqueue_eq_error henqueue with ⟨rfl, -⟩ | ⟨-, hnote⟩
    . exact .destroyed rfl rfl rfl rfl
    . rcases noteEnd_fragments hnote with ⟨hfragments, htail⟩
      exact .destroyed rfl rfl hfragments htail
  | ok fcb'' =>
    rcases enqueue_eq_ok henqueue with ⟨fcb', hnote, -, hinsert⟩
    rcases noteEnd_fragments hnote with ⟨hfragments, htail⟩
    rw [findPlace_congr hfragments htail] at hinsert
    dsimp only
    split
    . rcases fragDefragReasm_cases alloc fcb'' with ⟨hnone, hkept⟩ | ⟨reasm_mb, hsome, hempty⟩
      . apply ProcessedAs.cached
        . rfl
        . exact hnone
        . dsimp only
          rw [hkept, hinsert]
          rfl
        . dsimp only
          rw [hkept, hinsert, ← htail]
          rfl
      . rw [hinsert] at hempty
        exact .reassembled reasm_mb rfl hsome (hinsert ▸ hempty.1) (hinsert ▸ hempty.2.1) hempty.2.2
    . rw [hinsert]
      exact .cached rfl rfl rfl (by rw [← htail]; rfl)

theorem mem_fragDefragProcess {f : Mbuf}
    (h : f ∈ (fragDefragProcess alloc mbuf fcb).fcb.fragments) : f = mbuf ∨ f ∈ fcb.fragments := by
  cases fragDefragProcess_cases alloc mbuf fcb with
  | destroyed _ _ hfragments =>
    rw [hfragments] at h
    exact Or.inr h
  | cached _ _ hfragments =>
    rw [hfragments, List.mem_append, List.mem_cons] at h
    rcases h with hbefore | hnew | hafter
    . exact Or.inr (mem_findPlace (Or.inl hbefore))
    . exact Or.inl hnew
    . exact Or.inr (mem_findPlace (Or.inr hafter))
  | reassembled reasm_mb _ _ hfragments =>
    rw [hfragments] at h
    cases h

end Process

structure FragQueue (Packet : Type) where
  fragments : List Packet
  status : UInt16
  total_fraglen : Int
  meat : Int
  last_in : UInt8

inductive Fate (Packet : Type) where
  -- `PACKET_DESTROY_ALL` is called for it
  | destroyed
  | cached
  -- `Frag_defrag_freefrags` is called for the queue `freed`
  | reassembled (freed : List Packet) (reasm_mb : Mbuf)

namespace FragQueue

variable {Packet : Type}

def empty : FragQueue Packet where
  fragments := []
  status := 0
  total_fraglen := 0
  meat := 0
  last_in := 0

def values (mbuf : Packet → Mbuf) (queue : FragQueue Packet) : Fcb where
  fragments := queue.fragments.map mbuf
  fragments_tail := (queue.fragments.map mbuf).getLast?
  status := queue.status
  total_fraglen := queue.total_fraglen
  meat := queue.meat
  last_in := queue.last_in

def update (fcb : Fcb) (fragments : List Packet) : FragQueue Packet where
  fragments := fragments
  status := fcb.status
  total_fraglen := fcb.total_fraglen
  meat := fcb.meat
  last_in := fcb.last_in

def insertAt (place : Place) (packet : Packet) (queue : FragQueue Packet) : List Packet :=
  queue.fragments.take place.before.length ++ packet :: queue.fragments.drop place.before.length

def process (alloc : Alloc) (mbuf : Packet → Mbuf) (packet : Packet) (queue : FragQueue Packet)
    : FragQueue Packet × Fate Packet :=
  let fcb := queue.values mbuf
  let processed := fragDefragProcess alloc (mbuf packet) fcb
  if processed.destroyed then
    (update processed.fcb queue.fragments, .destroyed)
  else
    let fragments := queue.insertAt (findPlace fcb (mbuf packet).frag_offset) packet
    match processed.ret with
    | none => (update processed.fcb fragments, .cached)
    | some reasm_mb => (update processed.fcb [], .reassembled fragments reasm_mb)

section Lemmas

variable {mbuf : Packet → Mbuf} {packet : Packet} {queue : FragQueue Packet} {alloc : Alloc}

theorem values_update {fcb : Fcb} {fragments : List Packet}
    (hfragments : fcb.fragments = fragments.map mbuf)
    (htail : fcb.fragments_tail = (fragments.map mbuf).getLast?)
    : (update fcb fragments).values mbuf = fcb := by
  cases fcb
  simp only at hfragments htail
  simp only [values, update, hfragments, htail]

theorem map_insertAt (offset : Int)
    : (queue.insertAt (findPlace (queue.values mbuf) offset) packet).map mbuf
        =
      (findPlace (queue.values mbuf) offset).before
        ++ mbuf packet :: (findPlace (queue.values mbuf) offset).after := by
  have happend : (findPlace (queue.values mbuf) offset).before
      ++ (findPlace (queue.values mbuf) offset).after = (queue.values mbuf).fragments :=
    findPlace_append offset rfl
  generalize findPlace (queue.values mbuf) offset = place at *
  have hmap : queue.fragments.map mbuf = place.before ++ place.after := happend.symm
  simp only [insertAt, List.map_append, List.map_cons, List.map_take, List.map_drop, hmap,
    List.take_left, List.drop_left]

theorem values_process (alloc : Alloc) (mbuf : Packet → Mbuf) (packet : Packet)
    (queue : FragQueue Packet)
    : ((queue.process alloc mbuf packet).1).values mbuf
        =
      (fragDefragProcess alloc (mbuf packet) (queue.values mbuf)).fcb := by
  unfold process
  cases fragDefragProcess_cases alloc (mbuf packet) (queue.values mbuf) with
  | destroyed hdestroyed _ hfragments htail =>
    simp only [hdestroyed, ↓reduceIte]
    exact values_update hfragments htail
  | cached hdestroyed hret hfragments htail =>
    simp only [hdestroyed, Bool.false_eq_true, ↓reduceIte, hret]
    apply values_update
    . rw [hfragments, map_insertAt]
    . rw [htail, map_insertAt]
      have happend : (findPlace (queue.values mbuf) (mbuf packet).frag_offset).before
          ++ (findPlace (queue.values mbuf) (mbuf packet).frag_offset).after
            = (queue.values mbuf).fragments :=
        findPlace_append _ rfl
      generalize findPlace (queue.values mbuf) (mbuf packet).frag_offset = place at *
      have hlast : (queue.values mbuf).fragments_tail = (queue.values mbuf).fragments.getLast? := rfl
      rw [hlast, ← happend]
      cases place.after with
      | nil => simp
      | cons a rest => simp [List.getLast?_append, List.getLast?_cons_cons]
  | reassembled reasm_mb hdestroyed hret hfragments htail =>
    simp only [hdestroyed, Bool.false_eq_true, ↓reduceIte, hret]
    exact values_update hfragments htail

theorem insertAt_perm (place : Place)
    : (queue.insertAt place packet).Perm (packet :: queue.fragments) := by
  apply List.perm_middle.trans
  rw [List.take_append_drop]

inductive FateOf (mbuf : Packet → Mbuf) (packet : Packet) (queue : FragQueue Packet)
    : FragQueue Packet × Fate Packet → Prop where
  | destroyed {queue' : FragQueue Packet} (hqueue : queue'.fragments = queue.fragments)
      : FateOf mbuf packet queue (queue', .destroyed)
  | cached {queue' : FragQueue Packet} (hqueue : queue'.fragments.Perm (packet :: queue.fragments))
      : FateOf mbuf packet queue (queue', .cached)
  | reassembled {queue' : FragQueue Packet} {freed : List Packet} {reasm_mb : Mbuf}
      (hqueue : queue'.fragments = []) (hfreed : freed.Perm (packet :: queue.fragments))
      (hnew : NewPacket (freed.map mbuf) reasm_mb)
      : FateOf mbuf packet queue (queue', .reassembled freed reasm_mb)

theorem process_cases (alloc : Alloc) (mbuf : Packet → Mbuf) (packet : Packet)
    (queue : FragQueue Packet) : FateOf mbuf packet queue (queue.process alloc mbuf packet) := by
  unfold process
  cases fragDefragProcess_cases alloc (mbuf packet) (queue.values mbuf) with
  | destroyed hdestroyed _ _ _ =>
    simp only [hdestroyed, ↓reduceIte]
    exact .destroyed rfl
  | cached hdestroyed hret _ _ =>
    simp only [hdestroyed, Bool.false_eq_true, ↓reduceIte, hret]
    exact .cached (insertAt_perm _)
  | reassembled reasm_mb hdestroyed hret _ _ hnew =>
    simp only [hdestroyed, Bool.false_eq_true, ↓reduceIte, hret]
    rw [← map_insertAt] at hnew
    exact .reassembled rfl (insertAt_perm _) hnew

end Lemmas

end FragQueue

end SecFw.Decode
