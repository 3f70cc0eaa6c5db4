import SecFw.LinkedRing.Basic

/-!
This module contains the `sos` allocator. The formula for the address of a slice multiplies the
number of the chain with the position in the chain, so that every chain of a size class starts with
the same slice.
-/

namespace SecFw.Common

open LinkedRing

abbrev SOS_SIZE_NUM : Nat := 12
abbrev SOS_MEM_CHAIN_INTERNAL_NUM : Nat := 4

abbrev SOS_MEM_POOL_SIZE : UInt32 := 1 * 1024 * 1024 * 50
abbrev SOS_MEM_BLOCK_MAX : Nat := 4096

abbrev SOS_MEM_SLICE_HEAD_SIZE : Nat := 32
abbrev SOS_MEM_TAIL_MAGIC_SIZE : Nat := 4

abbrev SOS_MEM_POOL_REGION_SIZE : Nat := 99968

abbrev SOS_MEM_HEAD_MAGIC : UInt32 := 0x87654321

abbrev SizeId : Type := Fin SOS_SIZE_NUM

abbrev ChainId : Type := Fin SOS_MEM_CHAIN_INTERNAL_NUM

structure SosMemSize where
  size : UInt32
  init_num : UInt32
  deriving DecidableEq

def sosMemSize : Vector SosMemSize SOS_SIZE_NUM :=
  -- the last entry is not in the initializer
  #v[⟨16, 4096⟩, ⟨32, 4096⟩, ⟨64, 4096⟩, ⟨96, 2048⟩, ⟨128, 2048⟩, ⟨256, 1024⟩, ⟨512, 512⟩,
    ⟨1024, 256⟩, ⟨2048, 128⟩, ⟨4096, 64⟩, ⟨8192, 32⟩, ⟨0, 0⟩]

theorem get_sosMemSize (size_id : SizeId) : sosMemSize.get size_id = sosMemSize[size_id] := rfl

def sliceWholeSize (size_id : SizeId) : UInt32 :=
  sosMemSize[size_id].size + UInt32.ofNat SOS_MEM_SLICE_HEAD_SIZE
    + UInt32.ofNat SOS_MEM_TAIL_MAGIC_SIZE

def requestSize (size_id : SizeId) : UInt32 := sliceWholeSize size_id * sosMemSize[size_id].init_num

abbrev SosListHead : Type := Place (SizeId × ChainId)

structure SosMemSliceHead where
  -- `sos_mem_slice_head_t` without its links
  headmagic : UInt32
  size_type : UInt32
  subchain_id : UInt8
  ref : UInt8
  deriving DecidableEq

structure SosMemBlock where
  size_type : SizeId
  start : Nat
  len : UInt32

structure SosMemPool where
  -- `sos_mem_pool` and the slices behind it, the blocks are those below `block_num`
  links : Links SosListHead
  slice : Nat → SosMemSliceHead
  totalnum : SizeId × ChainId → UInt32
  freenum : SizeId × ChainId → UInt32
  global_index : SizeId → UInt32
  current_size : UInt32
  current_start : Nat
  sos_mem_block : List SosMemBlock

section Code

def sliceBegin (start : Nat) (size : UInt32) (i : ChainId) (j : Nat) : Nat :=
  -- `begin` in the loops over the chains and their positions
  start + (UInt32.ofNat i.val * UInt32.ofNat j * size).toNat

def linkSlice (size_id : SizeId) (i : ChainId) (psosmp : SosMemPool) (begin_ : Nat) : SosMemPool :=
  { psosmp with
    slice := Function.update psosmp.slice begin_ { psosmp.slice begin_ with
      headmagic := SOS_MEM_HEAD_MAGIC
      subchain_id := UInt8.ofNat i.val
      size_type := UInt32.ofNat size_id.val }
    links := psosmp.links.add (.list begin_) (.head (size_id, i)) }

def chainBegins (start : Nat) (size : UInt32) (initnum : UInt32) (i : ChainId) : List Nat :=
  (List.range (initnum / 4).toNat).map (sliceBegin start size i)

def sosMemBlockCtrlInit (psosmp : SosMemPool) (size_id : SizeId) (start : Nat) (size initnum : UInt32)
    : SosMemPool :=
  (List.finRange SOS_MEM_CHAIN_INTERNAL_NUM).foldl (fun psosmp i =>
    let psosmp := { psosmp with
      totalnum := Function.update psosmp.totalnum (size_id, i) initnum
      freenum := Function.update psosmp.freenum (size_id, i) initnum
      links := psosmp.links.init (.head (size_id, i)) }
    (chainBegins start size initnum i).foldl (linkSlice size_id i) psosmp) psosmp

def sosMemBlockReplenish (psosmp : SosMemPool) (size_id : SizeId) (start : Nat)
    (size init_num : UInt32) : SosMemPool :=
  (List.finRange SOS_MEM_CHAIN_INTERNAL_NUM).foldl (fun psosmp i =>
    let psosmp := { psosmp with
      totalnum := Function.update psosmp.totalnum (size_id, i)
        (psosmp.totalnum (size_id, i) + init_num)
      freenum := Function.update psosmp.freenum (size_id, i)
        (psosmp.freenum (size_id, i) + init_num) }
    (chainBegins start size init_num i).foldl (linkSlice size_id i) psosmp) psosmp

def recordBlock (psosmp : SosMemPool) (size_id : SizeId) (start : Nat) (requestsize : UInt32)
    : SosMemPool :=
  { psosmp with
    sos_mem_block := psosmp.sos_mem_block ++ [⟨size_id, start, requestsize⟩]
    current_size := psosmp.current_size - requestsize
    current_start := start + requestsize.toNat }

def sosMemBlockInitStep (psosmp : SosMemPool) (i : SizeId) : Option SosMemPool :=
  let requestsize := requestSize i
  if psosmp.current_size < requestsize then
    none
  else
    let start := psosmp.current_start
    let psosmp := sosMemBlockCtrlInit psosmp i start (sliceWholeSize i) sosMemSize[i].init_num
    some (recordBlock psosmp i start requestsize)

def sosMemBlockInit (psosmp : SosMemPool) : Option SosMemPool :=
  (List.finRange SOS_SIZE_NUM).foldlM sosMemBlockInitStep psosmp

def sosMemInit (ptr : Nat) : Option SosMemPool :=
  -- `sos_mem_init` for the memory that was allocated at `ptr`
  sosMemBlockInit {
    links := ⟨fun _ => .null, fun _ => .null⟩
    slice := fun _ => ⟨0, 0, 0, 0⟩
    totalnum := fun _ => 0
    freenum := fun _ => 0
    global_index := fun _ => 0
    current_size := SOS_MEM_POOL_SIZE - UInt32.ofNat SOS_MEM_POOL_REGION_SIZE
    current_start := ptr + SOS_MEM_POOL_REGION_SIZE
    sos_mem_block := [] }

def getBestSize (size : UInt32) : Option SizeId :=
  -- `none` is -1
  (List.finRange SOS_SIZE_NUM).find? fun i => size ≤ sosMemSize[i].size

def sosMemReplenished (s : SosMemPool) (size_type : SizeId) : Option SosMemPool :=
  let requestsize := requestSize size_type
  if s.sos_mem_block.length = SOS_MEM_BLOCK_MAX then
    none
  else if requestsize > s.current_size then
    none
  else
    let start := s.current_start
    let s := sosMemBlockReplenish s size_type start (sliceWholeSize size_type)
      sosMemSize[size_type].init_num
    some (recordBlock s size_type start requestsize)

def IsValid (l : SosListHead) : Bool := l ≠ .poison && l ≠ .null

def listDel (links : Links SosListHead) (entry : SosListHead) : Option (Links SosListHead) :=
  -- `none` is an access through a pointer that leads nowhere
  if IsValid entry && IsValid (links.next entry) && IsValid (links.prev entry) then
    some (links.del .poison entry)
  else
    none

def sosMemAllocClass (s : SosMemPool) (size_type : SizeId) : Option (Option Nat × SosMemPool) := do
  -- `_sos_mem_alloc`, `none` is an access to something that is not a slice
  let global_index := s.global_index size_type
  let index := Fin.ofNat SOS_MEM_CHAIN_INTERNAL_NUM (global_index &&& 3).toNat
  let s := { s with
    global_index := Function.update s.global_index size_type (global_index + 1) }
  let l := s.links.next (.head (size_type, index))
  if l = .head (size_type, index) then
    some (none, s)
  else
    let links ← listDel s.links l
    let freenum := s.freenum (size_type, index)
    let s := { s with
      links := links
      freenum := Function.update s.freenum (size_type, index) (freenum - 1) }
    match l with
    | .list slice =>
      if (s.slice slice).ref ≠ 0 then
        some (none, s)
      else
        let s := { s with
          slice := Function.update s.slice slice { s.slice slice with ref := 1 } }
        some (some (slice + SOS_MEM_SLICE_HEAD_SIZE), s)
    | _ => none

def sosMemAlloc (s : SosMemPool) (size : UInt32) : Option (Option Nat × SosMemPool) :=
  match getBestSize size with
  | none => some (none, s)
  | some size_type => do
    let (ptr, s) ← sosMemAllocClass s size_type
    match ptr with
    | some ptr => some (some ptr, s)
    | none =>
      match sosMemReplenished s size_type with
      | some s => sosMemAllocClass s size_type
      | none => some (none, s)

def sosMemFree (s : SosMemPool) (p : Nat) : Option SosMemPool :=
  -- `none` is an access to the chains of no size class
  let slice := p - SOS_MEM_SLICE_HEAD_SIZE
  if (s.slice slice).headmagic ≠ SOS_MEM_HEAD_MAGIC then
    some s
  else if hsubchain : (s.slice slice).subchain_id.toNat ≥ SOS_MEM_CHAIN_INTERNAL_NUM then
    some s
  else if (s.slice slice).size_type.toNat > SOS_SIZE_NUM then
    some s
  else if (s.slice slice).ref ≠ 1 then
    some s
  else if hsize : (s.slice slice).size_type.toNat < SOS_SIZE_NUM then
    let k : SizeId × ChainId := (⟨(s.slice slice).size_type.toNat, hsize⟩,
      ⟨(s.slice slice).subchain_id.toNat, Nat.lt_of_not_le hsubchain⟩)
    if IsValid (s.links.next (.head k)) then
      some { s with
        slice := Function.update s.slice slice { s.slice slice with ref := 0 }
        links := s.links.add (.list slice) (.head k)
        freenum := Function.update s.freenum k (s.freenum k + 1) }
    else
      none
  else
    none

end Code

abbrev ByteRange : Type := Nat × Nat

def Apart (a b : ByteRange) : Prop := a.1 + a.2 ≤ b.1 ∨ b.1 + b.2 ≤ a.1

def slices (start : Nat) (size initnum : UInt32) : List ByteRange :=
  (List.finRange SOS_MEM_CHAIN_INTERNAL_NUM).flatMap fun i =>
    (chainBegins start size initnum i).map fun begin_ => (begin_, size.toNat)

def SosMemBlock.slices (b : SosMemBlock) : List ByteRange :=
  Common.slices b.start (sliceWholeSize b.size_type) sosMemSize[b.size_type].init_num

structure SosRun where
  mem : SosMemPool
  live : List (Nat × UInt32)

inductive SosStep : SosRun → SosRun → Prop where
  | alloc {r : SosRun} {size : UInt32} {p : Nat} {mem : SosMemPool}
      (h : sosMemAlloc r.mem size = some (some p, mem)) : SosStep r ⟨mem, (p, size) :: r.live⟩
  | allocNull {r : SosRun} {size : UInt32} {mem : SosMemPool}
      (h : sosMemAlloc r.mem size = some (none, mem)) : SosStep r ⟨mem, r.live⟩
  | free {r : SosRun} {p : Nat} {size : UInt32} {mem : SosMemPool} (hlive : (p, size) ∈ r.live)
      (h : sosMemFree r.mem p = some mem) : SosStep r ⟨mem, r.live.erase (p, size)⟩

inductive SosReachable (ptr : Nat) : SosRun → Prop where
  | init {mem : SosMemPool} (h : sosMemInit ptr = some mem) : SosReachable ptr ⟨mem, []⟩
  | step {r r' : SosRun} (h : SosReachable ptr r) (hstep : SosStep r r') : SosReachable ptr r'

/--
The buffers in use do not overlap and lie in blocks, and no two linked slices of a block overlap.
-/
structure Disjoint (r : SosRun) : Prop where
  live : r.live.Pairwise fun a b => Apart (a.1, a.2.toNat) (b.1, b.2.toNat)
  inside : ∀ a ∈ r.live, ∃ b ∈ r.mem.sos_mem_block,
    b.start ≤ a.1 ∧ a.1 + a.2.toNat ≤ b.start + b.len.toNat
  linked : ∀ b ∈ r.mem.sos_mem_block, b.slices.Pairwise Apart

section Slices

variable {start : Nat} {size initnum : UInt32}

theorem mem_chainBegins (h : 4 ≤ initnum) (i : ChainId) : start ∈ chainBegins start size initnum i := by
  rw [chainBegins, List.mem_map]
  refine ⟨0, ?_, ?_⟩
  . rw [List.mem_range, UInt32.toNat_div]
    have hle : 4 ≤ initnum.toNat := UInt32.le_iff_toNat_le.mp h
    exact Nat.div_pos hle (by decide)
  . have hzero : UInt32.ofNat 0 = 0 := rfl
    rw [sliceBegin, hzero, UInt32.mul_zero, UInt32.zero_mul, UInt32.toNat_zero, Nat.add_zero]

theorem slices_pairwise_iff (hsize : 0 < size.toNat)
    : (slices start size initnum).Pairwise Apart ↔ initnum < 4 := by
  constructor
  . intro h
    by_contra hle
    rw [UInt32.not_lt] at hle
    have hrange : List.finRange SOS_MEM_CHAIN_INTERNAL_NUM = [0, 1, 2, 3] := rfl
    rw [slices, hrange, List.flatMap_cons, List.pairwise_append] at h
    have hfirst (i : ChainId) : (start, size.toNat) ∈
        (chainBegins start size initnum i).map fun begin_ => (begin_, size.toNat) :=
      List.mem_map_of_mem (mem_chainBegins hle i)
    have hapart := h.2.2 _ (hfirst 0) (start, size.toNat) (by
      rw [List.flatMap_cons, List.mem_append]
      exact Or.inl (hfirst 1))
    simp only [Apart] at hapart
    omega
  . intro h
    have hnone : (initnum / 4).toNat = 0 := by
      rw [UInt32.toNat_div]
      exact Nat.div_eq_of_lt (UInt32.lt_iff_toNat_lt.mp h)
    have hempty (i : ChainId) : chainBegins start size initnum i = [] := by
      rw [chainBegins, hnone, List.range_zero, List.map_nil]
    have hnil : slices start size initnum = [] := by
      rw [slices, List.flatMap_eq_nil_iff]
      intro i _
      rw [hempty, List.map_nil]
    rw [hnil]
    exact List.Pairwise.nil

end Slices

structure Region where
  current_size : UInt32
  current_start : Nat
  sos_mem_block : List SosMemBlock

def SosMemPool.region (s : SosMemPool) : Region := ⟨s.current_size, s.current_start, s.sos_mem_block⟩

section Frame

variable {s s' : SosMemPool} {size_id : SizeId} {start : Nat} {size initnum : UInt32}

theorem linkSlices_same {i : ChainId} (begins : List Nat)
    : (begins.foldl (linkSlice size_id i) s).region = s.region
      ∧ (begins.foldl (linkSlice size_id i) s).totalnum = s.totalnum
      ∧ (begins.foldl (linkSlice size_id i) s).freenum = s.freenum := by
  induction begins generalizing s with
  | nil => exact ⟨rfl, rfl, rfl⟩
  | cons b begins ih => exact ih

theorem region_foldl {turn : SosMemPool → ChainId → SosMemPool}
    (h : ∀ s i, (turn s i).region = s.region) (chains : List ChainId)
    : (chains.foldl turn s).region = s.region := by
  induction chains generalizing s with
  | nil => rfl
  | cons i chains ih =>
    rw [List.foldl_cons, ih]
    exact h s i

theorem region_sosMemBlockCtrlInit
    : (sosMemBlockCtrlInit s size_id start size initnum).region = s.region := by
  unfold sosMemBlockCtrlInit
  apply region_foldl
  intro s i
  exact (linkSlices_same _).1

theorem region_sosMemBlockReplenish
    : (sosMemBlockReplenish s size_id start size initnum).region = s.region := by
  unfold sosMemBlockReplenish
  apply region_foldl
  intro s i
  exact (linkSlices_same _).1

theorem sosMemAllocClass_cases {res : Option Nat} (h : sosMemAllocClass s size_id = some (res, s'))
    : ∃ global_index, s' = { s with global_index := global_index }
      ∨ ∃ index slices, (slices = s.slice
          ∨ ∃ slice, slices = Function.update s.slice slice { s.slice slice with ref := 1 })
        ∧ s' = { s with
            links := s.links.del .poison (s.links.next (.head (size_id, index)))
            slice := slices
            freenum := Function.update s.freenum (size_id, index) (s.freenum (size_id, index) - 1)
            global_index := global_index } := by
  simp only [sosMemAllocClass] at h
  refine ⟨Function.update s.global_index size_id (s.global_index size_id + 1), ?_⟩
  split at h
  . rw [Option.some.injEq, Prod.mk.injEq] at h
    exact Or.inl h.2.symm
  . rw [Option.bind_eq_bind, Option.bind_eq_some_iff] at h
    rcases h with ⟨links, hdel, h⟩
    rw [listDel] at hdel
    split at hdel
    case isFalse => contradiction
    rw [Option.some.injEq] at hdel
    subst hdel
    split at h
    . next slice _ =>
      split at h
      . rw [Option.some.injEq, Prod.mk.injEq] at h
        exact Or.inr ⟨_, _, Or.inl rfl, h.2.symm⟩
      . rw [Option.some.injEq, Prod.mk.injEq] at h
        exact Or.inr ⟨_, _, Or.inr ⟨slice, rfl⟩, h.2.symm⟩
    . contradiction

theorem sosMemFree_cases {p : Nat} (h : sosMemFree s p = some s')
    : s' = s ∨ ∃ slice k, (s.slice slice).headmagic = SOS_MEM_HEAD_MAGIC
        ∧ (s.slice slice).size_type = UInt32.ofNat k.1.val
        ∧ s' = { s with
            slice := Function.update s.slice slice { s.slice slice with ref := 0 }
            links := s.links.add (.list slice) (.head k)
            freenum := Function.update s.freenum k (s.freenum k + 1) } := by
  simp only [sosMemFree] at h
  split at h
  case isTrue => exact Or.inl (Option.some.inj h).symm
  next hmagic =>
  split at h
  case isTrue => exact Or.inl (Option.some.inj h).symm
  split at h
  case isTrue => exact Or.inl (Option.some.inj h).symm
  split at h
  case isTrue => exact Or.inl (Option.some.inj h).symm
  split at h
  case isFalse => contradiction
  split at h
  case isFalse => contradiction
  refine Or.inr ⟨_, _, Decidable.not_not.mp hmagic, ?_, (Option.some.inj h).symm⟩
  rw [UInt32.ofNat_toNat]

theorem sosMemAllocClass_same {res : Option Nat} (h : sosMemAllocClass s size_id = some (res, s'))
    : s'.region = s.region ∧ s'.totalnum = s.totalnum := by
  rcases sosMemAllocClass_cases h with ⟨global_index, rfl | ⟨index, slices, -, rfl⟩⟩
  . exact ⟨rfl, rfl⟩
  . exact ⟨rfl, rfl⟩

theorem sosMemFree_same {p : Nat} (h : sosMemFree s p = some s')
    : s'.region = s.region ∧ s'.totalnum = s.totalnum := by
  rcases sosMemFree_cases h with rfl | ⟨slice, k, -, -, rfl⟩
  . exact ⟨rfl, rfl⟩
  . exact ⟨rfl, rfl⟩

theorem sosMemBlockInitStep_eq_some (h : sosMemBlockInitStep s size_id = some s')
    : requestSize size_id ≤ s.current_size
      ∧ s' = recordBlock
        (sosMemBlockCtrlInit s size_id s.current_start (sliceWholeSize size_id)
          sosMemSize[size_id].init_num)
        size_id s.current_start (requestSize size_id) := by
  rw [sosMemBlockInitStep] at h
  split at h
  . contradiction
  . next hroom => exact ⟨UInt32.not_lt.mp hroom, (Option.some.inj h).symm⟩

theorem sosMemReplenished_eq_some (h : sosMemReplenished s size_id = some s')
    : s.sos_mem_block.length ≠ SOS_MEM_BLOCK_MAX ∧ requestSize size_id ≤ s.current_size
      ∧ s' = recordBlock
        (sosMemBlockReplenish s size_id s.current_start (sliceWholeSize size_id)
          sosMemSize[size_id].init_num)
        size_id s.current_start (requestSize size_id) := by
  simp only [sosMemReplenished] at h
  split at h
  . contradiction
  . next hblocks =>
    split at h
    . contradiction
    . next hroom => exact ⟨hblocks, UInt32.not_lt.mp hroom, (Option.some.inj h).symm⟩

theorem sosMemAlloc_cases {size : UInt32} {res : Option Nat}
    (h : sosMemAlloc s size = some (res, s'))
    : s' = s ∨ ∃ size_type res1 s1, sosMemAllocClass s size_type = some (res1, s1)
        ∧ (s' = s1 ∨ ∃ s2, sosMemReplenished s1 size_type = some s2
          ∧ sosMemAllocClass s2 size_type = some (res, s')) := by
  rw [sosMemAlloc] at h
  split at h
  . rw [Option.some.injEq, Prod.mk.injEq] at h
    exact Or.inl h.2.symm
  . next size_type _ =>
    rw [Option.bind_eq_bind, Option.bind_eq_some_iff] at h
    rcases h with ⟨⟨res1, s1⟩, halloc, h⟩
    refine Or.inr ⟨size_type, res1, s1, halloc, ?_⟩
    dsimp only at h
    split at h
    . rw [Option.some.injEq, Prod.mk.injEq] at h
      exact Or.inl h.2.symm
    . split at h
      . next s2 hreplenish => exact Or.inr ⟨s2, hreplenish, h⟩
      . rw [Option.some.injEq, Prod.mk.injEq] at h
        exact Or.inl h.2.symm

end Frame

section Blocks

variable {s s' : SosMemPool} {size_id : SizeId}

theorem blocks_eq_of_region (h : s'.region = s.region) : s'.sos_mem_block = s.sos_mem_block :=
  congrArg Region.sos_mem_block h

theorem blocks_of_initStep (h : sosMemBlockInitStep s size_id = some s')
    : s'.sos_mem_block
        = s.sos_mem_block ++ [⟨size_id, s.current_start, requestSize size_id⟩] := by
  rcases sosMemBlockInitStep_eq_some h with ⟨-, rfl⟩
  simp only [recordBlock, blocks_eq_of_region region_sosMemBlockCtrlInit]

theorem blocks_of_foldlM {ids : List SizeId} (h : ids.foldlM sosMemBlockInitStep s = some s')
    : s.sos_mem_block ⊆ s'.sos_mem_block := by
  induction ids generalizing s with
  | nil =>
    rw [List.foldlM_nil, Option.pure_def, Option.some.injEq] at h
    exact h ▸ List.Subset.refl _
  | cons i ids ih =>
    rw [List.foldlM_cons, Option.bind_eq_bind, Option.bind_eq_some_iff] at h
    rcases h with ⟨s1, hstep, h⟩
    apply List.Subset.trans _ (ih h)
    rw [blocks_of_initStep hstep]
    exact List.subset_append_left _ _

theorem block_of_sosMemInit {ptr : Nat} (h : sosMemInit ptr = some s)
    : ⟨0, ptr + SOS_MEM_POOL_REGION_SIZE, requestSize 0⟩ ∈ s.sos_mem_block := by
  have hrange : List.finRange SOS_SIZE_NUM = 0 :: (List.finRange 11).map Fin.succ := rfl
  rw [sosMemInit, sosMemBlockInit, hrange, List.foldlM_cons, Option.bind_eq_bind,
    Option.bind_eq_some_iff] at h
  rcases h with ⟨s1, hstep, h⟩
  apply blocks_of_foldlM h
  rw [blocks_of_initStep hstep]
  exact List.mem_append_right _ (List.mem_singleton_self _)

theorem blocks_of_replenish (h : sosMemReplenished s size_id = some s')
    : s.sos_mem_block ⊆ s'.sos_mem_block := by
  rcases sosMemReplenished_eq_some h with ⟨-, -, rfl⟩
  simp only [recordBlock, blocks_eq_of_region region_sosMemBlockReplenish]
  exact List.subset_append_left _ _

theorem blocks_of_alloc {size : UInt32} {res : Option Nat} (h : sosMemAlloc s size = some (res, s'))
    : s.sos_mem_block ⊆ s'.sos_mem_block := by
  rcases sosMemAlloc_cases h with rfl | ⟨size_type, res1, s1, hfirst, hrest⟩
  . exact List.Subset.refl _
  . have hsame := blocks_eq_of_region (sosMemAllocClass_same hfirst).1
    rcases hrest with rfl | ⟨s2, hreplenish, hsecond⟩
    . exact hsame ▸ List.Subset.refl _
    . rw [blocks_eq_of_region (sosMemAllocClass_same hsecond).1, ← hsame]
      exact blocks_of_replenish hreplenish

theorem blocks_of_step {r r' : SosRun} (h : SosStep r r')
    : r.mem.sos_mem_block ⊆ r'.mem.sos_mem_block := by
  cases h with
  | alloc h => exact blocks_of_alloc h
  | allocNull h => exact blocks_of_alloc h
  | free _ h => exact blocks_eq_of_region (sosMemFree_same h).1 ▸ List.Subset.refl _

theorem block_of_reachable {ptr : Nat} {r : SosRun} (h : SosReachable ptr r)
    : ⟨0, ptr + SOS_MEM_POOL_REGION_SIZE, requestSize 0⟩ ∈ r.mem.sos_mem_block := by
  induction h with
  | init h => exact block_of_sosMemInit h
  | step _ hstep ih => exact blocks_of_step hstep ih

end Blocks

section Init

def roomFor : UInt32 → List SizeId → Bool
  | _, [] => true
  | size, i :: ids => !(size < requestSize i) && roomFor (size - requestSize i) ids

theorem exists_foldlM {s : SosMemPool} {ids : List SizeId} (h : roomFor s.current_size ids)
    : ∃ s', ids.foldlM sosMemBlockInitStep s = some s' := by
  induction ids generalizing s with
  | nil => exact ⟨s, rfl⟩
  | cons i ids ih =>
    simp only [roomFor, Bool.and_eq_true, Bool.not_eq_true', decide_eq_false_iff_not] at h
    rw [List.foldlM_cons, sosMemBlockInitStep, if_neg h.1]
    apply ih
    have hsize : (sosMemBlockCtrlInit s i s.current_start (sliceWholeSize i)
        sosMemSize[i].init_num).current_size = s.current_size :=
      congrArg Region.current_size region_sosMemBlockCtrlInit
    simp only [recordBlock, hsize]
    exact h.2

theorem exists_sosMemInit (ptr : Nat) : ∃ s, sosMemInit ptr = some s := by
  have hroom : roomFor (SOS_MEM_POOL_SIZE - UInt32.ofNat SOS_MEM_POOL_REGION_SIZE)
      (List.finRange SOS_SIZE_NUM) := by decide
  exact exists_foldlM hroom

theorem not_pairwise_slices (start : Nat) (len : UInt32)
    : ¬ (SosMemBlock.slices ⟨0, start, len⟩).Pairwise Apart := by
  have hsize : 0 < (sliceWholeSize 0).toNat := by decide
  have hmany : ¬ sosMemSize[(0 : SizeId)].init_num < 4 := by decide
  intro h
  exact hmany ((slices_pairwise_iff hsize).mp h)

end Init

/-- In no state of any run are the linked slices apart. -/
theorem not_disjoint {ptr : Nat} {r : SosRun} (h : SosReachable ptr r) : ¬ Disjoint r := by
  intro hdisjoint
  exact not_pairwise_slices _ _ (hdisjoint.linked _ (block_of_reachable h))

theorem not_disjoint_init : ∃ mem, SosReachable 0x10000000 ⟨mem, []⟩ ∧ ¬ Disjoint ⟨mem, []⟩ := by
  rcases exists_sosMemInit 0x10000000 with ⟨mem, hinit⟩
  exact ⟨mem, .init hinit, not_disjoint (.init hinit)⟩

theorem not_forall_disjoint : ¬ ∀ r, SosReachable 0x10000000 r → Disjoint r := by
  intro h
  rcases exists_sosMemInit 0x10000000 with ⟨mem, hinit⟩
  have hdisjoint := h ⟨mem, []⟩ (.init hinit)
  exact not_pairwise_slices _ _ (hdisjoint.linked _ (block_of_sosMemInit hinit))

end SecFw.Common
