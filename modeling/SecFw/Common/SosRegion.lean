import SecFw.Common.SosMalloc
import SecFw.Segments.Tiling

/-!
This module contains the region that the `sos` allocator takes its blocks from. Whatever is allocated,
freed and replenished, the blocks lie one behind the other in front of what is left of the region.
-/

namespace SecFw.Common

open Segment (Tiles Before Within)

inductive SecRet where
  | SEC_OK
  | SEC_NO
  deriving DecidableEq, Repr

def replenishSliceWholeSize (size_type : SizeId) : Int32 :=
  -- `slicewholesize` of `sos_mem_replenish`, the size of the structure makes the sum a 64-bit one
  let slicerawsize := (sosMemSize.get size_type).size.toInt32
  (slicerawsize.toInt64.toUInt64 + UInt64.ofNat SOS_MEM_SLICE_HEAD_SIZE
    + UInt64.ofNat SOS_MEM_TAIL_MAGIC_SIZE).toUInt32.toInt32

def replenishRequestSize (size_type : SizeId) : UInt32 :=
  -- `requestsize` of `sos_mem_replenish`, the product is a signed one
  let initnum := (sosMemSize.get size_type).init_num.toInt32
  (replenishSliceWholeSize size_type * initnum).toUInt32

def sosMemReplenish (sos_mem_pool : SosMemPool) (size_type : SizeId) : SecRet × SosMemPool :=
  -- `sos_mem_replenish` with its updates in order
  let requestsize := replenishRequestSize size_type
  if SOS_MEM_BLOCK_MAX = sos_mem_pool.sos_mem_block.length then
    (.SEC_NO, sos_mem_pool)
  else if requestsize > sos_mem_pool.current_size then
    (.SEC_NO, sos_mem_pool)
  else
    let start := sos_mem_pool.current_start
    let sos_mem_pool := { sos_mem_pool with
      sos_mem_block := sos_mem_pool.sos_mem_block ++ [⟨size_type, start, requestsize⟩] }
    let sos_mem_pool := sosMemBlockReplenish sos_mem_pool size_type start
      (replenishSliceWholeSize size_type).toUInt32 (sosMemSize.get size_type).init_num
    let sos_mem_pool := { sos_mem_pool with
      current_start := start + requestsize.toNat
      current_size := sos_mem_pool.current_size - requestsize }
    (.SEC_OK, sos_mem_pool)

/-- The calls after `sos_mem_init`, a replenishment may also be asked for from outside. -/
inductive SosCalled (ptr : Nat) : SosRun → Prop where
  | init {mem : SosMemPool} (h : sosMemInit ptr = some mem) : SosCalled ptr ⟨mem, []⟩
  | step {r r' : SosRun} (h : SosCalled ptr r) (hstep : SosStep r r') : SosCalled ptr r'
  | replenish {r : SosRun} (h : SosCalled ptr r) (size_type : SizeId)
    : SosCalled ptr ⟨(sosMemReplenish r.mem size_type).2, r.live⟩

instance : Segment SosMemBlock where
  start b := b.start
  stop b := b.start + b.len.toNat

/--
The region from `ptr` on, which is `start` of the pool, `total_size` is `SOS_MEM_POOL_SIZE` for good.
-/
structure RegionAccounted (ptr : Nat) (s : SosMemPool) : Prop where
  block_num : s.sos_mem_block.length ≤ SOS_MEM_BLOCK_MAX
  contiguous : Tiles ↑(ptr + SOS_MEM_POOL_REGION_SIZE) s.sos_mem_block ↑s.current_start
  disjoint : s.sos_mem_block.Pairwise Before
  len : ∀ b ∈ s.sos_mem_block, b.len.toNat
    = ((sosMemSize.get b.size_type).size.toNat + SOS_MEM_SLICE_HEAD_SIZE + SOS_MEM_TAIL_MAGIC_SIZE)
      * (sosMemSize.get b.size_type).init_num.toNat
  current_size : s.current_size.toNat + (s.sos_mem_block.map fun b => b.len.toNat).sum
    = SOS_MEM_POOL_SIZE.toNat - SOS_MEM_POOL_REGION_SIZE

def Region.record (r : Region) (size_id : SizeId) : Region where
  current_size := r.current_size - requestSize size_id
  current_start := r.current_start + (requestSize size_id).toNat
  sos_mem_block := r.sos_mem_block ++ [⟨size_id, r.current_start, requestSize size_id⟩]

section Replenish

variable {s s' : SosMemPool} {size_type : SizeId}

theorem replenishRequestSize_eq (size_type : SizeId)
    : replenishRequestSize size_type = requestSize size_type := by
  revert size_type
  decide

theorem replenishSliceWholeSize_eq (size_type : SizeId)
    : (replenishSliceWholeSize size_type).toUInt32 = sliceWholeSize size_type := by
  revert size_type
  decide

theorem toNat_requestSize (size_type : SizeId)
    : (requestSize size_type).toNat
        =
      ((sosMemSize.get size_type).size.toNat + SOS_MEM_SLICE_HEAD_SIZE + SOS_MEM_TAIL_MAGIC_SIZE)
        * (sosMemSize.get size_type).init_num.toNat := by
  revert size_type
  decide

theorem linkSlices_setBlocks {i : ChainId} (blocks : List SosMemBlock) (begins : List Nat)
    : begins.foldl (linkSlice size_type i) { s with sos_mem_block := blocks }
        =
      { begins.foldl (linkSlice size_type i) s with sos_mem_block := blocks } := by
  induction begins generalizing s with
  | nil => rfl
  | cons b begins ih =>
    rw [List.foldl_cons, List.foldl_cons, ← ih]
    rfl

theorem sosMemBlockReplenish_setBlocks {start : Nat} {size init_num : UInt32}
    (blocks : List SosMemBlock)
    : sosMemBlockReplenish { s with sos_mem_block := blocks } size_type start size init_num
        =
      { sosMemBlockReplenish s size_type start size init_num with sos_mem_block := blocks } := by
  simp only [sosMemBlockReplenish]
  generalize List.finRange SOS_MEM_CHAIN_INTERNAL_NUM = chains
  induction chains generalizing s with
  | nil => rfl
  | cons i chains ih =>
    rw [List.foldl_cons, List.foldl_cons, ← ih, ← linkSlices_setBlocks]

theorem sosMemReplenish_eq (s : SosMemPool) (size_type : SizeId)
    : sosMemReplenish s size_type
        =
      match sosMemReplenished s size_type with
      | none => (.SEC_NO, s)
      | some s' => (.SEC_OK, s') := by
  simp only [sosMemReplenish, sosMemReplenished, replenishRequestSize_eq,
    replenishSliceWholeSize_eq, get_sosMemSize, eq_comm (a := SOS_MEM_BLOCK_MAX)]
  split
  . rfl
  . split
    . rfl
    . simp only [sosMemBlockReplenish_setBlocks, recordBlock,
        blocks_eq_of_region region_sosMemBlockReplenish]

theorem region_of_initStep (h : sosMemBlockInitStep s size_type = some s')
    : requestSize size_type ≤ s.current_size ∧ s'.region = s.region.record size_type := by
  rcases sosMemBlockInitStep_eq_some h with ⟨hroom, rfl⟩
  have hregion : (sosMemBlockCtrlInit s size_type s.current_start (sliceWholeSize size_type)
      sosMemSize[size_type].init_num).region = s.region := region_sosMemBlockCtrlInit
  rw [SosMemPool.region, SosMemPool.region, Region.mk.injEq] at hregion
  refine ⟨hroom, ?_⟩
  simp only [SosMemPool.region, recordBlock, Region.record, hregion.1, hregion.2.2]

theorem region_of_replenish (h : sosMemReplenished s size_type = some s')
    : s.sos_mem_block.length ≠ SOS_MEM_BLOCK_MAX ∧ requestSize size_type ≤ s.current_size
      ∧ s'.region = s.region.record size_type := by
  rcases sosMemReplenished_eq_some h with ⟨hblocks, hroom, rfl⟩
  have hregion : (sosMemBlockReplenish s size_type s.current_start (sliceWholeSize size_type)
      sosMemSize[size_type].init_num).region = s.region := region_sosMemBlockReplenish
  rw [SosMemPool.region, SosMemPool.region, Region.mk.injEq] at hregion
  refine ⟨hblocks, hroom, ?_⟩
  simp only [SosMemPool.region, recordBlock, Region.record, hregion.1, hregion.2.2]

theorem SosCalled.invariant {P : SosMemPool → Prop} {ptr : Nat} {r : SosRun} (h : SosCalled ptr r)
    (hinit : ∀ {s}, sosMemInit ptr = some s → P s)
    (hreplenish : ∀ {s s' size_type}, P s → sosMemReplenished s size_type = some s' → P s')
    (halloc : ∀ {s s' size_type res}, P s → sosMemAllocClass s size_type = some (res, s') → P s')
    (hfree : ∀ {s s' p}, P s → sosMemFree s p = some s' → P s') : P r.mem := by
  have hsosalloc {s s' : SosMemPool} {size : UInt32} {res : Option Nat} (h : P s)
      (hcall : sosMemAlloc s size = some (res, s')) : P s' := by
    rcases sosMemAlloc_cases hcall with rfl | ⟨size_type, res1, s1, hfirst, hrest⟩
    . exact h
    . have h1 := halloc h hfirst
      rcases hrest with rfl | ⟨s2, hmore, hsecond⟩
      . exact h1
      . exact halloc (hreplenish h1 hmore) hsecond
  induction h with
  | init h => exact hinit h
  | step _ hstep ih =>
    cases hstep with
    | alloc hcall => exact hsosalloc ih hcall
    | allocNull hcall => exact hsosalloc ih hcall
    | free _ hcall => exact hfree ih hcall
  | @replenish r _ size_type ih =>
    rw [sosMemReplenish_eq]
    split
    . exact ih
    . next hmore => exact hreplenish ih hmore

end Replenish

structure RegionInv (ptr : Nat) (r : Region) : Prop where
  block_num : r.sos_mem_block.length ≤ SOS_MEM_BLOCK_MAX
  contiguous : Tiles ↑(ptr + SOS_MEM_POOL_REGION_SIZE) r.sos_mem_block ↑r.current_start
  len : ∀ b ∈ r.sos_mem_block, b.len = requestSize b.size_type
  room : r.current_start + r.current_size.toNat = ptr + SOS_MEM_POOL_SIZE.toNat

section Invariant

variable {ptr : Nat} {r : Region} {s s' : SosMemPool} {size_type : SizeId}

theorem RegionInv.record (h : RegionInv ptr r)
    (hblocks : r.sos_mem_block.length ≠ SOS_MEM_BLOCK_MAX)
    (hroom : requestSize size_type ≤ r.current_size) : RegionInv ptr (r.record size_type) := by
  constructor
  case block_num =>
    rw [Region.record, List.length_append, List.length_singleton]
    exact Nat.lt_of_le_of_ne h.block_num hblocks
  case contiguous => exact h.contiguous.concat rfl
  case len =>
    intro b hb
    cases List.mem_append.mp hb with
    | inl hb => exact h.len b hb
    | inr hb => rw [List.mem_singleton.mp hb]
  case room =>
    have hle := UInt32.le_iff_toNat_le.mp hroom
    have hold := h.room
    simp only [Region.record]
    rw [UInt32.toNat_sub_of_le _ _ hroom]
    omega

theorem RegionInv.foldlM {ids : List SizeId} (h : RegionInv ptr s.region)
    (hblocks : s.sos_mem_block.length + ids.length ≤ SOS_MEM_BLOCK_MAX)
    (hinit : ids.foldlM sosMemBlockInitStep s = some s') : RegionInv ptr s'.region := by
  induction ids generalizing s with
  | nil =>
    rw [List.foldlM_nil, Option.pure_def, Option.some.injEq] at hinit
    exact hinit ▸ h
  | cons i ids ih =>
    rw [List.foldlM_cons, Option.bind_eq_bind, Option.bind_eq_some_iff] at hinit
    rcases hinit with ⟨s1, hstep, hinit⟩
    rcases region_of_initStep hstep with ⟨hroom, hregion⟩
    rw [List.length_cons] at hblocks
    apply ih _ _ hinit
    . rw [hregion]
      apply h.record _ hroom
      simp only [SosMemPool.region]
      omega
    . rw [blocks_of_initStep hstep, List.length_append, List.length_singleton]
      omega

theorem regionInv_of_sosMemInit (h : sosMemInit ptr = some s) : RegionInv ptr s.region := by
  rw [sosMemInit, sosMemBlockInit] at h
  apply RegionInv.foldlM _ _ h
  . constructor
    . exact Nat.zero_le _
    . exact rfl
    . simp [SosMemPool.region]
    . simp only [SosMemPool.region]
      rw [Nat.add_assoc]
      rfl
  . rw [List.length_nil, List.length_finRange]
    decide

theorem RegionInv.replenish (h : RegionInv ptr s.region)
    (hreplenish : sosMemReplenished s size_type = some s') : RegionInv ptr s'.region := by
  rcases region_of_replenish hreplenish with ⟨hblocks, hroom, hregion⟩
  rw [hregion]
  exact h.record hblocks hroom

theorem regionInv_of_called {r : SosRun} (h : SosCalled ptr r) : RegionInv ptr r.mem.region := by
  apply h.invariant (P := fun s => RegionInv ptr s.region)
  case hinit => exact regionInv_of_sosMemInit
  case hreplenish => exact RegionInv.replenish
  case halloc =>
    intro s s' size_type res h halloc
    exact (sosMemAllocClass_same halloc).1 ▸ h
  case hfree =>
    intro s s' p h hfree
    exact (sosMemFree_same hfree).1 ▸ h

theorem sum_len (blocks : List SosMemBlock)
    : (blocks.map Segment.length).sum = ((blocks.map fun b => b.len.toNat).sum : Nat) := by
  rw [Nat.cast_list_sum, List.map_map]
  congr 1
  apply List.map_congr_left
  intro b _
  simp only [Segment.length, Segment.start, Segment.stop, Function.comp_apply]
  omega

theorem RegionInv.accounted (h : RegionInv ptr s.region) : RegionAccounted ptr s := by
  have hforward : ∀ b ∈ s.sos_mem_block, Segment.start b ≤ Segment.stop b := by
    intro b _
    simp only [Segment.start, Segment.stop]
    omega
  constructor
  case block_num => exact h.block_num
  case contiguous => exact h.contiguous
  case disjoint => exact Tiles.pairwise h.contiguous hforward
  case len =>
    intro b hb
    rw [h.len b hb, toNat_requestSize]
  case current_size =>
    have hsum := Tiles.sum_length h.contiguous
    have hroom := h.room
    simp only [SosMemPool.region] at hsum hroom
    rw [sum_len] at hsum
    have hsize : SOS_MEM_POOL_SIZE.toNat = 52428800 := by decide
    simp only [SOS_MEM_POOL_REGION_SIZE] at *
    omega

end Invariant

/--
In every run the blocks lie one behind the other from the end of the control structure to
`current_start`, what is left and the blocks make up the region, and no call that returns `SEC_NO`
changes anything.
-/
theorem region_accounted {ptr : Nat} {r : SosRun} (h : SosCalled ptr r)
    : RegionAccounted ptr r.mem
      ∧ ∀ size_type, (sosMemReplenish r.mem size_type).1 = .SEC_NO
        → (sosMemReplenish r.mem size_type).2 = r.mem := by
  refine ⟨(regionInv_of_called h).accounted, ?_⟩
  intro size_type hno
  rw [sosMemReplenish_eq] at hno ⊢
  cases hreplenish : sosMemReplenished r.mem size_type with
  | none => rfl
  | some s' =>
    simp only [hreplenish, reduceCtorEq] at hno

theorem region_accounted_replenished
    : ∃ mem, SosCalled 0x10000000 ⟨mem, []⟩ ∧ (sosMemReplenish mem 0).1 = .SEC_OK
        ∧ RegionAccounted 0x10000000 (sosMemReplenish mem 0).2 := by
  have hok : (sosMemInit 0x10000000).map (fun mem => (sosMemReplenish mem 0).1) = some .SEC_OK := by
    decide +kernel
  rcases Option.map_eq_some_iff.mp hok with ⟨mem, hinit, hok⟩
  have hcalled : SosCalled 0x10000000 ⟨mem, []⟩ := .init hinit
  exact ⟨mem, hcalled, hok, (region_accounted (hcalled.replenish 0)).1⟩

end SecFw.Common
