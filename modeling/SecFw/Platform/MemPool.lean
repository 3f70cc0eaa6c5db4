import SecFw.LinkedRing.Basic

/-!
This module contains the pools of small and large buffers: their slices in memory, the chains that
link the free ones, allocation and freeing, and how a pool is set up.
-/

namespace SecFw.Platform

open LinkedRing

abbrev MEM_POOL_MAGIC_NUM : UInt32 := 0xab01ab01
abbrev MEM_POOL_INTERNAL_NUM : Nat := 4

abbrev MEM_POOL_ID_SMALL_BUFFER : Nat := 2
abbrev MEM_POOL_ID_LARGE_BUFFER : Nat := 3
abbrev MEM_POOL_ID_MAX : Nat := 4

abbrev MEM_POOL_SLICE_CTRL_SIZE : Nat := 24

abbrev MemPoolId : Type := Fin MEM_POOL_ID_MAX

abbrev SubpoolId : Type := Fin MEM_POOL_INTERNAL_NUM

scoped instance neZero_MEM_POOL_ID_MAX : NeZero MEM_POOL_ID_MAX := ⟨by decide⟩

abbrev ListHead : Type := Place (MemPoolId × SubpoolId)

abbrev sliceList (mscb : Nat) : ListHead := .list mscb

structure MemSliceCtrlB where
  -- `Mem_Slice_Ctrl_B` without its links
  magic : UInt32
  pool_id : UInt16
  subpool_id : UInt8
  ref : UInt8
  deriving DecidableEq

structure MemPoolCfg where
  start : Nat
  slicesize : UInt32
  slicenum : UInt32
  datasize : UInt32
  slice_room : MEM_POOL_SLICE_CTRL_SIZE ≤ slicesize.toNat

def MemPoolCfg.stop (mp : MemPoolCfg) : Nat :=
  mp.start + mp.slicenum.toNat * mp.slicesize.toNat

structure Pools where
  -- `mem_pool`, the pools lie in different memory
  mem_pool : MemPoolId → MemPoolCfg
  disjoint : ∀ p q, p ≠ q → (mem_pool p).stop ≤ (mem_pool q).start
    ∨ (mem_pool q).stop ≤ (mem_pool p).start

structure MemPools where
  links : Links ListHead
  mscb : Nat → MemSliceCtrlB
  global_index : MemPoolId → UInt32
  freenum : MemPoolId × SubpoolId → UInt32

section Code

variable (pools : Pools)

def memPoolAllocSw (s : MemPools) (pool_id : MemPoolId) (alloc_size : UInt32)
    : Option (Option Nat × MemPools) :=
  -- `mem_pool_alloc` from one of the software pools, `none` is an access to something not a slice
  if alloc_size > (pools.mem_pool pool_id).datasize then
    some (none, s)
  else
    let global_index := s.global_index pool_id
    let index := Fin.ofNat MEM_POOL_INTERNAL_NUM (global_index &&& 3).toNat
    let s := { s with
      global_index := Function.update s.global_index pool_id (global_index + 1) }
    let l := s.links.next (.head (pool_id, index))
    if l = .head (pool_id, index) then
      some (none, s)
    else
      let freenum := s.freenum (pool_id, index)
      let s := { s with
        links := s.links.del .poison l
        freenum := Function.update s.freenum (pool_id, index) (freenum - 1) }
      match l with
      | .list mscb =>
        if (s.mscb mscb).ref ≠ 0 then
          some (none, s)
        else
          let s := { s with
            mscb := Function.update s.mscb mscb { s.mscb mscb with ref := 1 } }
          some (some (mscb + MEM_POOL_SLICE_CTRL_SIZE), s)
      | _ => none

def memPoolAlloc (s : MemPools) (pool_id : Int) (alloc_size : UInt32)
    : Option (Option Nat × MemPools) :=
  if pool_id = MEM_POOL_ID_SMALL_BUFFER then
    memPoolAllocSw pools s 2 alloc_size
  else if pool_id = MEM_POOL_ID_LARGE_BUFFER then
    memPoolAllocSw pools s 3 alloc_size
  else
    some (none, s)

def memPoolFree (s : MemPools) (buf : Nat) : MemPools :=
  let mscb := buf - MEM_POOL_SLICE_CTRL_SIZE
  if (s.mscb mscb).magic ≠ MEM_POOL_MAGIC_NUM then
    s
  else if hpool : (s.mscb mscb).pool_id.toNat ≥ MEM_POOL_ID_MAX then
    s
  else if hsubpool : (s.mscb mscb).subpool_id.toNat ≥ MEM_POOL_INTERNAL_NUM then
    s
  else if (s.mscb mscb).ref ≠ 1 then
    s
  else
    let pool_id : MemPoolId := ⟨(s.mscb mscb).pool_id.toNat, Nat.lt_of_not_le hpool⟩
    let subpool_id : SubpoolId := ⟨(s.mscb mscb).subpool_id.toNat, Nat.lt_of_not_le hsubpool⟩
    let freenum := s.freenum (pool_id, subpool_id)
    { s with
      mscb := Function.update s.mscb mscb { s.mscb mscb with ref := 0 }
      links := s.links.add (.list mscb) (.head (pool_id, subpool_id))
      freenum := Function.update s.freenum (pool_id, subpool_id) (freenum + 1) }

def injectSlice (pool_id : MemPoolId) (i : SubpoolId) (st : MemPools × Nat) : MemPools × Nat :=
  let (s, start_address) := st
  let mscb := { s.mscb start_address with
    magic := MEM_POOL_MAGIC_NUM
    pool_id := UInt16.ofNat pool_id.val
    subpool_id := UInt8.ofNat i.val }
  ({ s with
      mscb := Function.update s.mscb start_address mscb
      links := s.links.add (.list start_address) (.head (pool_id, i)) },
    start_address + (pools.mem_pool pool_id).slicesize.toNat)

def injectChain (pool_id : MemPoolId) (num_perchain : UInt32) (st : MemPools × Nat)
    (i : SubpoolId) : MemPools × Nat :=
  let (s, start_address) := st
  let s := { s with links := s.links.init (.head (pool_id, i)) }
  let (s, start_address) := (injectSlice pools pool_id i)^[num_perchain.toNat] (s, start_address)
  ({ s with freenum := Function.update s.freenum (pool_id, i) num_perchain }, start_address)

def memPoolSwSliceInject (s : MemPools) (pool_id : MemPoolId) : Option MemPools :=
  -- `none` is `SEC_NO`
  let mpc := pools.mem_pool pool_id
  if 0 ≠ mpc.slicenum % 4 then
    none
  else
    let num_perchain := mpc.slicenum / 4
    some ((List.finRange MEM_POOL_INTERNAL_NUM).foldl (injectChain pools pool_id num_perchain)
      (s, mpc.start)).1

def zeroMemPools : MemPools where
  links := ⟨fun _ => .null, fun _ => .null⟩
  mscb _ := ⟨0, 0, 0, 0⟩
  global_index _ := 0
  freenum _ := 0

def memPoolInit : Option MemPools := do
  let s ← memPoolSwSliceInject pools zeroMemPools 2
  memPoolSwSliceInject pools s 3

def inCfg (pool_id : MemPoolId) : ListHead → Bool
  | .head k => k.1 == pool_id
  | _ => false

def clearCfg (s : MemPools) (pool_id : MemPoolId) : MemPools where
  links.next x := if inCfg pool_id x then .null else s.links.next x
  links.prev x := if inCfg pool_id x then .null else s.links.prev x
  mscb := s.mscb
  global_index := Function.update s.global_index pool_id 0
  freenum k := if k.1 = pool_id then 0 else s.freenum k

def memPoolInitOn (mem : MemPools) : Option MemPools := do
  -- the software pools of `Mem_Pool_Init` in memory that `cvmx_bootmem_alloc_named` returns as it
  -- is
  let s ← memPoolSwSliceInject pools (clearCfg mem 2) 2
  memPoolSwSliceInject pools (clearCfg s 3) 3

end Code

namespace Pools

variable (pools : Pools)

def slice (pool_id : MemPoolId) (j : Nat) : Nat :=
  (pools.mem_pool pool_id).start + j * (pools.mem_pool pool_id).slicesize.toNat

/-- The addresses of the first slices of a pool. -/
def Slices (n : MemPoolId → Nat) (pool_id : MemPoolId) (a : Nat) : Prop :=
  ∃ j < n pool_id, a = pools.slice pool_id j

def Within (n : MemPoolId → Nat) : Prop := ∀ p, n p ≤ (pools.mem_pool p).slicenum.toNat

variable {pools} {n : MemPoolId → Nat} {p q : MemPoolId} {a : Nat}

theorem slice_injective {j k : Nat} (h : pools.slice p j = pools.slice p k) : j = k := by
  have hroom := (pools.mem_pool p).slice_room
  simp only [MEM_POOL_SLICE_CTRL_SIZE] at hroom
  exact Nat.eq_of_mul_eq_mul_right (by omega) (Nat.add_left_cancel h)

theorem slice_lt_stop {j : Nat} (h : j < (pools.mem_pool p).slicenum.toNat)
    : (pools.mem_pool p).start ≤ pools.slice p j ∧ pools.slice p j < (pools.mem_pool p).stop := by
  have hroom := (pools.mem_pool p).slice_room
  have hmul := Nat.mul_le_mul_right (pools.mem_pool p).slicesize.toNat (Nat.succ_le_of_lt h)
  rw [Nat.succ_mul] at hmul
  simp only [MEM_POOL_SLICE_CTRL_SIZE] at hroom
  simp only [slice, MemPoolCfg.stop]
  omega

theorem slice_ne {j k : Nat} (hne : p ≠ q) (hj : j < (pools.mem_pool p).slicenum.toNat)
    (hk : k < (pools.mem_pool q).slicenum.toNat) : pools.slice p j ≠ pools.slice q k := by
  have hp := slice_lt_stop hj
  have hq := slice_lt_stop hk
  rcases pools.disjoint p q hne with h | h
  all_goals omega

theorem Slices.pool_unique (hn : pools.Within n) (hp : pools.Slices n p a)
    (hq : pools.Slices n q a) : p = q := by
  rcases hp with ⟨j, hj, rfl⟩
  rcases hq with ⟨k, hk, heq⟩
  by_contra hne
  exact slice_ne hne (Nat.lt_of_lt_of_le hj (hn p)) (Nat.lt_of_lt_of_le hk (hn q)) heq

theorem not_slices_next (hn : pools.Within n) (hp : n p < (pools.mem_pool p).slicenum.toNat)
    (q : MemPoolId) : ¬ pools.Slices n q (pools.slice p (n p)) := by
  rintro ⟨k, hk, heq⟩
  by_cases hne : p = q
  . subst hne
    have := slice_injective heq
    omega
  . exact slice_ne hne hp (Nat.lt_of_lt_of_le hk (hn q)) heq

theorem slices_next_iff
    : pools.Slices (Function.update n p (n p + 1)) q a
        ↔ pools.Slices n q a ∨ (q = p ∧ a = pools.slice p (n p)) := by
  by_cases hne : q = p
  . subst hne
    simp only [Slices, Function.update_self]
    constructor
    . rintro ⟨j, hj, rfl⟩
      rcases Nat.lt_succ_iff_lt_or_eq.mp hj with hj | rfl
      . exact Or.inl ⟨j, hj, rfl⟩
      . exact Or.inr ⟨trivial, rfl⟩
    . rintro (⟨j, hj, rfl⟩ | ⟨-, rfl⟩)
      . exact ⟨j, by omega, rfl⟩
      . exact ⟨n q, by omega, rfl⟩
  . simp [Slices, hne]

end Pools

structure Cleared (s : MemPools) (p : MemPoolId) : Prop where
  unlinked : ∀ i, Unlinked s.links (.head (p, i))
  next : ∀ i, s.links.next (.head (p, i)) = .null
  prev : ∀ i, s.links.prev (.head (p, i)) = .null
  global_index : s.global_index p = 0
  freenum : ∀ i, s.freenum (p, i) = 0

section Init

variable {pools : Pools} {p q : MemPoolId} {i : SubpoolId} {s : MemPools}

theorem cleared_zeroMemPools (p : MemPoolId) : Cleared zeroMemPools p where
  unlinked i x _ := ⟨by simp [zeroMemPools], by simp [zeroMemPools]⟩
  next _ := rfl
  prev _ := rfl
  global_index := rfl
  freenum _ := rfl

theorem Cleared.clearCfg_eq (h : Cleared s p) : clearCfg s p = s := by
  have hcfg (x : ListHead) (hx : inCfg p x = true) : ∃ i, x = .head (p, i) := by
    cases x with
    | head k =>
      rw [inCfg, beq_iff_eq] at hx
      exact ⟨k.2, by rw [← hx]⟩
    | list a => contradiction
    | poison => contradiction
    | null => contradiction
  have hlinks (f : ListHead → ListHead) (hf : ∀ i, f (.head (p, i)) = .null) (x : ListHead)
      : (if inCfg p x then .null else f x) = f x := by
    split
    . next hx =>
      rcases hcfg x hx with ⟨i, rfl⟩
      exact (hf i).symm
    . rfl
  have hfreenum (k : MemPoolId × SubpoolId) : (if k.1 = p then 0 else s.freenum k) = s.freenum k := by
    split
    . next hk =>
      rw [← h.freenum k.2, ← hk]
    . rfl
  have hindex : Function.update s.global_index p 0 = s.global_index := by
    rw [← h.global_index, Function.update_eq_self]
  simp only [clearCfg, hlinks _ h.next, hlinks _ h.prev, hfreenum, hindex]

theorem Cleared.injectSlice {st : MemPools × Nat} (h : Cleared st.1 p) (hne : q ≠ p)
    : Cleared (injectSlice pools q i st).1 p := by
  have hhead (j : SubpoolId) : (.head (q, i) : ListHead) ≠ .head (p, j) := by
    rw [ne_eq, Place.head.injEq, Prod.mk.injEq, not_and]
    exact fun hq => absurd hq hne
  have hlist (j : SubpoolId) : sliceList st.2 ≠ .head (p, j) := by simp
  have hadd (j : SubpoolId) := (h.unlinked j).add (hlist j) (hhead j)
  constructor
  . exact fun j => (hadd j).1
  . exact fun j => (hadd j).2.1.trans (h.next j)
  . exact fun j => (hadd j).2.2.trans (h.prev j)
  . exact h.global_index
  . exact h.freenum

theorem Cleared.injectChain {num : UInt32} {st : MemPools × Nat} (h : Cleared st.1 p) (hne : q ≠ p)
    : Cleared (injectChain pools q num st i).1 p := by
  have hhead (j : SubpoolId) : (.head (p, j) : ListHead) ≠ .head (q, i) := by
    rw [ne_eq, Place.head.injEq, Prod.mk.injEq, not_and]
    exact fun hq => absurd hq.symm hne
  have hinit : Cleared { st.1 with links := st.1.links.init (.head (q, i)) } p := by
    constructor
    . exact fun j => (h.unlinked j).init _
    . intro j
      simp only [Links.init, Function.update_of_ne (hhead j)]
      exact h.next j
    . intro j
      simp only [Links.init, Function.update_of_ne (hhead j)]
      exact h.prev j
    . exact h.global_index
    . exact h.freenum
  have hslices (m : Nat) : Cleared ((Platform.injectSlice pools q i)^[m]
      ({ st.1 with links := st.1.links.init (.head (q, i)) }, st.2)).1 p := by
    induction m with
    | zero => exact hinit
    | succ m ih =>
      rw [Function.iterate_succ_apply']
      exact ih.injectSlice hne
  have hrun := hslices num.toNat
  constructor
  . exact hrun.unlinked
  . exact hrun.next
  . exact hrun.prev
  . exact hrun.global_index
  . intro j
    have hkey : (p, j) ≠ (q, i) := fun heq => hne (congrArg Prod.fst heq).symm
    simp only [Platform.injectChain, Function.update_of_ne hkey]
    exact hrun.freenum j

theorem Cleared.inject {s' : MemPools} (h : Cleared s p) (hne : q ≠ p)
    (hinject : memPoolSwSliceInject pools s q = some s') : Cleared s' p := by
  have hchains (is : List SubpoolId) (num : UInt32) {st : MemPools × Nat} (hst : Cleared st.1 p)
      : Cleared (is.foldl (Platform.injectChain pools q num) st).1 p := by
    induction is generalizing st with
    | nil => exact hst
    | cons i is ih => exact ih (hst.injectChain hne)
  rw [memPoolSwSliceInject] at hinject
  split at hinject
  . contradiction
  . rw [Option.some.injEq] at hinject
    exact hinject ▸ hchains _ _ h

theorem memPoolInitOn_zeroMemPools : memPoolInitOn pools zeroMemPools = memPoolInit pools := by
  rw [memPoolInitOn, (cleared_zeroMemPools 2).clearCfg_eq, memPoolInit]
  apply Option.bind_congr
  intro s hs
  rw [((cleared_zeroMemPools 3).inject (by decide) hs).clearCfg_eq]

end Init

end SecFw.Platform
