import SecFw.Platform.PoolRuns

/-!
This module contains what an allocation gets from pools that were initialized in memory with any
contents. The injection writes every field of a control block except for `ref`, so that a slice is
free afterwards when the memory said so before.
-/

namespace SecFw.Platform

open LinkedRing

def withRef (ref : Nat → UInt8) (s : MemPools) : MemPools :=
  { s with mscb := fun a => { s.mscb a with ref := ref a } }

/-- The byte at the place of `ref` is zero in every slice of the software pools. -/
def RefZero (pools : Pools) (mem : MemPools) : Prop :=
  ∀ p a, pools.Slices pools.swSlices p a → (mem.mscb a).ref = 0

/-- Every slice is returned by one of the calls of some sequence. -/
def Allocatable (pools : Pools) (s : MemPools) : Prop :=
  ∀ p a, pools.Slices pools.swSlices p a → ∃ calls bufs mem,
    memPoolAllocs pools s calls = some (bufs, mem) ∧ some (a + MEM_POOL_SLICE_CTRL_SIZE) ∈ bufs

/-- After any sequence of calls, the slice that the next one unlinks is the one that it returns. -/
def Lossless (pools : Pools) (s : MemPools) : Prop :=
  ∀ calls bufs s1, memPoolAllocs pools s calls = some (bufs, s1) → ∀ pool_id alloc_size,
    ∃ res s2, memPoolAlloc pools s1 pool_id alloc_size = some (res, s2)
      ∧ (s2.links = s1.links
        ∨ ∃ a, res = some (a + MEM_POOL_SLICE_CTRL_SIZE)
          ∧ s2.links = s1.links.del .poison (.list a))

section WithRef

variable (pools : Pools) (p : MemPoolId) (i : SubpoolId) (num : UInt32) (ref : Nat → UInt8)

theorem withRef_update (mscb : Nat → MemSliceCtrlB) (a : Nat) (c : MemSliceCtrlB)
    : (fun b => { Function.update mscb a c b with ref := ref b })
        = Function.update (fun b => { mscb b with ref := ref b }) a { c with ref := ref a } := by
  funext b
  by_cases hb : b = a
  . subst hb
    rw [Function.update_self, Function.update_self]
  . rw [Function.update_of_ne hb, Function.update_of_ne hb]

theorem injectSlice_withRef
    : Function.Semiconj (Prod.map (withRef ref) id) (injectSlice pools p i) (injectSlice pools p i) := by
  rintro ⟨s, start_address⟩
  simp only [injectSlice, withRef, withRef_update, Prod.map_apply, id]

theorem injectChain_withRef (st : MemPools × Nat)
    : injectChain pools p num (Prod.map (withRef ref) id st) i
        = Prod.map (withRef ref) id (injectChain pools p num st i) := by
  have hslices := (injectSlice_withRef pools p i ref).iterate_right num.toNat
    ({ st.1 with links := st.1.links.init (.head (p, i)) }, st.2)
  simp only [withRef, Prod.map_apply, id] at hslices
  simp only [injectChain, withRef, Prod.map_fst, Prod.map_snd, id, ← hslices, Prod.map_apply]

theorem memPoolSwSliceInject_withRef (s : MemPools)
    : memPoolSwSliceInject pools (withRef ref s) p
        = (memPoolSwSliceInject pools s p).map (withRef ref) := by
  have hchains (num : UInt32) (start_address : Nat)
      : (List.finRange MEM_POOL_INTERNAL_NUM).foldl (injectChain pools p num)
          (Prod.map (withRef ref) id (s, start_address))
        =
      Prod.map (withRef ref) id ((List.finRange MEM_POOL_INTERNAL_NUM).foldl
        (injectChain pools p num) (s, start_address)) :=
    List.foldl_hom _ fun st i => injectChain_withRef pools p i num ref st
  simp only [Prod.map_apply, id] at hchains
  simp only [memPoolSwSliceInject, hchains]
  split
  . rfl
  . rfl

theorem memPoolInitOn_withRef (mem : MemPools)
    : memPoolInitOn pools (withRef ref mem) = (memPoolInitOn pools mem).map (withRef ref) := by
  have hclear (s : MemPools) (p : MemPoolId) : clearCfg (withRef ref s) p = withRef ref (clearCfg s p) :=
    rfl
  simp only [memPoolInitOn, hclear, memPoolSwSliceInject_withRef, Option.bind_eq_bind]
  cases memPoolSwSliceInject pools (clearCfg mem 2) 2 with
  | none => rfl
  | some s => simp only [Option.map_some, Option.bind_some, hclear, memPoolSwSliceInject_withRef]

end WithRef

section Init

variable {pools : Pools} {mem s : MemPools} {chains : MemPoolId × SubpoolId → List Nat}
  {p : MemPoolId} {i : SubpoolId} {a : Nat}

theorem ref_memPoolInitOn (h : memPoolInitOn pools mem = some s) (a : Nat)
    : (s.mscb a).ref = (mem.mscb a).ref := by
  have hsame : withRef (fun a => (mem.mscb a).ref) mem = mem := rfl
  have hself := memPoolInitOn_withRef pools (fun a => (mem.mscb a).ref) mem
  rw [hsame, h, Option.map_some, Option.some.injEq] at hself
  rw [hself]
  rfl

theorem waiting_memPoolInitOn (h : memPoolInitOn pools mem = some s)
    : ∃ chains, Waiting pools s.mscb s chains
        ∧ ∀ p a, pools.Slices pools.swSlices p a → IsSw p ∧ ∃ i, a ∈ chains (p, i) := by
  -- the links do not depend on `ref`, so that the memory with zeros in its place has the same ones
  have hzero := memPoolInitOn_withRef pools (fun _ => 0) mem
  rw [h, Option.map_some] at hzero
  rcases injected_memPoolInitOn (fun _ => rfl) hzero with ⟨chains, hinjected, -⟩
  have hslices (k : MemPoolId × SubpoolId) (hk : k ∈ swKeys) (a : Nat) (ha : a ∈ chains k)
      : pools.Slices pools.swSlices k.1 a := (hinjected.owned.linked k hk a ha).1
  refine ⟨chains, ⟨hinjected.owned.rings, hslices, fun _ _ _ _ => rfl⟩, ?_⟩
  intro p a hslice
  rcases hinjected.owned.covers p a hslice with ⟨k, hk, ha⟩ | ha
  . have hpool := Pools.Slices.pool_unique hinjected.owned.within (hslices k hk a ha) hslice
    subst hpool
    exact ⟨hk, k.2, ha⟩
  . exact absurd ha (Set.notMem_empty a)

theorem Waiting.replicate (h : Waiting pools s.mscb s chains) (hp : IsSw p) (m : Nat)
    : ∃ calls mem chains', memPoolAllocs pools s calls
          = some ((List.range m).map fun k =>
              allocated s.mscb (Rotation.next^[k] (chainRotation s chains p)).taken, mem)
        ∧ Waiting pools s.mscb mem chains'
        ∧ chainRotation mem chains' p = Rotation.next^[m] (chainRotation s chains p) := by
  have hsizes (size : UInt32) (hsize : size ∈ List.replicate m 0)
      : ¬ size > (pools.mem_pool p).datasize := by
    rw [List.eq_of_mem_replicate hsize]
    exact UInt32.not_lt.mpr (UInt32.zero_le ..)
  have hturns := h.turns hp hsizes
  rw [List.length_replicate] at hturns
  exact ⟨_, hturns⟩

theorem allocatable_iff (h : memPoolInitOn pools mem = some s)
    : Allocatable pools s ↔ RefZero pools mem := by
  rcases waiting_memPoolInitOn h with ⟨chains, hwaiting, hlinked⟩
  constructor
  . intro hall p a hslice
    rcases hall p a hslice with ⟨calls, bufs, s1, hcalls, hmem⟩
    rcases hwaiting.calls calls with ⟨bufs', s1', -, hcalls', -, hfree⟩
    rw [hcalls, Option.some.injEq, Prod.mk.injEq] at hcalls'
    rcases hfree _ (hcalls'.1 ▸ hmem) with ⟨b, hb, href⟩
    have hab : a = b := Nat.add_right_cancel hb
    rw [← ref_memPoolInitOn h, hab]
    exact href
  . intro hzero p a hslice
    rcases hlinked p a hslice with ⟨hp, i, ha⟩
    have hleft : a ∈ (chainRotation s chains p).lists i := ha
    rcases Rotation.exists_taken_eq hleft with ⟨m, htaken⟩
    rcases hwaiting.replicate hp (m + 1) with ⟨calls, s1, -, hcalls, -, -⟩
    refine ⟨calls, _, s1, hcalls, ?_⟩
    have href : (s.mscb a).ref = 0 := (ref_memPoolInitOn h a).trans (hzero p a hslice)
    have hbuf : allocated s.mscb (Rotation.next^[m] (chainRotation s chains p)).taken
        = some (a + MEM_POOL_SLICE_CTRL_SIZE) := by
      rw [htaken, allocated, Option.bind_some, if_pos href]
    rw [← hbuf]
    exact List.mem_map_of_mem (List.mem_range.mpr (Nat.lt_succ_self m))

theorem lossless_iff (h : memPoolInitOn pools mem = some s)
    : Lossless pools s ↔ RefZero pools mem := by
  rcases waiting_memPoolInitOn h with ⟨chains, hwaiting, hlinked⟩
  constructor
  . intro hall p a hslice
    rcases hlinked p a hslice with ⟨hp, i, ha⟩
    have hleft : a ∈ (chainRotation s chains p).lists i := ha
    rcases Rotation.exists_taken_eq hleft with ⟨m, htaken⟩
    -- the call that looks at the slice, after the ones that take those before it
    rcases hwaiting.replicate hp m with ⟨calls, s1, chains1, hcalls, hwaiting1, hrotation⟩
    have hsize : ¬ 0 > (pools.mem_pool p).datasize := UInt32.not_lt.mpr (UInt32.zero_le ..)
    rcases hwaiting1.alloc hp hsize with ⟨s2, hcall, -, -, hnone, -⟩
    rw [hrotation, htaken, ← memPoolAlloc_sw hp] at hcall
    rw [hrotation, htaken] at hnone
    rw [← ref_memPoolInitOn h]
    by_contra href
    rcases hall calls _ s1 hcalls (p.val : Int) 0 with ⟨res, s2', hcall', hlossless⟩
    rw [hcall, Option.some.injEq, Prod.mk.injEq, allocated, Option.bind_some, if_neg href] at hcall'
    rcases hcall' with ⟨rfl, rfl⟩
    rcases hlossless with hlinks | ⟨b, hb, -⟩
    . exact Option.some_ne_none a (hnone.mp hlinks)
    . contradiction
  . intro hzero calls bufs s1 hcalls pool_id alloc_size
    rcases hwaiting.calls calls with ⟨bufs', s1', chains1, hcalls', hwaiting1, -⟩
    rw [hcalls, Option.some.injEq, Prod.mk.injEq] at hcalls'
    rcases hcalls' with ⟨-, rfl⟩
    rcases hwaiting1.call pool_id alloc_size with ⟨res, s2, -, hcall, -, hres⟩
    refine ⟨res, s2, hcall, ?_⟩
    rcases hres with ⟨-, hlinks⟩ | ⟨q, b, hslice, hlinks, hres⟩
    . exact Or.inl hlinks
    . have href : (s.mscb b).ref = 0 := (ref_memPoolInitOn h b).trans (hzero q b hslice)
      rw [if_pos href] at hres
      exact Or.inr ⟨b, hres, hlinks⟩

/--
The slices can be allocated, and none of them is lost, exactly when the memory has zeros at the places
of `ref`.
-/
theorem memPoolInitOn_iff (h : memPoolInitOn pools mem = some s)
    : (Allocatable pools s ↔ RefZero pools mem) ∧ (Lossless pools s ↔ RefZero pools mem) :=
  ⟨allocatable_iff h, lossless_iff h⟩

end Init

section Boot

theorem memPoolInitOn_iff_bootPools
    : ∃ s, memPoolInitOn bootPools zeroMemPools = some s ∧ Allocatable bootPools s
        ∧ Lossless bootPools s := by
  rcases exists_memPoolInitOn_bootPools zeroMemPools with ⟨s, h⟩
  have hzero : RefZero bootPools zeroMemPools := fun _ _ _ => rfl
  exact ⟨s, h, (memPoolInitOn_iff h).1.mpr hzero, (memPoolInitOn_iff h).2.mpr hzero⟩

theorem not_forall_memPoolInitOn
    : ¬ ∀ mem s, memPoolInitOn bootPools mem = some s
        → Allocatable bootPools s ∧ Lossless bootPools s := by
  intro hall
  rcases exists_memPoolInitOn_bootPools (withRef (fun _ => 1) zeroMemPools) with ⟨s, h⟩
  have hslice : bootPools.Slices bootPools.swSlices 2 (bootPools.slice 2 0) := ⟨0, by decide, rfl⟩
  have hzero := (lossless_iff h).mp (hall _ s h).2 2 _ hslice
  exact absurd hzero (by decide)

end Boot

end SecFw.Platform
