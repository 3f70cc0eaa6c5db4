import SecFw.Platform.Ownership
import SecFw.Rotation.Basic

/-!
This module contains how `mem_pool_alloc` goes through the chains of a pool. A call looks at the one
chain that the counter of the pool selects, so that a pool is a rotation of its chains.
-/

namespace SecFw.Platform

open LinkedRing

def selected (global_index : UInt32) : SubpoolId :=
  -- `index` of `mem_pool_alloc`
  Fin.ofNat MEM_POOL_INTERNAL_NUM (global_index &&& 3).toNat

def chainRotation (s : MemPools) (chains : MemPoolId × SubpoolId → List Nat) (p : MemPoolId)
    : Rotation MEM_POOL_INTERNAL_NUM Nat where
  turn := selected (s.global_index p)
  lists i := chains (p, i)

def memPoolAllocs (pools : Pools) (s : MemPools)
    : List (Int × UInt32) → Option (List (Option Nat) × MemPools)
  | [] => some ([], s)
  | (pool_id, alloc_size) :: calls => do
    let (buf, s) ← memPoolAlloc pools s pool_id alloc_size
    let (bufs, s) ← memPoolAllocs pools s calls
    some (buf :: bufs, s)

structure Waiting (pools : Pools) (mscb : Nat → MemSliceCtrlB) (s : MemPools)
    (chains : MemPoolId × SubpoolId → List Nat) : Prop where
  rings : Rings s.links swKeys Place.head fun k => (chains k).map sliceList
  slice : ∀ k ∈ swKeys, ∀ a ∈ chains k, pools.Slices pools.swSlices k.1 a
  ctrl : ∀ k ∈ swKeys, ∀ a ∈ chains k, s.mscb a = mscb a

section Selected

theorem val_selected (global_index : UInt32) : (selected global_index).val = global_index.toNat % 4 := by
  have hand : (global_index &&& 3).toNat = global_index.toNat % 4 := by
    rw [UInt32.toNat_and]
    exact Nat.and_two_pow_sub_one_eq_mod _ 2
  rw [selected, hand, Fin.ofNat_eq_cast, Fin.val_natCast, Nat.mod_mod]

theorem selected_succ (global_index : UInt32)
    : selected (global_index + 1) = selected global_index + 1 := by
  ext
  rw [val_selected, Fin.val_add, val_selected, UInt32.toNat_add]
  have hone : (1 : UInt32).toNat = 1 := rfl
  have hval : (1 : SubpoolId).val = 1 := rfl
  simp only [hone, hval, MEM_POOL_INTERNAL_NUM]
  omega

end Selected

section Call

variable {pools : Pools} {s : MemPools} {p : MemPoolId} {alloc_size : UInt32}

theorem memPoolAlloc_sw (hp : IsSw p)
    : memPoolAlloc pools s (p.val : Int) alloc_size = memPoolAllocSw pools s p alloc_size := by
  rcases hp with rfl | rfl
  . rfl
  . rfl

theorem memPoolAlloc_cases (pools : Pools) (s : MemPools) (pool_id : Int) (alloc_size : UInt32)
    : (∃ p, IsSw p ∧ memPoolAlloc pools s pool_id alloc_size = memPoolAllocSw pools s p alloc_size)
      ∨ memPoolAlloc pools s pool_id alloc_size = some (none, s) := by
  rw [memPoolAlloc]
  split
  . exact Or.inl ⟨2, Or.inl rfl, rfl⟩
  . split
    . exact Or.inl ⟨3, Or.inr rfl, rfl⟩
    . exact Or.inr rfl

theorem memPoolAllocSw_size (hsize : alloc_size > (pools.mem_pool p).datasize)
    : memPoolAllocSw pools s p alloc_size = some (none, s) := if_pos hsize

theorem memPoolAllocSw_empty (hsize : ¬ alloc_size > (pools.mem_pool p).datasize)
    (hring : IsRing s.links (.head (p, selected (s.global_index p))) [])
    : memPoolAllocSw pools s p alloc_size
        =
      some (none, { s with
        global_index := Function.update s.global_index p (s.global_index p + 1) }) := by
  have hempty : s.links.next (.head (p, selected (s.global_index p)))
      = .head (p, selected (s.global_index p)) := hring.next_head_eq_head.mpr rfl
  rw [selected] at hempty
  simp only [memPoolAllocSw, if_neg hsize, if_pos hempty]

theorem memPoolAllocSw_first (hsize : ¬ alloc_size > (pools.mem_pool p).datasize) {a : Nat}
    {xs : List ListHead}
    (hring : IsRing s.links (.head (p, selected (s.global_index p))) (sliceList a :: xs))
    : memPoolAllocSw pools s p alloc_size
        =
      some (if (s.mscb a).ref = 0 then some (a + MEM_POOL_SLICE_CTRL_SIZE) else none,
        ⟨s.links.del .poison (.list a),
          if (s.mscb a).ref = 0 then Function.update s.mscb a { s.mscb a with ref := 1 } else s.mscb,
          Function.update s.global_index p (s.global_index p + 1),
          Function.update s.freenum (p, selected (s.global_index p))
            (s.freenum (p, selected (s.global_index p)) - 1)⟩) := by
  have hfirst : s.links.next (.head (p, selected (s.global_index p))) = .list a :=
    hring.next_head_cons
  rw [selected] at hfirst
  simp only [memPoolAllocSw, if_neg hsize, hfirst, reduceCtorEq, if_false]
  by_cases href : (s.mscb a).ref = 0
  . rw [if_neg (not_not.mpr href), if_pos href, if_pos href]
    rfl
  . rw [if_pos href, if_neg href, if_neg href]
    rfl

end Call

section Turn

variable {pools : Pools} {mscb : Nat → MemSliceCtrlB} {s : MemPools}
  {chains : MemPoolId × SubpoolId → List Nat} {p : MemPoolId} {alloc_size : UInt32}

def allocated (mscb : Nat → MemSliceCtrlB) (taken : Option Nat) : Option Nat :=
  taken.bind fun a => if (mscb a).ref = 0 then some (a + MEM_POOL_SLICE_CTRL_SIZE) else none

def nextChains (chains : MemPoolId × SubpoolId → List Nat) (k : MemPoolId × SubpoolId)
    : MemPoolId × SubpoolId → List Nat := Function.update chains k (chains k).tail

theorem chainRotation_next {s s' : MemPools}
    (h : s'.global_index = Function.update s.global_index p (s.global_index p + 1))
    : chainRotation s' (nextChains chains (p, selected (s.global_index p))) p
        = (chainRotation s chains p).next := by
  ext1
  . simp only [chainRotation, Rotation.turn_next, h, Function.update_self, selected_succ]
  . funext i
    by_cases hi : i = selected (s.global_index p)
    . subst hi
      have hself := (chainRotation s chains p).lists_next_self
      simp only [chainRotation] at hself ⊢
      rw [hself, nextChains, Function.update_self]
    . have hother := Rotation.lists_next_of_ne (r := chainRotation s chains p) hi
      have hne : (p, i) ≠ (p, selected (s.global_index p)) := fun h => hi (congrArg Prod.snd h)
      rw [hother]
      simp only [chainRotation, nextChains, Function.update_of_ne hne]

theorem Waiting.mem_nextChains (h : Waiting pools mscb s chains) {k k' : MemPoolId × SubpoolId}
    (hk : k ∈ swKeys) (hk' : k' ∈ swKeys) {a b : Nat} {xs : List Nat} (hchain : chains k = a :: xs)
    (hb : b ∈ nextChains chains k k') : b ∈ chains k' ∧ b ≠ a := by
  have ha : a ∈ chains k := hchain ▸ List.mem_cons_self ..
  by_cases hne : k' = k
  . subst hne
    rw [nextChains, Function.update_self, hchain, List.tail_cons] at hb
    have hnodup := (List.nodup_cons.mp (h.rings.ring k' hk).nodup).2
    rw [hchain, List.map_cons, List.nodup_cons] at hnodup
    refine ⟨hchain ▸ List.mem_cons_of_mem a hb, ?_⟩
    rintro rfl
    exact hnodup.1 (List.mem_map_of_mem hb)
  . rw [nextChains, Function.update_of_ne hne] at hb
    refine ⟨hb, ?_⟩
    rintro rfl
    have hdisjoint := h.rings.disjoint k' hk' k hk hne
    exact hdisjoint (List.mem_cons_of_mem _ (List.mem_map_of_mem hb))
      (List.mem_cons_of_mem _ (List.mem_map_of_mem ha))

theorem Waiting.alloc (h : Waiting pools mscb s chains) (hp : IsSw p)
    (hsize : ¬ alloc_size > (pools.mem_pool p).datasize)
    : ∃ mem, memPoolAllocSw pools s p alloc_size
          = some (allocated mscb (chainRotation s chains p).taken, mem)
        ∧ Waiting pools mscb mem (nextChains chains (p, selected (s.global_index p)))
        ∧ mem.global_index = Function.update s.global_index p (s.global_index p + 1)
        ∧ (mem.links = s.links ↔ (chainRotation s chains p).taken = none)
        ∧ ∀ a, (chainRotation s chains p).taken = some a
          → mem.links = s.links.del .poison (.list a) := by
  have hring := h.rings.ring (p, selected (s.global_index p)) hp
  have htaken : (chainRotation s chains p).taken
      = (chains (p, selected (s.global_index p))).head? := rfl
  cases hchain : chains (p, selected (s.global_index p)) with
  | nil =>
    rw [hchain] at htaken hring
    have hsame : nextChains chains (p, selected (s.global_index p)) = chains := by
      rw [nextChains, hchain, List.tail_nil, ← hchain, Function.update_eq_self]
    rw [htaken, hsame]
    exact ⟨_, memPoolAllocSw_empty hsize hring, ⟨h.rings, h.slice, h.ctrl⟩, rfl,
      iff_of_true rfl rfl, fun _ ha => by contradiction⟩
  | cons a xs =>
    rw [hchain] at htaken hring
    have hctrl : s.mscb a = mscb a := h.ctrl _ hp a (hchain ▸ List.mem_cons_self ..)
    have hres : allocated mscb (chainRotation s chains p).taken
        = if (s.mscb a).ref = 0 then some (a + MEM_POOL_SLICE_CTRL_SIZE) else none := by
      rw [htaken, List.head?_cons, allocated, Option.bind_some, hctrl]
    have hcall := memPoolAllocSw_first hsize hring
    rw [← hres] at hcall
    refine ⟨_, hcall, ⟨?_, ?_, ?_⟩, rfl, ?_, ?_⟩
    . rw [nextChains, hchain, List.tail_cons, Owned.map_update]
      exact h.rings.del hp (by rw [hchain, List.map_cons]) Place.poison
    . intro k hk b hb
      exact h.slice k hk b (h.mem_nextChains hp hk hchain hb).1
    . intro k hk b hb
      rcases h.mem_nextChains hp hk hchain hb with ⟨hb, hne⟩
      rw [← h.ctrl k hk b hb]
      dsimp only
      split
      . exact Function.update_of_ne hne _ _
      . rfl
    . rw [htaken, List.head?_cons]
      apply iff_of_false _ (Option.some_ne_none a)
      intro heq
      -- the first slice is the one behind the head before the call, and not after it
      have hmem := (hring.del .poison).next_mem
      have hnodup := (List.nodup_cons.mp hring.nodup)
      dsimp only at heq
      rw [heq, hring.next_head_cons, List.mem_cons] at hmem
      rcases hmem with hhead | hrest
      . contradiction
      . exact (List.nodup_cons.mp hnodup.2).1 hrest
    . intro b hb
      rw [htaken, List.head?_cons, Option.some.injEq] at hb
      rw [hb]

end Turn

section Calls

variable {pools : Pools} {mscb : Nat → MemSliceCtrlB} {s s' : MemPools}
  {chains : MemPoolId × SubpoolId → List Nat} {p : MemPoolId}

theorem Waiting.slice_of_taken (h : Waiting pools mscb s chains) (hp : IsSw p) {a : Nat}
    (htaken : (chainRotation s chains p).taken = some a) : pools.Slices pools.swSlices p a :=
  h.slice (p, selected (s.global_index p)) hp a (Rotation.mem_of_taken htaken)

theorem Waiting.call (h : Waiting pools mscb s chains) (pool_id : Int) (alloc_size : UInt32)
    : ∃ res mem chains', memPoolAlloc pools s pool_id alloc_size = some (res, mem)
        ∧ Waiting pools mscb mem chains'
        ∧ ((res = none ∧ mem.links = s.links)
          ∨ ∃ q a, pools.Slices pools.swSlices q a ∧ mem.links = s.links.del .poison (.list a)
            ∧ res = if (mscb a).ref = 0 then some (a + MEM_POOL_SLICE_CTRL_SIZE) else none) := by
  rcases memPoolAlloc_cases pools s pool_id alloc_size with ⟨q, hq, hcall⟩ | hcall
  . by_cases hsize : alloc_size > (pools.mem_pool q).datasize
    . rw [hcall, memPoolAllocSw_size hsize]
      exact ⟨none, s, chains, rfl, h, Or.inl ⟨rfl, rfl⟩⟩
    . rcases h.alloc hq hsize with ⟨mem, halloc, hwaiting, -, hnone, hsome⟩
      refine ⟨_, mem, _, hcall.trans halloc, hwaiting, ?_⟩
      cases htaken : (chainRotation s chains q).taken with
      | none => exact Or.inl ⟨rfl, hnone.mpr htaken⟩
      | some a => exact Or.inr ⟨q, a, h.slice_of_taken hq htaken, hsome a htaken, rfl⟩
  . rw [hcall]
    exact ⟨none, s, chains, rfl, h, Or.inl ⟨rfl, rfl⟩⟩

theorem Waiting.calls (h : Waiting pools mscb s chains) (calls : List (Int × UInt32))
    : ∃ bufs mem chains', memPoolAllocs pools s calls = some (bufs, mem)
        ∧ Waiting pools mscb mem chains'
        ∧ ∀ buf, some buf ∈ bufs → ∃ a, buf = a + MEM_POOL_SLICE_CTRL_SIZE ∧ (mscb a).ref = 0 := by
  induction calls generalizing s chains with
  | nil => exact ⟨[], s, chains, rfl, h, fun _ hbuf => absurd hbuf List.not_mem_nil⟩
  | cons c calls ih =>
    rcases h.call c.1 c.2 with ⟨res, s1, chains1, hcall, h1, hres⟩
    rcases ih h1 with ⟨bufs, s2, chains2, hcalls, h2, hbufs⟩
    refine ⟨res :: bufs, s2, chains2, ?_, h2, ?_⟩
    . simp only [memPoolAllocs, hcall, hcalls, Option.bind_eq_bind, Option.bind_some]
    . intro buf hbuf
      rcases List.mem_cons.mp hbuf with rfl | hbuf
      . rcases hres with ⟨hnone, -⟩ | ⟨-, a, -, -, hfirst⟩
        . contradiction
        . split at hfirst
          . next href => exact ⟨a, Option.some.inj hfirst, href⟩
          . contradiction
      . exact hbufs buf hbuf

theorem Waiting.turns (h : Waiting pools mscb s chains) (hp : IsSw p) {sizes : List UInt32}
    (hsizes : ∀ size ∈ sizes, ¬ size > (pools.mem_pool p).datasize)
    : ∃ mem chains', memPoolAllocs pools s (sizes.map fun size => ((p.val : Int), size))
          = some ((List.range sizes.length).map fun m =>
              allocated mscb (Rotation.next^[m] (chainRotation s chains p)).taken, mem)
        ∧ Waiting pools mscb mem chains'
        ∧ chainRotation mem chains' p = Rotation.next^[sizes.length] (chainRotation s chains p) := by
  induction sizes generalizing s chains with
  | nil => exact ⟨s, chains, rfl, h, rfl⟩
  | cons size sizes ih =>
    rcases h.alloc hp (hsizes size (List.mem_cons_self ..)) with ⟨s1, hcall, h1, hindex, -⟩
    rcases ih h1 (fun size hsize => hsizes size (List.mem_cons_of_mem _ hsize)) with
      ⟨s2, chains2, hcalls, h2, hrotation⟩
    have hnext : chainRotation s1 (nextChains chains (p, selected (s.global_index p))) p
        = (chainRotation s chains p).next := chainRotation_next hindex
    rw [hnext] at hcalls hrotation
    refine ⟨s2, chains2, ?_, h2, hrotation⟩
    simp only [List.map_cons, memPoolAllocs, memPoolAlloc_sw hp, hcall, hcalls, Option.bind_eq_bind,
      Option.bind_some, List.length_cons, List.range_succ_eq_map, List.map_map]
    rfl

end Calls

end SecFw.Platform
