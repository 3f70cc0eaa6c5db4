import SecFw.Platform.MemPool

/-!
This module contains who owns a slice: one chain or one of the callers. The ownership is set up when
the slices are injected, and passed on by allocation and freeing.
-/

namespace SecFw.Platform

open LinkedRing

def sliceCtrl (k : MemPoolId × SubpoolId) (ref : UInt8) : MemSliceCtrlB where
  magic := MEM_POOL_MAGIC_NUM
  pool_id := UInt16.ofNat k.1.val
  subpool_id := UInt8.ofNat k.2.val
  ref := ref

structure Owned (pools : Pools) (n : MemPoolId → Nat) (keys : Set (MemPoolId × SubpoolId))
    (links : Links ListHead) (mscb : Nat → MemSliceCtrlB)
    (chains : MemPoolId × SubpoolId → List Nat) (held : Set Nat) : Prop where
  within : pools.Within n
  rings : Rings links keys Place.head fun k => (chains k).map sliceList
  linked : ∀ k ∈ keys, ∀ a ∈ chains k, pools.Slices n k.1 a ∧ mscb a = sliceCtrl k 0
  allocated : ∀ a ∈ held, ∃ k ∈ keys, pools.Slices n k.1 a ∧ mscb a = sliceCtrl k 1
  covers : ∀ p a, pools.Slices n p a → (∃ k ∈ keys, a ∈ chains k) ∨ a ∈ held

def Counted (keys : Set (MemPoolId × SubpoolId)) (s : MemPools)
    (chains : MemPoolId × SubpoolId → List Nat) : Prop :=
  -- `freenum` counts the slices of the chains
  ∀ k ∈ keys, (s.freenum k).toNat = (chains k).length

section Ctrl

variable (k k' : MemPoolId × SubpoolId) (ref ref' : UInt8)

@[simp]
theorem sliceCtrl_ref : (sliceCtrl k ref).ref = ref := rfl

theorem sliceCtrl_pool_id : (sliceCtrl k ref).pool_id.toNat = k.1.val := by
  have : k.1.val < 4 := k.1.isLt
  rw [sliceCtrl, UInt16.toNat_ofNat']
  omega

theorem sliceCtrl_subpool_id : (sliceCtrl k ref).subpool_id.toNat = k.2.val := by
  have : k.2.val < 4 := k.2.isLt
  rw [sliceCtrl, UInt8.toNat_ofNat']
  omega

variable {k k' ref ref'} in
theorem sliceCtrl_inj (h : sliceCtrl k ref = sliceCtrl k' ref') : k = k' ∧ ref = ref' := by
  have hpool := congrArg (fun c => c.pool_id.toNat) h
  have hsubpool := congrArg (fun c => c.subpool_id.toNat) h
  simp only [sliceCtrl_pool_id, sliceCtrl_subpool_id] at hpool hsubpool
  exact ⟨Prod.ext (Fin.ext hpool) (Fin.ext hsubpool), congrArg MemSliceCtrlB.ref h⟩

end Ctrl

namespace Owned

variable {pools : Pools} {n : MemPoolId → Nat} {keys : Set (MemPoolId × SubpoolId)}
  {links : Links ListHead} {mscb : Nat → MemSliceCtrlB}
  {chains : MemPoolId × SubpoolId → List Nat} {held : Set Nat} {k : MemPoolId × SubpoolId} {a : Nat}

theorem list_mem_iff {xs : List Nat} : sliceList a ∈ xs.map sliceList ↔ a ∈ xs := by
  simp

theorem map_update (chains : MemPoolId × SubpoolId → List Nat) (k : MemPoolId × SubpoolId)
    (xs : List Nat)
    : (fun k' => (Function.update chains k xs k').map sliceList)
        = Function.update (fun k' => (chains k').map sliceList) k (xs.map sliceList) := by
  funext k'
  by_cases hne : k' = k
  . subst hne
    rw [Function.update_self, Function.update_self]
  . rw [Function.update_of_ne hne, Function.update_of_ne hne]

theorem key_unique {k' : MemPoolId × SubpoolId} (h : Owned pools n keys links mscb chains held)
    (hk : k ∈ keys) (hk' : k' ∈ keys) (ha : a ∈ chains k) (ha' : a ∈ chains k') : k = k' := by
  have heq := (h.linked k hk a ha).2.symm.trans (h.linked k' hk' a ha').2
  exact (sliceCtrl_inj heq).1

theorem not_held (h : Owned pools n keys links mscb chains held) (hk : k ∈ keys) (ha : a ∈ chains k)
    : a ∉ held := by
  intro hheld
  rcases h.allocated a hheld with ⟨k', -, -, hctrl⟩
  have heq := (h.linked k hk a ha).2.symm.trans hctrl
  exact absurd (sliceCtrl_inj heq).2 (by decide)

theorem nodup (h : Owned pools n keys links mscb chains held) (hk : k ∈ keys) : (chains k).Nodup :=
  List.Nodup.of_map _ (List.nodup_cons.mp (h.rings.ring k hk).nodup).2

theorem length_le (h : Owned pools n keys links mscb chains held) (hk : k ∈ keys)
    : (chains k).length ≤ (pools.mem_pool k.1).slicenum.toNat := by
  have hsub : chains k ⊆ (List.range (n k.1)).map (pools.slice k.1) := by
    intro a ha
    rcases (h.linked k hk a ha).1 with ⟨j, hj, rfl⟩
    exact List.mem_map_of_mem (List.mem_range.mpr hj)
  have hlen := (List.subperm_of_subset (h.nodup hk) hsub).length_le
  rw [List.length_map, List.length_range] at hlen
  exact Nat.le_trans hlen (h.within k.1)

theorem alloc {xs : List Nat} (h : Owned pools n keys links mscb chains held) (hk : k ∈ keys)
    (hchain : chains k = a :: xs)
    : Owned pools n keys (links.del .poison (.list a))
        (Function.update mscb a { mscb a with ref := 1 }) (Function.update chains k xs)
        (insert a held) := by
  have hmem : a ∈ chains k := hchain ▸ List.mem_cons_self ..
  have hnodup := h.nodup hk
  rw [hchain, List.nodup_cons] at hnodup
  have hctrl := (h.linked k hk a hmem).2
  have hold {k' : MemPoolId × SubpoolId} {b : Nat} (hb : b ∈ Function.update chains k xs k')
      : b ∈ chains k' ∧ (k' ∈ keys → b ≠ a) := by
    by_cases hne : k' = k
    . subst hne
      rw [Function.update_self] at hb
      refine ⟨hchain ▸ List.mem_cons_of_mem a hb, ?_⟩
      rintro - rfl
      exact hnodup.1 hb
    . rw [Function.update_of_ne hne] at hb
      refine ⟨hb, ?_⟩
      rintro hk' rfl
      exact hne (h.key_unique hk' hk hb hmem)
  constructor
  . exact h.within
  . rw [map_update]
    exact h.rings.del hk (by rw [hchain, List.map_cons]) Place.poison
  . intro k' hk' b hb
    rcases hold hb with ⟨hb, hne⟩
    rw [Function.update_of_ne (hne hk')]
    exact h.linked k' hk' b hb
  . intro b hb
    rcases hb with rfl | hb
    . refine ⟨k, hk, (h.linked k hk b hmem).1, ?_⟩
      rw [Function.update_self, hctrl]
      rfl
    . have hne : b ≠ a := by
        rintro rfl
        exact h.not_held hk hmem hb
      rw [Function.update_of_ne hne]
      exact h.allocated b hb
  . intro p b hb
    rcases h.covers p b hb with ⟨k', hk', hb⟩ | hb
    . by_cases hne : k' = k
      . subst hne
        rw [hchain, List.mem_cons] at hb
        rcases hb with rfl | hb
        . exact Or.inr (Set.mem_insert _ _)
        . refine Or.inl ⟨k', hk', ?_⟩
          rw [Function.update_self]
          exact hb
      . refine Or.inl ⟨k', hk', ?_⟩
        rw [Function.update_of_ne hne]
        exact hb
    . exact Or.inr (Set.mem_insert_of_mem _ hb)

theorem free (h : Owned pools n keys links mscb chains held) (hk : k ∈ keys) (ha : a ∈ held)
    (hctrl : mscb a = sliceCtrl k 1) (hslice : pools.Slices n k.1 a)
    : Owned pools n keys (links.add (.list a) (Place.head k))
        (Function.update mscb a { mscb a with ref := 0 }) (Function.update chains k (a :: chains k))
        (held \ {a}) := by
  have hfresh {k' : MemPoolId × SubpoolId} (hk' : k' ∈ keys) : a ∉ chains k' :=
    fun hmem => h.not_held hk' hmem ha
  constructor
  . exact h.within
  . rw [map_update]
    apply h.rings.add hk
    intro k' hk'
    rw [List.mem_cons, list_mem_iff, not_or]
    exact ⟨by simp, hfresh hk'⟩
  . intro k' hk' b hb
    have hcases : (k' = k ∧ b = a) ∨ b ∈ chains k' := by
      by_cases hne : k' = k
      . subst hne
        rw [Function.update_self, List.mem_cons] at hb
        tauto
      . rw [Function.update_of_ne hne] at hb
        exact Or.inr hb
    rcases hcases with ⟨rfl, rfl⟩ | hb
    . rw [Function.update_self, hctrl]
      exact ⟨hslice, rfl⟩
    . rw [Function.update_of_ne (ne_of_mem_of_not_mem hb (hfresh hk'))]
      exact h.linked k' hk' b hb
  . intro b hb
    have hne : b ≠ a := hb.2
    rw [Function.update_of_ne hne]
    exact h.allocated b hb.1
  . intro p b hb
    by_cases hne : b = a
    . subst hne
      refine Or.inl ⟨k, hk, ?_⟩
      rw [Function.update_self]
      exact List.mem_cons_self ..
    . rcases h.covers p b hb with ⟨k', hk', hb⟩ | hb
      . refine Or.inl ⟨k', hk', ?_⟩
        by_cases hkne : k' = k
        . subst hkne
          rw [Function.update_self]
          exact List.mem_cons_of_mem a hb
        . rw [Function.update_of_ne hkne]
          exact hb
      . exact Or.inr ⟨hb, hne⟩

theorem inject (h : Owned pools n keys links mscb chains held) (hk : k ∈ keys)
    (hroom : n k.1 < (pools.mem_pool k.1).slicenum.toNat) (ha : a = pools.slice k.1 (n k.1))
    : Owned pools (Function.update n k.1 (n k.1 + 1)) keys (links.add (.list a) (Place.head k))
        (Function.update mscb a (sliceCtrl k 0)) (Function.update chains k (a :: chains k)) held := by
  have hnew (q : MemPoolId) : ¬ pools.Slices n q a := ha ▸ Pools.not_slices_next h.within hroom q
  have hslices (q : MemPoolId) (b : Nat) : pools.Slices (Function.update n k.1 (n k.1 + 1)) q b
      ↔ pools.Slices n q b ∨ (q = k.1 ∧ b = a) := by
    rw [ha]
    exact Pools.slices_next_iff
  have hfresh {k' : MemPoolId × SubpoolId} (hk' : k' ∈ keys) : a ∉ chains k' :=
    fun hmem => hnew _ (h.linked k' hk' a hmem).1
  constructor
  . intro q
    by_cases hne : q = k.1
    . rw [hne, Function.update_self]
      exact hroom
    . rw [Function.update_of_ne hne]
      exact h.within q
  . rw [map_update]
    apply h.rings.add hk
    intro k' hk'
    rw [List.mem_cons, list_mem_iff, not_or]
    exact ⟨by simp, hfresh hk'⟩
  . intro k' hk' b hb
    rw [hslices]
    have hcases : (k' = k ∧ b = a) ∨ b ∈ chains k' := by
      by_cases hne : k' = k
      . subst hne
        rw [Function.update_self, List.mem_cons] at hb
        tauto
      . rw [Function.update_of_ne hne] at hb
        exact Or.inr hb
    rcases hcases with ⟨rfl, rfl⟩ | hb
    . rw [Function.update_self]
      exact ⟨Or.inr ⟨rfl, rfl⟩, rfl⟩
    . rw [Function.update_of_ne (ne_of_mem_of_not_mem hb (hfresh hk'))]
      exact ⟨Or.inl (h.linked k' hk' b hb).1, (h.linked k' hk' b hb).2⟩
  . intro b hb
    rcases h.allocated b hb with ⟨k', hk', hslice, hctrl⟩
    have hne : b ≠ a := by
      rintro rfl
      exact hnew _ hslice
    rw [Function.update_of_ne hne]
    exact ⟨k', hk', (hslices _ _).mpr (Or.inl hslice), hctrl⟩
  . intro q b hb
    rw [hslices] at hb
    rcases hb with hb | ⟨-, rfl⟩
    . rcases h.covers q b hb with ⟨k', hk', hb⟩ | hb
      . refine Or.inl ⟨k', hk', ?_⟩
        by_cases hne : k' = k
        . subst hne
          rw [Function.update_self]
          exact List.mem_cons_of_mem a hb
        . rw [Function.update_of_ne hne]
          exact hb
      . exact Or.inr hb
    . refine Or.inl ⟨k, hk, ?_⟩
      rw [Function.update_self]
      exact List.mem_cons_self ..

theorem initChain (h : Owned pools n keys links mscb chains held) (hk : k ∉ keys)
    : Owned pools n (insert k keys) (links.init (Place.head k)) mscb (Function.update chains k [])
        held := by
  have hold {k' : MemPoolId × SubpoolId} (hk' : k' ∈ keys)
      : Function.update chains k [] k' = chains k' :=
    Function.update_of_ne (ne_of_mem_of_not_mem hk' hk) _ _
  constructor
  . exact h.within
  . rw [map_update]
    apply h.rings.init hk
    intro k' hk' hmem
    rw [List.mem_cons, List.mem_map] at hmem
    rcases hmem with heq | ⟨b, -, heq⟩
    . rw [Place.head.injEq] at heq
      exact hk (heq ▸ hk')
    . contradiction
  . intro k' hk' b hb
    rcases hk' with rfl | hk'
    . rw [Function.update_self] at hb
      contradiction
    . rw [hold hk'] at hb
      exact h.linked k' hk' b hb
  . intro b hb
    rcases h.allocated b hb with ⟨k', hk', hctrl⟩
    exact ⟨k', Set.mem_insert_of_mem _ hk', hctrl⟩
  . intro q b hb
    rcases h.covers q b hb with ⟨k', hk', hb⟩ | hb
    . exact Or.inl ⟨k', Set.mem_insert_of_mem _ hk', by rw [hold hk']; exact hb⟩
    . exact Or.inr hb

end Owned

structure Injected (pools : Pools) (n : MemPoolId → Nat) (keys : Set (MemPoolId × SubpoolId))
    (s : MemPools) (chains : MemPoolId × SubpoolId → List Nat) : Prop where
  owned : Owned pools n keys s.links s.mscb chains ∅
  fresh : ∀ a, (∀ p, ¬ pools.Slices n p a) → (s.mscb a).ref = 0

namespace Injected

variable {pools : Pools} {n : MemPoolId → Nat} {keys : Set (MemPoolId × SubpoolId)}
  {s : MemPools} {chains : MemPoolId × SubpoolId → List Nat} {p : MemPoolId} {i : SubpoolId}

theorem injectSlice (h : Injected pools n keys s chains) (hk : (p, i) ∈ keys)
    (hroom : n p < (pools.mem_pool p).slicenum.toNat)
    : ∃ s', injectSlice pools p i (s, pools.slice p (n p)) = (s', pools.slice p (n p + 1))
        ∧ Injected pools (Function.update n p (n p + 1)) keys s'
          (Function.update chains (p, i) (pools.slice p (n p) :: chains (p, i)))
        ∧ s'.freenum = s.freenum := by
  have hnext : pools.slice p (n p) + (pools.mem_pool p).slicesize.toNat
      = pools.slice p (n p + 1) := by
    rw [Pools.slice, Pools.slice, Nat.succ_mul, Nat.add_assoc]
  have hzero := h.fresh _ (Pools.not_slices_next h.owned.within hroom)
  have hctrl : sliceCtrl (p, i) 0 = { s.mscb (pools.slice p (n p)) with
      magic := MEM_POOL_MAGIC_NUM
      pool_id := UInt16.ofNat p.val
      subpool_id := UInt8.ofNat i.val } := by rw [sliceCtrl, ← hzero]
  refine ⟨⟨s.links.add (.list (pools.slice p (n p))) (.head (p, i)),
    Function.update s.mscb (pools.slice p (n p)) (sliceCtrl (p, i) 0), s.global_index, s.freenum⟩,
    ?_, ⟨h.owned.inject hk hroom rfl, ?_⟩, rfl⟩
  . rw [Platform.injectSlice, hnext, hctrl]
  . intro a ha
    have hne : a ≠ pools.slice p (n p) := by
      rintro rfl
      exact ha p (Pools.slices_next_iff.mpr (Or.inr ⟨rfl, rfl⟩))
    simp only
    rw [Function.update_of_ne hne]
    apply h.fresh
    intro q hq
    exact ha q (Pools.slices_next_iff.mpr (Or.inl hq))

theorem injectSlices (h : Injected pools n keys s chains) (hk : (p, i) ∈ keys) (m : Nat)
    (hroom : n p + m ≤ (pools.mem_pool p).slicenum.toNat)
    : ∃ s' xs, (Platform.injectSlice pools p i)^[m] (s, pools.slice p (n p))
          = (s', pools.slice p (n p + m))
        ∧ Injected pools (Function.update n p (n p + m)) keys s' (Function.update chains (p, i) xs)
        ∧ xs.length = (chains (p, i)).length + m ∧ s'.freenum = s.freenum := by
  induction m with
  | zero =>
    refine ⟨s, chains (p, i), rfl, ?_, rfl, rfl⟩
    rw [Nat.add_zero, Function.update_eq_self, Function.update_eq_self]
    exact h
  | succ m ih =>
    rcases ih (by omega) with ⟨s1, xs, hrun, hinjected, hlen, hfreenum⟩
    have hn : Function.update n p (n p + m) p = n p + m := Function.update_self ..
    rcases hinjected.injectSlice hk (by rw [hn]; omega) with ⟨s2, hstep, hinjected2, hfreenum2⟩
    rw [hn, Function.update_self, Function.update_idem, Function.update_idem] at hinjected2
    rw [hn] at hstep
    refine ⟨s2, _, ?_, hinjected2, ?_, hfreenum2.trans hfreenum⟩
    . rw [Function.iterate_succ_apply', hrun, hstep, Nat.add_assoc]
    . rw [List.length_cons, hlen, Nat.add_assoc]

theorem injectChain (h : Injected pools n keys s chains) (hcounted : Counted keys s chains)
    (hk : (p, i) ∉ keys) (num : UInt32)
    (hroom : n p + num.toNat ≤ (pools.mem_pool p).slicenum.toNat)
    : ∃ s' chains', injectChain pools p num (s, pools.slice p (n p)) i
          = (s', pools.slice p (n p + num.toNat))
        ∧ Injected pools (Function.update n p (n p + num.toNat)) (insert (p, i) keys) s' chains'
        ∧ Counted (insert (p, i) keys) s' chains' := by
  have hinit : Injected pools n (insert (p, i) keys) { s with links := s.links.init (Place.head (p, i)) }
      (Function.update chains (p, i) []) := ⟨h.owned.initChain hk, h.fresh⟩
  rcases hinit.injectSlices (Set.mem_insert _ _) num.toNat hroom with
    ⟨s1, xs, hrun, hinjected, hlen, hfreenum⟩
  rw [Function.update_self, List.length_nil, Nat.zero_add] at hlen
  rw [Function.update_idem] at hinjected
  refine ⟨{ s1 with freenum := Function.update s1.freenum (p, i) num }, _, ?_,
    ⟨hinjected.owned, hinjected.fresh⟩, ?_⟩
  . simp only [Platform.injectChain, hrun]
  . intro k' hk'
    rcases hk' with rfl | hk'
    . rw [Function.update_self, hlen]
      simp only [Function.update_self]
    . have hne := ne_of_mem_of_not_mem hk' hk
      rw [Function.update_of_ne hne, ← hcounted k' hk']
      simp only [Function.update_of_ne hne, hfreenum]

theorem injectChain_update {j : Nat} (h : Injected pools (Function.update n p j) keys s chains)
    (hcounted : Counted keys s chains) (hk : (p, i) ∉ keys) (num : UInt32)
    (hroom : j + num.toNat ≤ (pools.mem_pool p).slicenum.toNat)
    : ∃ s' chains', Platform.injectChain pools p num (s, pools.slice p j) i
          = (s', pools.slice p (j + num.toNat))
        ∧ Injected pools (Function.update n p (j + num.toNat)) (insert (p, i) keys) s' chains'
        ∧ Counted (insert (p, i) keys) s' chains' := by
  have hstep := h.injectChain hcounted hk num
  rw [Function.update_self, Function.update_idem] at hstep
  exact hstep hroom

theorem injectPool {s' : MemPools} (h : Injected pools n keys s chains)
    (hcounted : Counted keys s chains) (hn : n p = 0) (hkeys : ∀ i, (p, i) ∉ keys)
    (hinject : memPoolSwSliceInject pools s p = some s')
    : ∃ chains', Injected pools (Function.update n p (pools.mem_pool p).slicenum.toNat)
          (keys ∪ { k | k.1 = p }) s' chains'
        ∧ Counted (keys ∪ { k | k.1 = p }) s' chains' := by
  rw [memPoolSwSliceInject] at hinject
  split at hinject
  . contradiction
  . next hmod =>
    rw [Option.some.injEq] at hinject
    rw [not_not, ← UInt32.toNat_inj, UInt32.toNat_mod] at hmod
    have hnum : ((pools.mem_pool p).slicenum / 4).toNat
        = (pools.mem_pool p).slicenum.toNat / 4 := UInt32.toNat_div ..
    have hstart : (pools.mem_pool p).start = pools.slice p 0 := by
      rw [Pools.slice, Nat.zero_mul, Nat.add_zero]
    have hzero : Function.update n p 0 = n := by rw [← hn, Function.update_eq_self]
    have hdiv : (pools.mem_pool p).slicenum.toNat
        = 4 * ((pools.mem_pool p).slicenum.toNat / 4) := by
      simp only [UInt32.reduceToNat] at hmod
      omega
    rw [← hzero] at h
    generalize (pools.mem_pool p).slicenum / 4 = num at hinject hnum
    rcases h.injectChain_update hcounted (hkeys 0) num (by omega) with ⟨s1, _, hrun1, h1, hc1⟩
    rcases h1.injectChain_update (i := 1) hc1 (by simp [hkeys]) num (by omega) with
      ⟨s2, _, hrun2, h2, hc2⟩
    rcases h2.injectChain_update (i := 2) hc2 (by simp [hkeys]) num (by omega) with
      ⟨s3, _, hrun3, h3, hc3⟩
    rcases h3.injectChain_update (i := 3) hc3 (by simp [hkeys]) num (by omega) with
      ⟨s4, chains4, hrun4, h4, hc4⟩
    have hrange : List.finRange MEM_POOL_INTERNAL_NUM = [0, 1, 2, 3] := rfl
    rw [hrange, hstart, List.foldl_cons, hrun1, List.foldl_cons, hrun2, List.foldl_cons, hrun3,
      List.foldl_cons, hrun4, List.foldl_nil] at hinject
    have hall : insert (p, 3) (insert (p, 2) (insert (p, 1) (insert (p, 0) keys)))
        = keys ∪ { k | k.1 = p } := by
      ext ⟨q, i⟩
      simp only [Set.mem_insert_iff, Prod.mk.injEq, Set.mem_union, Set.mem_ofPred_eq]
      fin_cases i <;> simp <;> tauto
    have hsum : 0 + num.toNat + num.toNat + num.toNat + num.toNat
        = (pools.mem_pool p).slicenum.toNat := by omega
    have hs : s4 = s' := hinject
    subst hs
    rw [hall] at hc4
    rw [hall, hsum] at h4
    exact ⟨chains4, h4, hc4⟩

theorem start (h : ∀ a, (s.mscb a).ref = 0) : Injected pools (fun _ => 0) ∅ s fun _ => [] := by
  refine ⟨⟨fun _ => Nat.zero_le _, Rings.empty _ _ _, ?_, ?_, ?_⟩, fun a _ => h a⟩
  . intro k hk
    exact absurd hk (Set.notMem_empty k)
  . intro a ha
    exact absurd ha (Set.notMem_empty a)
  . rintro q a ⟨j, hj, -⟩
    exact absurd hj (Nat.not_lt_zero j)

theorem clearCfg (h : Injected pools n keys s chains) (hkeys : ∀ i, (p, i) ∉ keys)
    : Injected pools n keys (clearCfg s p) chains := by
  have hcfg {k : MemPoolId × SubpoolId} (hk : k ∈ keys) {x : ListHead}
      (hx : x ∈ Place.head k :: (chains k).map sliceList) : inCfg p x = false := by
    rcases List.mem_cons.mp hx with rfl | hx
    . rw [inCfg, beq_eq_false_iff_ne]
      rintro rfl
      exact hkeys k.2 hk
    . rcases List.mem_map.mp hx with ⟨a, -, rfl⟩
      rfl
  refine ⟨⟨h.owned.within, ⟨?_, h.owned.rings.disjoint⟩, h.owned.linked, h.owned.allocated,
    h.owned.covers⟩, h.fresh⟩
  intro k hk
  apply (h.owned.rings.ring k hk).congr
  . intro x hx
    simp [Platform.clearCfg, hcfg hk hx]
  . intro x hx
    simp [Platform.clearCfg, hcfg hk hx]

end Injected

theorem Counted.clearCfg {keys : Set (MemPoolId × SubpoolId)} {s : MemPools}
    {chains : MemPoolId × SubpoolId → List Nat} {p : MemPoolId} (h : Counted keys s chains)
    (hkeys : ∀ i, (p, i) ∉ keys) : Counted keys (clearCfg s p) chains := by
  intro k hk
  have hne : k.1 ≠ p := by
    rintro rfl
    exact hkeys k.2 hk
  rw [← h k hk]
  simp only [Platform.clearCfg, if_neg hne]

/-- The software pools. -/
def IsSw (p : MemPoolId) : Prop := p = 2 ∨ p = 3

def swKeys : Set (MemPoolId × SubpoolId) := { k | IsSw k.1 }

def Pools.swSlices (pools : Pools) (p : MemPoolId) : Nat :=
  if p = 2 ∨ p = 3 then (pools.mem_pool p).slicenum.toNat else 0

theorem injected_memPoolInitOn {pools : Pools} {mem s : MemPools} (hmem : ∀ a, (mem.mscb a).ref = 0)
    (h : memPoolInitOn pools mem = some s)
    : ∃ chains, Injected pools pools.swSlices swKeys s chains ∧ Counted swKeys s chains := by
  simp only [memPoolInitOn, Option.bind_eq_bind, Option.bind_eq_some_iff] at h
  rcases h with ⟨s1, h1, h2⟩
  have hcounted (s : MemPools) : Counted ∅ s fun _ => [] := fun k hk => absurd hk (Set.notMem_empty k)
  have hstart : Injected pools (fun _ => 0) ∅ mem fun _ => [] := .start hmem
  rcases (hstart.clearCfg (p := 2) fun _ => Set.notMem_empty _).injectPool (hcounted _) rfl
    (fun _ => Set.notMem_empty _) h1 with
    ⟨chains1, hinjected1, hcounted1⟩
  have hother (i : SubpoolId) : (3, i) ∉ ∅ ∪ { k : MemPoolId × SubpoolId | k.1 = 2 } := by simp
  rcases (hinjected1.clearCfg hother).injectPool (hcounted1.clearCfg hother) rfl hother h2 with
    ⟨chains2, hinjected2, hcounted2⟩
  have hkeys : (∅ ∪ { k : MemPoolId × SubpoolId | k.1 = 2 }) ∪ { k | k.1 = 3 } = swKeys := by
    rw [Set.empty_union]
    rfl
  have hn : Function.update (Function.update (fun _ => 0) 2 (pools.mem_pool 2).slicenum.toNat) 3
      (pools.mem_pool 3).slicenum.toNat = pools.swSlices := by
    funext q
    fin_cases q <;> rfl
  rw [hkeys] at hinjected2 hcounted2
  rw [hn] at hinjected2
  exact ⟨chains2, hinjected2, hcounted2⟩

theorem injected_memPoolInit {pools : Pools} {s : MemPools} (h : memPoolInit pools = some s)
    : ∃ chains, Injected pools pools.swSlices swKeys s chains ∧ Counted swKeys s chains := by
  rw [← memPoolInitOn_zeroMemPools] at h
  exact injected_memPoolInitOn (fun _ => rfl) h

end SecFw.Platform
