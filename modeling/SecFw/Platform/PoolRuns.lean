import SecFw.Platform.PoolTurns

/-!
This module contains the proof that every slice of the pools is linked in one chain or held by one
caller, whatever is allocated and freed in which order.
-/

namespace SecFw.Platform

open LinkedRing

section Operations

variable {pools : Pools} {n : MemPoolId → Nat} {s : MemPools}
  {chains : MemPoolId × SubpoolId → List Nat} {held : Set Nat} {p : MemPoolId}

theorem memPoolAllocSw_cases (h : Owned pools n swKeys s.links s.mscb chains held) (hp : IsSw p)
    (alloc_size : UInt32)
    : (∃ global_index, memPoolAllocSw pools s p alloc_size
          = some (none, { s with global_index := global_index }))
      ∨ ∃ i a xs global_index, chains (p, i) = a :: xs
          ∧ memPoolAllocSw pools s p alloc_size = some (some (a + MEM_POOL_SLICE_CTRL_SIZE),
            ⟨s.links.del .poison (.list a),
              Function.update s.mscb a { s.mscb a with ref := 1 }, global_index,
              Function.update s.freenum (p, i) (s.freenum (p, i) - 1)⟩) := by
  by_cases hsize : alloc_size > (pools.mem_pool p).datasize
  . exact Or.inl ⟨s.global_index, memPoolAllocSw_size hsize⟩
  . have hring := h.rings.ring (p, selected (s.global_index p)) hp
    cases hchain : chains (p, selected (s.global_index p)) with
    | nil =>
      rw [hchain] at hring
      exact Or.inl ⟨_, memPoolAllocSw_empty hsize hring⟩
    | cons a xs =>
      rw [hchain] at hring
      have hctrl := (h.linked (p, selected (s.global_index p)) hp a
        (hchain ▸ List.mem_cons_self ..)).2
      have href : (s.mscb a).ref = 0 := by
        rw [hctrl, sliceCtrl_ref]
      have hfirst := memPoolAllocSw_first hsize hring
      rw [if_pos href, if_pos href] at hfirst
      exact Or.inr ⟨_, a, xs, _, hchain, hfirst⟩

theorem memPoolFree_held {k : MemPoolId × SubpoolId} {a : Nat} (h : s.mscb a = sliceCtrl k 1)
    : memPoolFree s (a + MEM_POOL_SLICE_CTRL_SIZE)
        = { s with
            mscb := Function.update s.mscb a { s.mscb a with ref := 0 }
            links := s.links.add (.list a) (Place.head k)
            freenum := Function.update s.freenum k (s.freenum k + 1) } := by
  have hpool : ¬ (sliceCtrl k 1).pool_id.toNat ≥ MEM_POOL_ID_MAX := by
    rw [sliceCtrl_pool_id]
    exact Nat.not_le_of_lt k.1.isLt
  have hsubpool : ¬ (sliceCtrl k 1).subpool_id.toNat ≥ MEM_POOL_INTERNAL_NUM := by
    rw [sliceCtrl_subpool_id]
    exact Nat.not_le_of_lt k.2.isLt
  have hk1 : (⟨(sliceCtrl k 1).pool_id.toNat, Nat.lt_of_not_le hpool⟩ : MemPoolId) = k.1 :=
    Fin.ext (sliceCtrl_pool_id k 1)
  have hk2 : (⟨(sliceCtrl k 1).subpool_id.toNat, Nat.lt_of_not_le hsubpool⟩ : SubpoolId) = k.2 :=
    Fin.ext (sliceCtrl_subpool_id k 1)
  have hmagic : ¬ (sliceCtrl k 1).magic ≠ MEM_POOL_MAGIC_NUM := not_not.mpr rfl
  have href : ¬ (sliceCtrl k 1).ref ≠ 1 := not_not.mpr rfl
  simp only [memPoolFree, Nat.add_sub_cancel, h, if_neg hmagic, dif_neg hpool, dif_neg hsubpool,
    if_neg href, hk1, hk2, Prod.mk.eta]

theorem memPoolFree_free {k : MemPoolId × SubpoolId} {a : Nat} (h : s.mscb a = sliceCtrl k 0)
    : memPoolFree s (a + MEM_POOL_SLICE_CTRL_SIZE) = s := by
  have href : (sliceCtrl k 0).ref ≠ 1 := by
    rw [sliceCtrl_ref]
    decide
  simp only [memPoolFree, Nat.add_sub_cancel, h, if_pos href]
  split
  . rfl
  . split
    . rfl
    . split <;> rfl

end Operations

structure Run (Caller : Type) where
  -- the pools and the buffers that their callers hold
  mem : MemPools
  held : Set (Caller × Nat)

section Runs

variable {Caller : Type} (pools : Pools)

inductive Step : Run Caller → Run Caller → Prop where
  | alloc {r : Run Caller} {pool_id : Int} {alloc_size : UInt32} {buf : Nat} {mem : MemPools}
      (c : Caller) (h : memPoolAlloc pools r.mem pool_id alloc_size = some (some buf, mem))
    : Step r ⟨mem, insert (c, buf) r.held⟩
  | allocNull {r : Run Caller} {pool_id : Int} {alloc_size : UInt32} {mem : MemPools}
      (h : memPoolAlloc pools r.mem pool_id alloc_size = some (none, mem))
    : Step r ⟨mem, r.held⟩
  | free {r : Run Caller} {c : Caller} {buf : Nat} (h : (c, buf) ∈ r.held)
    : Step r ⟨memPoolFree r.mem buf, r.held \ {(c, buf)}⟩
  | freeAgain {r : Run Caller} {p : MemPoolId} {a : Nat} (hslice : pools.Slices pools.swSlices p a)
      (h : ∀ c, (c, a + MEM_POOL_SLICE_CTRL_SIZE) ∉ r.held)
    : Step r ⟨memPoolFree r.mem (a + MEM_POOL_SLICE_CTRL_SIZE), r.held⟩

inductive Reachable : Run Caller → Prop where
  | init {mem : MemPools} (h : memPoolInit pools = some mem) : Reachable ⟨mem, ∅⟩
  | step {r r' : Run Caller} (h : Reachable r) (hstep : Step pools r r') : Reachable r'

/-- Every slice is linked once, in the chain that it names, or held by one caller. -/
structure Accounted (r : Run Caller) (chains : MemPoolId × SubpoolId → List Nat) : Prop where
  chain : ∀ k ∈ swKeys, IsRing r.mem.links (Place.head k) ((chains k).map sliceList)
  slice : ∀ k ∈ swKeys, ∀ a ∈ chains k, pools.Slices pools.swSlices k.1 a
  freenum : ∀ k ∈ swKeys, (r.mem.freenum k).toNat = (chains k).length
  place : ∀ p a, pools.Slices pools.swSlices p a →
    (∃ i, (r.mem.mscb a).subpool_id.toNat = i.val ∧ (chains (p, i)).count a = 1
        ∧ (∀ k ∈ swKeys, k ≠ (p, i) → a ∉ chains k)
        ∧ (∀ c, (c, a + MEM_POOL_SLICE_CTRL_SIZE) ∉ r.held) ∧ (r.mem.mscb a).ref = 0)
    ∨ ((∀ k ∈ swKeys, a ∉ chains k) ∧ (∃! c, (c, a + MEM_POOL_SLICE_CTRL_SIZE) ∈ r.held)
        ∧ (r.mem.mscb a).ref = 1)

def heldSlices (r : Run Caller) : Set Nat :=
  { a | ∃ c, (c, a + MEM_POOL_SLICE_CTRL_SIZE) ∈ r.held }

structure Invariant (r : Run Caller) (chains : MemPoolId × SubpoolId → List Nat) : Prop where
  owned : Owned pools pools.swSlices swKeys r.mem.links r.mem.mscb chains (heldSlices r)
  counted : Counted swKeys r.mem chains
  behind : ∀ c buf, (c, buf) ∈ r.held → MEM_POOL_SLICE_CTRL_SIZE ≤ buf
  one : ∀ c c' buf, (c, buf) ∈ r.held → (c', buf) ∈ r.held → c = c'

variable {pools} {r r' : Run Caller} {chains : MemPoolId × SubpoolId → List Nat}

namespace Invariant

theorem not_held {k : MemPoolId × SubpoolId} {a : Nat} (h : Invariant pools r chains)
    (hk : k ∈ swKeys) (ha : a ∈ chains k) (c : Caller)
    : (c, a + MEM_POOL_SLICE_CTRL_SIZE) ∉ r.held :=
  fun hheld => h.owned.not_held hk ha ⟨c, hheld⟩

theorem free_ctrl {p : MemPoolId} {a : Nat} (h : Invariant pools r chains)
    (hslice : pools.Slices pools.swSlices p a)
    (hfree : ∀ c, (c, a + MEM_POOL_SLICE_CTRL_SIZE) ∉ r.held)
    : ∃ k ∈ swKeys, a ∈ chains k ∧ k.1 = p ∧ r.mem.mscb a = sliceCtrl k 0 := by
  rcases h.owned.covers p a hslice with ⟨k, hk, ha⟩ | ⟨c, hc⟩
  . rcases h.owned.linked k hk a ha with ⟨hslice', hctrl⟩
    exact ⟨k, hk, ha, Pools.Slices.pool_unique h.owned.within hslice' hslice, hctrl⟩
  . exact absurd hc (hfree c)

theorem allocSw (h : Invariant pools r chains) {p : MemPoolId} (hp : IsSw p) (alloc_size : UInt32)
    : ∃ res mem, memPoolAllocSw pools r.mem p alloc_size = some (res, mem)
        ∧ (res = none → Invariant pools ⟨mem, r.held⟩ chains)
        ∧ ∀ buf, res = some buf → (∀ c, (c, buf) ∉ r.held)
          ∧ ∀ c, ∃ chains', Invariant pools ⟨mem, insert (c, buf) r.held⟩ chains' := by
  rcases memPoolAllocSw_cases h.owned hp alloc_size with
    ⟨global_index, hrun⟩ | ⟨i, a, xs, global_index, hchain, hrun⟩
  . refine ⟨none, _, hrun, fun _ => ⟨h.owned, h.counted, h.behind, h.one⟩, ?_⟩
    intro buf hbuf
    contradiction
  . refine ⟨_, _, hrun, fun hnone => by contradiction, ?_⟩
    intro buf hbuf
    rw [Option.some.injEq] at hbuf
    subst hbuf
    have hmem : a ∈ chains (p, i) := hchain ▸ List.mem_cons_self ..
    have hnot := h.not_held (k := (p, i)) hp hmem
    refine ⟨hnot, fun c => ⟨Function.update chains (p, i) xs, ?_, ?_, ?_, ?_⟩⟩
    . have hheld : heldSlices (⟨⟨r.mem.links.del .poison (.list a),
          Function.update r.mem.mscb a { r.mem.mscb a with ref := 1 }, global_index,
          Function.update r.mem.freenum (p, i) (r.mem.freenum (p, i) - 1)⟩,
          insert (c, a + MEM_POOL_SLICE_CTRL_SIZE) r.held⟩ : Run Caller)
          = insert a (heldSlices r) := by
        ext b
        simp only [heldSlices, Set.mem_ofPred_eq, Set.mem_insert_iff, Prod.mk.injEq,
          Nat.add_right_cancel_iff]
        constructor
        . rintro ⟨c', ⟨-, hb⟩ | hb⟩
          . exact Or.inl hb
          . exact Or.inr ⟨c', hb⟩
        . rintro (hb | ⟨c', hb⟩)
          . exact ⟨c, Or.inl ⟨rfl, hb⟩⟩
          . exact ⟨c', Or.inr hb⟩
      rw [hheld]
      exact h.owned.alloc hp hchain
    . intro k hk
      by_cases hne : k = (p, i)
      . subst hne
        have hcount := h.counted _ hk
        rw [hchain, List.length_cons] at hcount
        have hone : (1 : UInt32) ≤ r.mem.freenum (p, i) := by
          rw [UInt32.le_iff_toNat_le, hcount]
          exact Nat.le_add_left _ _
        simp only [Function.update_self]
        rw [UInt32.toNat_sub_of_le _ _ hone, hcount]
        rfl
      . simp only [Function.update_of_ne hne]
        exact h.counted k hk
    . intro c' buf hbuf
      rcases hbuf with heq | hbuf
      . rw [Prod.mk.injEq] at heq
        rw [heq.2]
        exact Nat.le_add_left _ _
      . exact h.behind c' buf hbuf
    . intro c1 c2 buf h1 h2
      simp only [Set.mem_insert_iff, Prod.mk.injEq] at h1 h2
      rcases h1 with ⟨rfl, rfl⟩ | h1
      . rcases h2 with ⟨rfl, -⟩ | h2
        . rfl
        . exact absurd h2 (hnot c2)
      . rcases h2 with ⟨rfl, rfl⟩ | h2
        . exact absurd h1 (hnot c1)
        . exact h.one c1 c2 buf h1 h2

theorem alloc (h : Invariant pools r chains) (pool_id : Int) (alloc_size : UInt32)
    : ∃ res mem, memPoolAlloc pools r.mem pool_id alloc_size = some (res, mem)
        ∧ (res = none → Invariant pools ⟨mem, r.held⟩ chains)
        ∧ ∀ buf, res = some buf → (∀ c, (c, buf) ∉ r.held)
          ∧ ∀ c, ∃ chains', Invariant pools ⟨mem, insert (c, buf) r.held⟩ chains' := by
  rw [memPoolAlloc]
  split
  . exact h.allocSw (Or.inl rfl) alloc_size
  . split
    . exact h.allocSw (Or.inr rfl) alloc_size
    . refine ⟨none, r.mem, rfl, fun _ => h, ?_⟩
      intro buf hbuf
      contradiction

theorem free {c : Caller} {buf : Nat} (h : Invariant pools r chains) (hheld : (c, buf) ∈ r.held)
    : ∃ chains', Invariant pools ⟨memPoolFree r.mem buf, r.held \ {(c, buf)}⟩ chains' := by
  rcases Nat.exists_eq_add_of_le' (h.behind c buf hheld) with ⟨a, rfl⟩
  have ha : a ∈ heldSlices r := ⟨c, hheld⟩
  rcases h.owned.allocated a ha with ⟨k, hk, hslice, hctrl⟩
  rw [memPoolFree_held hctrl]
  have howned := h.owned.free hk ha hctrl hslice
  refine ⟨Function.update chains k (a :: chains k), ?_, ?_, ?_, ?_⟩
  . have hdiff : heldSlices (⟨⟨r.mem.links.add (.list a) (Place.head k),
        Function.update r.mem.mscb a { r.mem.mscb a with ref := 0 }, r.mem.global_index,
        Function.update r.mem.freenum k (r.mem.freenum k + 1)⟩,
        r.held \ {(c, a + MEM_POOL_SLICE_CTRL_SIZE)}⟩ : Run Caller) = heldSlices r \ {a} := by
      ext b
      constructor
      . rintro ⟨c', hb, hne⟩
        refine ⟨⟨c', hb⟩, ?_⟩
        rintro rfl
        exact hne (by rw [h.one c' c _ hb hheld, Set.mem_singleton_iff])
      . rintro ⟨⟨c', hb⟩, hne⟩
        refine ⟨c', hb, ?_⟩
        intro heq
        rw [Set.mem_singleton_iff, Prod.mk.injEq, Nat.add_right_cancel_iff] at heq
        exact hne heq.2
    rw [hdiff]
    exact howned
  . intro k' hk'
    by_cases hne : k' = k
    . subst hne
      have hlen := howned.length_le hk'
      have hnum := (pools.mem_pool k'.1).slicenum.toNat_lt
      have hcount := h.counted k' hk'
      simp only [Function.update_self] at hlen ⊢
      rw [List.length_cons] at hlen ⊢
      rw [UInt32.toNat_add, hcount]
      exact Nat.mod_eq_of_lt (Nat.lt_of_le_of_lt hlen hnum)
    . simp only [Function.update_of_ne hne]
      exact h.counted k' hk'
  . intro c' buf hbuf
    exact h.behind c' buf hbuf.1
  . intro c1 c2 buf h1 h2
    exact h.one c1 c2 buf h1.1 h2.1

theorem freeAgain {p : MemPoolId} {a : Nat} (h : Invariant pools r chains)
    (hslice : pools.Slices pools.swSlices p a)
    (hfree : ∀ c, (c, a + MEM_POOL_SLICE_CTRL_SIZE) ∉ r.held)
    : memPoolFree r.mem (a + MEM_POOL_SLICE_CTRL_SIZE) = r.mem := by
  rcases h.free_ctrl hslice hfree with ⟨k, -, -, -, hctrl⟩
  exact memPoolFree_free hctrl

theorem step (h : Invariant pools r chains) (hstep : Step pools r r')
    : ∃ chains', Invariant pools r' chains' := by
  cases hstep with
  | alloc c hrun =>
    rcases h.alloc _ _ with ⟨res, mem, hrun', -, hbuf⟩
    rw [hrun, Option.some.injEq, Prod.mk.injEq] at hrun'
    rcases hrun' with ⟨rfl, rfl⟩
    exact (hbuf _ rfl).2 c
  | allocNull hrun =>
    rcases h.alloc _ _ with ⟨res, mem, hrun', hnone, -⟩
    rw [hrun, Option.some.injEq, Prod.mk.injEq] at hrun'
    rcases hrun' with ⟨rfl, rfl⟩
    exact ⟨chains, hnone rfl⟩
  | free hheld => exact h.free hheld
  | freeAgain hslice hfree =>
    rw [h.freeAgain hslice hfree]
    exact ⟨chains, h⟩

theorem of_reachable (h : Reachable pools r) : ∃ chains, Invariant pools r chains := by
  induction h with
  | @init mem hinit =>
    rcases injected_memPoolInit hinit with ⟨chains, hinjected, hcounted⟩
    refine ⟨chains, ?_, hcounted, ?_, ?_⟩
    . have hempty : heldSlices (⟨mem, ∅⟩ : Run Caller) = ∅ := by
        ext a
        simp [heldSlices]
      rw [hempty]
      exact hinjected.owned
    . intro c buf hbuf
      exact absurd hbuf (Set.notMem_empty _)
    . intro c c' buf hbuf
      exact absurd hbuf (Set.notMem_empty _)
  | step _ hstep ih =>
    rcases ih with ⟨chains, ih⟩
    exact ih.step hstep

theorem accounted (h : Invariant pools r chains) : Accounted pools r chains := by
  constructor
  . exact h.owned.rings.ring
  . intro k hk a ha
    exact (h.owned.linked k hk a ha).1
  . exact h.counted
  . intro p a hslice
    by_cases hheld : ∃ c, (c, a + MEM_POOL_SLICE_CTRL_SIZE) ∈ r.held
    . rcases hheld with ⟨c, hc⟩
      rcases h.owned.allocated a ⟨c, hc⟩ with ⟨k, -, -, hctrl⟩
      refine Or.inr ⟨?_, ⟨c, hc, ?_⟩, ?_⟩
      . intro k' hk' ha
        exact h.not_held hk' ha c hc
      . intro c' hc'
        exact h.one c' c _ hc' hc
      . rw [hctrl, sliceCtrl_ref]
    . push Not at hheld
      rcases h.free_ctrl hslice hheld with ⟨k, hk, ha, rfl, hctrl⟩
      refine Or.inl ⟨k.2, ?_, ?_, ?_, hheld, ?_⟩
      . rw [hctrl, sliceCtrl_subpool_id]
      . exact List.count_eq_one_of_mem (h.owned.nodup hk) ha
      . intro k' hk' hne ha'
        exact hne (h.owned.key_unique hk' hk ha' ha)
      . rw [hctrl, sliceCtrl_ref]

end Invariant

/--
After every sequence of calls each slice is linked once or held by one caller, the next allocation
returns no buffer that is held, and freeing a free slice changes nothing.
-/
theorem memPools_accounted (h : Reachable pools r)
    : (∃ chains, Accounted pools r chains)
        ∧ (∀ pool_id alloc_size, ∃ res mem,
            memPoolAlloc pools r.mem pool_id alloc_size = some (res, mem)
              ∧ ∀ buf, res = some buf → ∀ c, (c, buf) ∉ r.held)
        ∧ ∀ p a, pools.Slices pools.swSlices p a
          → (∀ c, (c, a + MEM_POOL_SLICE_CTRL_SIZE) ∉ r.held)
          → memPoolFree r.mem (a + MEM_POOL_SLICE_CTRL_SIZE) = r.mem := by
  rcases Invariant.of_reachable h with ⟨chains, hinv⟩
  refine ⟨⟨chains, hinv.accounted⟩, ?_, ?_⟩
  . intro pool_id alloc_size
    rcases hinv.alloc pool_id alloc_size with ⟨res, mem, hrun, -, hbuf⟩
    exact ⟨res, mem, hrun, fun buf hres => (hbuf buf hres).1⟩
  . intro p a hslice hfree
    exact hinv.freeAgain hslice hfree

def bootPools : Pools where
  mem_pool
    | 0 => ⟨0x1000, 256, 3000, 0, by decide⟩
    | 1 => ⟨0x100000, 256, 100000, 0, by decide⟩
    | 2 => ⟨0x2000000, 2048, 1000, 2024, by decide⟩
    | 3 => ⟨0x3000000, 8192, 256, 8168, by decide⟩
  disjoint := by decide

theorem exists_memPoolInitOn_bootPools (mem : MemPools)
    : ∃ s, memPoolInitOn bootPools mem = some s := by
  have hsmall : ¬ 0 ≠ (bootPools.mem_pool 2).slicenum % 4 := by decide
  have hlarge : ¬ 0 ≠ (bootPools.mem_pool 3).slicenum % 4 := by decide
  simp only [memPoolInitOn, memPoolSwSliceInject, if_neg hsmall, if_neg hlarge]
  exact ⟨_, rfl⟩

theorem exists_memPoolInit_bootPools : ∃ mem, memPoolInit bootPools = some mem := by
  rw [← memPoolInitOn_zeroMemPools]
  exact exists_memPoolInitOn_bootPools zeroMemPools

theorem memPools_accounted_bootPools
    : ∃ (r : Run Nat) (buf : Nat), Reachable bootPools r ∧ (0, buf) ∈ r.held
        ∧ (∃ chains, Accounted bootPools r chains)
        ∧ ∃ buf' mem, memPoolAlloc bootPools r.mem 3 100 = some (some buf', mem)
          ∧ (0, buf') ∉ r.held := by
  have htwice : ((memPoolInit bootPools).bind fun mem =>
      (memPoolAlloc bootPools mem 3 100).bind fun first =>
        (memPoolAlloc bootPools first.2 3 100).map fun second =>
          (first.1.isSome, second.1.isSome)) = some (true, true) := by
    decide +kernel
  rcases Option.bind_eq_some_iff.mp htwice with ⟨mem, hinit, htwice⟩
  rcases Option.bind_eq_some_iff.mp htwice with ⟨⟨first, mem1⟩, hfirst, htwice⟩
  rcases Option.map_eq_some_iff.mp htwice with ⟨⟨second, mem2⟩, hsecond, hsome⟩
  rw [Prod.mk.injEq, Option.isSome_iff_exists, Option.isSome_iff_exists] at hsome
  rcases hsome with ⟨⟨buf, rfl⟩, ⟨buf', rfl⟩⟩
  have hreach := (Reachable.init hinit).step (.alloc (0 : Nat) hfirst)
  rcases memPools_accounted hreach with ⟨haccounted, hnext, -⟩
  rcases hnext 3 100 with ⟨res, mem', hres, hfree⟩
  have heq := hsecond.symm.trans hres
  rw [Option.some.injEq, Prod.mk.injEq] at heq
  exact ⟨_, buf, hreach, Set.mem_insert _ _, haccounted, buf', mem2, hsecond,
    hfree buf' heq.1.symm 0⟩

end Runs

end SecFw.Platform
