import SecFw.Platform.PoolRuns

/-!
This module contains when an allocation fails. A call looks at one chain and fails when it is empty,
the other chains of the pool have their turn with the next calls.
-/

namespace SecFw.Platform

open LinkedRing

/-- The slice is linked in this chain of the pool. -/
def FreeIn (s : MemPools) (p : MemPoolId) (i : SubpoolId) (a : Nat) : Prop :=
  ∃ xs : List Nat, IsRing s.links (.head (p, i)) (xs.map sliceList) ∧ a ∈ xs

section Turns

variable {Caller : Type} {pools : Pools} {r : Run Caller}
  {chains : MemPoolId × SubpoolId → List Nat} {p : MemPoolId} {i : SubpoolId} {a : Nat}

theorem chain_eq {links : Links ListHead} {head : ListHead} {xs ys : List Nat}
    (h : IsRing links head (xs.map sliceList)) (h' : IsRing links head (ys.map sliceList))
    : xs = ys := by
  have hinj : Function.Injective sliceList := by
    intro a b hab
    rwa [Place.list.injEq] at hab
  exact (List.map_injective_iff.mpr hinj) (h.unique h')

theorem Invariant.waiting (h : Invariant pools r chains) : Waiting pools r.mem.mscb r.mem chains where
  rings := h.owned.rings
  slice k hk a ha := (h.owned.linked k hk a ha).1
  ctrl _ _ _ _ := rfl

theorem Invariant.freeIn_iff (h : Invariant pools r chains) (hp : IsSw p)
    : FreeIn r.mem p i a ↔ a ∈ chains (p, i) := by
  have hring := h.owned.rings.ring (p, i) hp
  constructor
  . rintro ⟨xs, hxs, ha⟩
    rwa [chain_eq hxs hring] at ha
  . intro ha
    exact ⟨_, hring, ha⟩

theorem Invariant.allocated_ne_none (h : Invariant pools r chains) (hp : IsSw p) {m : Nat}
    : allocated r.mem.mscb (Rotation.next^[m] (chainRotation r.mem chains p)).taken = none
        ↔ (Rotation.next^[m] (chainRotation r.mem chains p)).taken = none := by
  cases htaken : (Rotation.next^[m] (chainRotation r.mem chains p)).taken with
  | none => exact iff_of_true rfl rfl
  | some a =>
    have ha := Rotation.mem_of_taken_iterate htaken
    have href : (r.mem.mscb a).ref = 0 := by
      rw [(h.owned.linked (p, _) hp a ha).2, sliceCtrl_ref]
    rw [allocated, Option.bind_some, if_pos href]
    exact iff_of_false (Option.some_ne_none _) (Option.some_ne_none _)

/--
A call of `mem_pool_alloc` returns a buffer exactly when the chain that the counter selects has a free
slice, and when any chain of the pool has one, then one of the calls of a round returns a buffer.
-/
theorem memPoolAlloc_turns (h : Reachable pools r) (hp : IsSw p)
    : (∀ alloc_size ≤ (pools.mem_pool p).datasize,
          (∃ buf mem, memPoolAlloc pools r.mem (p.val : Int) alloc_size = some (some buf, mem))
            ↔ ∃ a, FreeIn r.mem p (selected (r.mem.global_index p)) a)
        ∧ ∀ i a, FreeIn r.mem p i a → ∀ sizes : List UInt32,
          sizes.length = MEM_POOL_INTERNAL_NUM → (∀ size ∈ sizes, size ≤ (pools.mem_pool p).datasize)
          → ∃ bufs mem,
            memPoolAllocs pools r.mem (sizes.map fun size => ((p.val : Int), size)) = some (bufs, mem)
              ∧ ∃ buf, some buf ∈ bufs := by
  rcases Invariant.of_reachable h with ⟨chains, hinv⟩
  constructor
  . intro alloc_size hsize
    rcases hinv.waiting.alloc hp (UInt32.not_lt.mpr hsize) with ⟨mem, hcall, -, -, -⟩
    have hnone := hinv.allocated_ne_none hp (m := 0)
    rw [Function.iterate_zero, id] at hnone
    have hempty : (∃ a, FreeIn r.mem p (selected (r.mem.global_index p)) a)
        ↔ (chainRotation r.mem chains p).taken ≠ none := by
      rw [ne_eq, Rotation.taken_eq_none]
      constructor
      . rintro ⟨a, ha⟩
        exact List.ne_nil_of_mem ((hinv.freeIn_iff hp).mp ha)
      . intro hne
        rcases List.exists_mem_of_ne_nil _ hne with ⟨a, ha⟩
        exact ⟨a, (hinv.freeIn_iff hp).mpr ha⟩
    rw [memPoolAlloc_sw hp, hcall, hempty, ne_eq, ← hnone, ← ne_eq, Option.ne_none_iff_exists']
    constructor
    . rintro ⟨buf, mem', heq⟩
      rw [Option.some.injEq, Prod.mk.injEq] at heq
      exact ⟨buf, heq.1⟩
    . rintro ⟨buf, hbuf⟩
      exact ⟨buf, mem, by rw [hbuf]⟩
  . intro i a hfree sizes hlen hsizes
    rw [hinv.freeIn_iff hp] at hfree
    have hleft : (chainRotation r.mem chains p).lists i ≠ [] := List.ne_nil_of_mem hfree
    rcases Rotation.exists_taken hleft with ⟨m, hm, htaken⟩
    rcases hinv.waiting.turns hp (fun size hsize => UInt32.not_lt.mpr (hsizes size hsize)) with
      ⟨mem, chains', hcalls, -, -⟩
    refine ⟨_, mem, hcalls, ?_⟩
    rw [ne_eq, ← hinv.allocated_ne_none hp, ← ne_eq, Option.ne_none_iff_exists'] at htaken
    rcases htaken with ⟨buf, hbuf⟩
    refine ⟨buf, ?_⟩
    rw [← hbuf]
    exact List.mem_map_of_mem (List.mem_range.mpr (hlen ▸ hm))

end Turns

section Failing

variable {Caller : Type} {pools : Pools} {r : Run Caller} {p : MemPoolId}

theorem Reachable.turns (h : Reachable pools r) (hp : IsSw p) (c : Caller)
    {mscb : Nat → MemSliceCtrlB} {chains : MemPoolId × SubpoolId → List Nat}
    (hwaiting : Waiting pools mscb r.mem chains) (m : Nat)
    : ∃ (r' : Run Caller) (chains' : MemPoolId × SubpoolId → List Nat),
      Reachable pools r' ∧ Waiting pools mscb r'.mem chains'
        ∧ chainRotation r'.mem chains' p = Rotation.next^[m] (chainRotation r.mem chains p) := by
  have hsize : ¬ 0 > (pools.mem_pool p).datasize := UInt32.not_lt.mpr (UInt32.zero_le ..)
  induction m with
  | zero => exact ⟨r, chains, h, hwaiting, rfl⟩
  | succ m ih =>
    rcases ih with ⟨r1, chains1, h1, hwaiting1, hrotation⟩
    rcases hwaiting1.alloc hp hsize with ⟨mem, hcall, hwaiting2, hindex, -⟩
    rw [← memPoolAlloc_sw hp] at hcall
    rw [Function.iterate_succ_apply', ← hrotation, ← chainRotation_next hindex]
    cases hres : allocated mscb (chainRotation r1.mem chains1 p).taken with
    | none =>
      rw [hres] at hcall
      exact ⟨⟨mem, r1.held⟩, _, .step h1 (.allocNull hcall), hwaiting2, rfl⟩
    | some buf =>
      rw [hres] at hcall
      exact ⟨⟨mem, insert (c, buf) r1.held⟩, _, .step h1 (.alloc c hcall), hwaiting2, rfl⟩

theorem Reachable.held_of_exhausted (h : Reachable pools r) (hp : IsSw p)
    {mscb : Nat → MemSliceCtrlB} {chains : MemPoolId × SubpoolId → List Nat}
    (hwaiting : Waiting pools mscb r.mem chains) (hexhausted : (chainRotation r.mem chains p).Exhausted)
    {a : Nat} (hslice : pools.Slices pools.swSlices p a)
    : ∃ c i, (c, a + MEM_POOL_SLICE_CTRL_SIZE) ∈ r.held ∧ r.mem.mscb a = sliceCtrl (p, i) 1 := by
  rcases Invariant.of_reachable h with ⟨chains', hinv⟩
  rcases hinv.owned.covers p a hslice with ⟨k, hk, ha⟩ | ha
  . have hpool := Pools.Slices.pool_unique hinv.owned.within (hinv.owned.linked k hk a ha).1 hslice
    have hchain : chains' k = chains k :=
      chain_eq (hinv.owned.rings.ring k hk) (hwaiting.rings.ring k hk)
    have hnil : chains k = [] := by
      subst hpool
      exact hexhausted k.2
    rw [hchain, hnil] at ha
    contradiction
  . rcases hinv.owned.allocated a ha with ⟨k, -, hslice', hctrl⟩
    have hpool := Pools.Slices.pool_unique hinv.owned.within hslice' hslice
    rcases ha with ⟨c, hc⟩
    subst hpool
    exact ⟨c, k.2, hc, hctrl⟩

theorem Reachable.exists_turn_ne (h : Reachable pools r) (hp : IsSw p) (i : SubpoolId)
    (hempty : ∀ i, IsRing r.mem.links (.head (p, i)) [])
    : ∃ r' : Run Caller, Reachable pools r' ∧ selected (r'.mem.global_index p) ≠ i
        ∧ r'.held = r.held ∧ r'.mem.links = r.mem.links ∧ r'.mem.mscb = r.mem.mscb := by
  by_cases hi : selected (r.mem.global_index p) = i
  . have hsize : ¬ 0 > (pools.mem_pool p).datasize := UInt32.not_lt.mpr (UInt32.zero_le ..)
    have hcall := memPoolAllocSw_empty hsize (hempty _)
    rw [← memPoolAlloc_sw hp] at hcall
    have hne : i + 1 ≠ i := by
      clear hi
      revert i
      decide
    refine ⟨_, .step h (.allocNull hcall), ?_, rfl, rfl, rfl⟩
    dsimp only
    rw [Function.update_self, selected_succ, hi]
    exact hne
  . exact ⟨r, h, hi, rfl, rfl, rfl⟩

theorem exists_failing {mem : MemPools} (hinit : memPoolInit pools = some mem) (hp : IsSw p) (c : Caller)
    {a : Nat} (hslice : pools.Slices pools.swSlices p a)
    : ∃ r : Run Caller, Reachable pools r ∧ (∃ i, FreeIn r.mem p i a)
        ∧ ∃ mem, memPoolAlloc pools r.mem (p.val : Int) 0 = some (none, mem) := by
  have hsize : ¬ 0 > (pools.mem_pool p).datasize := UInt32.not_lt.mpr (UInt32.zero_le ..)
  have hreach : Reachable pools (⟨mem, ∅⟩ : Run Caller) := .init hinit
  rcases Invariant.of_reachable hreach with ⟨chains, hinv⟩
  rcases (chainRotation mem chains p).exists_exhausted with ⟨m, hexhausted⟩
  rcases hreach.turns hp c hinv.waiting m with ⟨r1, chains1, hreach1, hwaiting1, hrotation⟩
  rw [← hrotation] at hexhausted
  rcases hreach1.held_of_exhausted hp hwaiting1 hexhausted hslice with ⟨c', i, hheld, hctrl⟩
  have hempty (j : SubpoolId) : IsRing r1.mem.links (.head (p, j)) [] := by
    have hring := hwaiting1.rings.ring (p, j) hp
    have hnil : chains1 (p, j) = [] := hexhausted j
    rw [hnil] at hring
    exact hring
  rcases hreach1.exists_turn_ne hp i hempty with ⟨r2, hreach2, hturn, hheld2, hlinks, hmscb⟩
  rw [← hheld2] at hheld
  rw [← hmscb] at hctrl
  rw [← hlinks] at hempty
  have hreach3 := Reachable.step hreach2 (.free hheld)
  rw [memPoolFree_held hctrl] at hreach3
  refine ⟨_, hreach3, ⟨i, [a], ?_, List.mem_singleton_self a⟩, ?_⟩
  . exact (hempty i).add (by simp)
  . rw [memPoolAlloc_sw hp]
    refine ⟨_, memPoolAllocSw_empty hsize ?_⟩
    apply (hempty _).add_other (hempty i)
    . simp [hturn]
    . simp

end Failing

section Boot

theorem memPoolAlloc_turns_bootPools
    : ∃ r : Run Nat, Reachable bootPools r ∧ (∃ i a, FreeIn r.mem 3 i a)
        ∧ (¬ ∃ a, FreeIn r.mem 3 (selected (r.mem.global_index 3)) a)
        ∧ ∃ bufs mem, memPoolAllocs bootPools r.mem (List.replicate 4 (3, 0)) = some (bufs, mem)
          ∧ ∃ buf, some buf ∈ bufs := by
  rcases exists_memPoolInit_bootPools with ⟨mem, hinit⟩
  have hslice : bootPools.Slices bootPools.swSlices 3 (bootPools.slice 3 0) :=
    ⟨0, by decide, rfl⟩
  rcases exists_failing hinit (Or.inr rfl) (0 : Nat) hslice with ⟨r, hreach, ⟨i, hfree⟩, mem', hcall⟩
  rcases memPoolAlloc_turns hreach (Or.inr rfl) with ⟨hturn, hround⟩
  refine ⟨r, hreach, ⟨i, _, hfree⟩, ?_, hround i _ hfree (List.replicate 4 0) rfl ?_⟩
  . rw [← hturn 0 (UInt32.zero_le ..), hcall]
    simp
  . intro size hsize
    rw [List.eq_of_mem_replicate hsize]
    exact UInt32.zero_le ..

theorem not_forall_alloc
    : ¬ ∀ r : Run Nat, Reachable bootPools r → ∀ p, IsSw p
        → ∀ alloc_size ≤ (bootPools.mem_pool p).datasize, (∃ i a, FreeIn r.mem p i a)
        → ∃ buf mem, memPoolAlloc bootPools r.mem (p.val : Int) alloc_size = some (some buf, mem) := by
  intro h
  rcases exists_memPoolInit_bootPools with ⟨mem, hinit⟩
  have hslice : bootPools.Slices bootPools.swSlices 3 (bootPools.slice 3 0) :=
    ⟨0, by decide, rfl⟩
  rcases exists_failing hinit (Or.inr rfl) (0 : Nat) hslice with ⟨r, hreach, ⟨i, hfree⟩, mem', hcall⟩
  rcases h r hreach 3 (Or.inr rfl) 0 (UInt32.zero_le ..) ⟨i, _, hfree⟩ with ⟨buf, mem'', hsome⟩
  rw [hcall] at hsome
  simp at hsome

end Boot

end SecFw.Platform
