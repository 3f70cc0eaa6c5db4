import SecFw.Common.SosRegion

/-!
This module contains the counters of the `sos` chains. `totalnum` and `freenum` of each of the chains
are set to, and increased by, the number of all slices of a block, the chains get a part of them each.
-/

namespace SecFw.Common

open LinkedRing

def blocksOf (c : SizeId) (s : SosMemPool) : Nat := s.sos_mem_block.countP fun b => b.size_type = c

def carved (c : SizeId) (s : SosMemPool) : Nat := blocksOf c s * (sosMemSize.get c).init_num.toNat

/-- The counters of a size class say what is there. -/
structure ClassAccounted (c : SizeId) (s : SosMemPool) : Prop where
  freenum : ∀ i, ∃ slices : List Nat, IsRing s.links (.head (c, i)) (slices.map Place.list)
    ∧ (s.freenum (c, i)).toNat = slices.length
  totalnum : ∑ i, (s.totalnum (c, i)).toNat = carved c s

section Totalnum

variable {s s' : SosMemPool} {size_id : SizeId}

theorem totalnum_foldl (size_id : SizeId) {turn : SosMemPool → ChainId → SosMemPool} {v : UInt32 → UInt32}
    {chains : List ChainId} (hnodup : chains.Nodup)
    (hturn : ∀ s i, (turn s i).totalnum
      = Function.update s.totalnum (size_id, i) (v (s.totalnum (size_id, i))))
    (k : SizeId × ChainId)
    : (chains.foldl turn s).totalnum k
        =
      if k.1 = size_id ∧ k.2 ∈ chains then v (s.totalnum k) else s.totalnum k := by
  induction chains generalizing s with
  | nil => simp
  | cons i chains ih =>
    rcases List.nodup_cons.mp hnodup with ⟨hi, hnodup⟩
    rw [List.foldl_cons, ih hnodup, hturn]
    by_cases hk : k = (size_id, i)
    . subst hk
      simp [hi]
    . rw [Function.update_of_ne hk]
      have hiff : (k.1 = size_id ∧ k.2 ∈ i :: chains) ↔ k.1 = size_id ∧ k.2 ∈ chains := by
        rw [List.mem_cons]
        constructor
        . rintro ⟨h1, h2 | h2⟩
          . exact absurd (Prod.ext h1 h2) hk
          . exact ⟨h1, h2⟩
        . rintro ⟨h1, h2⟩
          exact ⟨h1, Or.inr h2⟩
      simp only [hiff]

theorem totalnum_sosMemBlockCtrlInit {start : Nat} {size initnum : UInt32} (k : SizeId × ChainId)
    : (sosMemBlockCtrlInit s size_id start size initnum).totalnum k
        =
      if k.1 = size_id then initnum else s.totalnum k := by
  rw [sosMemBlockCtrlInit, totalnum_foldl size_id (v := fun _ => initnum)
    (List.nodup_finRange _)]
  . simp only [List.mem_finRange, and_true]
  . intro s i
    exact (linkSlices_same _).2.1

theorem totalnum_sosMemBlockReplenish {start : Nat} {size init_num : UInt32} (k : SizeId × ChainId)
    : (sosMemBlockReplenish s size_id start size init_num).totalnum k
        =
      if k.1 = size_id then s.totalnum k + init_num else s.totalnum k := by
  rw [sosMemBlockReplenish, totalnum_foldl size_id (v := fun n => n + init_num)
    (List.nodup_finRange _)]
  . simp only [List.mem_finRange, and_true]
  . intro s i
    exact (linkSlices_same _).2.1

theorem totalnum_of_initStep (h : sosMemBlockInitStep s size_id = some s') (k : SizeId × ChainId)
    : s'.totalnum k = if k.1 = size_id then (sosMemSize.get size_id).init_num else s.totalnum k := by
  rcases sosMemBlockInitStep_eq_some h with ⟨-, rfl⟩
  exact totalnum_sosMemBlockCtrlInit k

theorem totalnum_of_replenish (h : sosMemReplenished s size_id = some s') (k : SizeId × ChainId)
    : s'.totalnum k
        =
      if k.1 = size_id then s.totalnum k + (sosMemSize.get size_id).init_num else s.totalnum k := by
  rcases sosMemReplenished_eq_some h with ⟨-, -, rfl⟩
  exact totalnum_sosMemBlockReplenish k

end Totalnum

structure Counted (c : SizeId) (s : SosMemPool) : Prop where
  -- `totalnum` of every chain of the class counts the slices of all its chains
  blocks : 0 < blocksOf c s
  totalnum : ∀ i, s.totalnum (c, i) = UInt32.ofNat (blocksOf c s) * (sosMemSize.get c).init_num

section Counted

variable {s s' : SosMemPool} {c size_id : SizeId} {ptr : Nat}

theorem blocksOf_of_record (h : s'.region = s.region.record size_id)
    : blocksOf c s' = blocksOf c s + if size_id = c then 1 else 0 := by
  have hblocks : s'.sos_mem_block = _ := congrArg Region.sos_mem_block h
  simp only [blocksOf, hblocks, Region.record, SosMemPool.region, List.countP_append,
    List.countP_singleton, decide_eq_true_eq]

theorem Counted.same (h : Counted c s) (hsame : s'.region = s.region ∧ s'.totalnum = s.totalnum)
    : Counted c s' := by
  have hblocks : blocksOf c s' = blocksOf c s := by
    rw [blocksOf, blocksOf, blocks_eq_of_region hsame.1]
  refine ⟨?_, ?_⟩
  . rw [hblocks]
    exact h.blocks
  . intro i
    rw [hblocks, hsame.2]
    exact h.totalnum i

theorem Counted.replenish (h : Counted c s) (hreplenish : sosMemReplenished s size_id = some s')
    : Counted c s' := by
  have hblocks : blocksOf c s' = _ := blocksOf_of_record (region_of_replenish hreplenish).2.2
  refine ⟨?_, ?_⟩
  . rw [hblocks]
    exact Nat.add_pos_left h.blocks _
  . intro i
    rw [hblocks, totalnum_of_replenish hreplenish, h.totalnum]
    by_cases hc : size_id = c
    . subst hc
      rw [if_pos rfl, if_pos rfl, UInt32.ofNat_add, UInt32.add_mul, UInt32.ofNat_one, UInt32.one_mul]
    . rw [if_neg (Ne.symm hc), if_neg hc, Nat.add_zero]

theorem counted_of_foldlM {ids : List SizeId} (hnodup : ids.Nodup)
    (hids : ∀ c ∈ ids, blocksOf c s = 0) (hrest : ∀ c, c ∉ ids → Counted c s)
    (h : ids.foldlM sosMemBlockInitStep s = some s') (c : SizeId) : Counted c s' := by
  induction ids generalizing s with
  | nil =>
    rw [List.foldlM_nil, Option.pure_def, Option.some.injEq] at h
    exact h ▸ hrest c List.not_mem_nil
  | cons size_id ids ih =>
    rw [List.foldlM_cons, Option.bind_eq_bind, Option.bind_eq_some_iff] at h
    rcases h with ⟨s1, hstep, h⟩
    rcases List.nodup_cons.mp hnodup with ⟨hnew, hnodup⟩
    have hblocks (c : SizeId) : blocksOf c s1 = _ := blocksOf_of_record (region_of_initStep hstep).2
    apply ih hnodup _ _ h
    . intro c hc
      have hne : size_id ≠ c := (ne_of_mem_of_not_mem hc hnew).symm
      rw [hblocks, if_neg hne, Nat.add_zero]
      exact hids c (List.mem_cons_of_mem _ hc)
    . intro c hc
      by_cases heq : size_id = c
      . subst heq
        have hone : blocksOf size_id s1 = 1 := by
          rw [hblocks, if_pos rfl, hids size_id (List.mem_cons_self ..)]
        refine ⟨?_, ?_⟩
        . rw [hone]
          exact Nat.one_pos
        . intro i
          rw [hone, totalnum_of_initStep hstep, if_pos rfl, UInt32.ofNat_one, UInt32.one_mul]
      . have hold : c ∉ size_id :: ids := by
          rw [List.mem_cons, not_or]
          exact ⟨Ne.symm heq, hc⟩
        refine ⟨?_, ?_⟩
        . rw [hblocks]
          exact Nat.add_pos_left (hrest c hold).blocks _
        . intro i
          rw [hblocks, totalnum_of_initStep hstep, if_neg heq, if_neg (Ne.symm heq), Nat.add_zero]
          exact (hrest c hold).totalnum i

theorem counted_of_sosMemInit (h : sosMemInit ptr = some s) (c : SizeId) : Counted c s := by
  rw [sosMemInit, sosMemBlockInit] at h
  apply counted_of_foldlM (List.nodup_finRange _) _ _ h
  . intro c _
    rfl
  . intro c hc
    exact absurd (List.mem_finRange c) hc

theorem counted_of_called {r : SosRun} (h : SosCalled ptr r) (c : SizeId) : Counted c r.mem := by
  apply h.invariant (P := Counted c)
  case hinit =>
    intro s hinit
    exact counted_of_sosMemInit hinit c
  case hreplenish => exact Counted.replenish
  case halloc =>
    intro s s' size_type res h halloc
    exact h.same (sosMemAllocClass_same halloc)
  case hfree =>
    intro s s' p h hfree
    exact h.same (sosMemFree_same hfree)

theorem toNat_init_num_le (c : SizeId) : (sosMemSize.get c).init_num.toNat ≤ 4096 := by
  revert c
  decide

theorem Counted.sum_totalnum (h : Counted c s) (hregion : RegionInv ptr s.region)
    : ∑ i, (s.totalnum (c, i)).toNat = SOS_MEM_CHAIN_INTERNAL_NUM * carved c s := by
  have hblocks : blocksOf c s ≤ 4096 := by
    apply Nat.le_trans (List.countP_le_length ..)
    exact hregion.block_num
  have hprod : blocksOf c s * (sosMemSize.get c).init_num.toNat ≤ 4096 * 4096 :=
    Nat.mul_le_mul hblocks (toNat_init_num_le c)
  have hone (i : ChainId) : (s.totalnum (c, i)).toNat = carved c s := by
    have hmod : blocksOf c s % 2 ^ 32 = blocksOf c s := Nat.mod_eq_of_lt (by omega)
    rw [h.totalnum, UInt32.toNat_mul, UInt32.toNat_ofNat', hmod, carved]
    exact Nat.mod_eq_of_lt (by omega)
  simp only [hone, Finset.sum_const, Finset.card_univ, Fintype.card_fin, smul_eq_mul]

end Counted

structure Unused (c : SizeId) (s : SosMemPool) : Prop where
  links : ∀ i, Unlinked s.links (.head (c, i))
  slice : ∀ a, (s.slice a).headmagic = SOS_MEM_HEAD_MAGIC
    → (s.slice a).size_type ≠ UInt32.ofNat c.val

def chainHeads (c : SizeId) (s : SosMemPool) (i : ChainId) : SosListHead × SosListHead × UInt32 :=
  (s.links.next (.head (c, i)), s.links.prev (.head (c, i)), s.freenum (c, i))

def Keeps (c : SizeId) (s s' : SosMemPool) : Prop :=
  Unused c s → Unused c s' ∧ chainHeads c s' = chainHeads c s

section Keeps

variable {s s' s'' : SosMemPool} {c size_id : SizeId}

theorem Unused.setRef (h : Unused c s) (slice : Nat) (ref : UInt8) (a : Nat)
    : (Function.update s.slice slice { s.slice slice with ref := ref } a).headmagic
          = SOS_MEM_HEAD_MAGIC
        → (Function.update s.slice slice { s.slice slice with ref := ref } a).size_type
          ≠ UInt32.ofNat c.val := by
  intro hmagic
  by_cases ha : a = slice
  . subst ha
    rw [Function.update_self] at hmagic ⊢
    exact h.slice a hmagic
  . rw [Function.update_of_ne ha] at hmagic ⊢
    exact h.slice a hmagic

theorem Keeps.trans (h : Keeps c s s') (h' : Keeps c s' s'') : Keeps c s s'' := by
  intro hunused
  have h1 := h hunused
  have h2 := h' h1.1
  exact ⟨h2.1, h2.2.trans h1.2⟩

theorem Keeps.foldl {β : Type} {turn : SosMemPool → β → SosMemPool}
    (h : ∀ s x, Keeps c s (turn s x)) (xs : List β) : Keeps c s (xs.foldl turn s) := by
  induction xs generalizing s with
  | nil => exact fun hunused => ⟨hunused, rfl⟩
  | cons x xs ih => exact (h s x).trans ih

theorem head_ne (hne : size_id ≠ c) (i j : ChainId)
    : (Place.head (size_id, i) : SosListHead) ≠ .head (c, j) := by
  simp [hne]

theorem list_ne (a : Nat) (j : ChainId) : (Place.list a : SosListHead) ≠ .head (c, j) := by
  simp

theorem poison_ne (j : ChainId) : (Place.poison : SosListHead) ≠ .head (c, j) := by
  simp

theorem ofNat_ne (hne : size_id ≠ c) : UInt32.ofNat size_id.val ≠ UInt32.ofNat c.val := by
  revert size_id c
  decide

theorem keeps_linkSlice (hne : size_id ≠ c) (i : ChainId) (begin_ : Nat)
    : Keeps c s (linkSlice size_id i s begin_) := by
  intro hunused
  have hadd (j : ChainId) := (hunused.links j).add (list_ne begin_ j) (head_ne hne i j)
  refine ⟨⟨fun j => (hadd j).1, ?_⟩, ?_⟩
  . intro a hmagic
    simp only [linkSlice] at hmagic ⊢
    by_cases ha : a = begin_
    . subst ha
      rw [Function.update_self]
      exact ofNat_ne hne
    . rw [Function.update_of_ne ha] at hmagic ⊢
      exact hunused.slice a hmagic
  . funext j
    simp only [chainHeads, linkSlice, hadd j]

theorem keeps_sosMemBlockCtrlInit {start : Nat} {size initnum : UInt32} (hne : size_id ≠ c)
    : Keeps c s (sosMemBlockCtrlInit s size_id start size initnum) := by
  apply Keeps.foldl
  intro s i
  apply Keeps.trans _ (Keeps.foldl (fun _ _ => keeps_linkSlice hne i _) _)
  intro hunused
  refine ⟨⟨fun j => (hunused.links j).init _, hunused.slice⟩, ?_⟩
  funext j
  simp [chainHeads, Links.init, hne.symm]

theorem keeps_sosMemBlockReplenish {start : Nat} {size init_num : UInt32} (hne : size_id ≠ c)
    : Keeps c s (sosMemBlockReplenish s size_id start size init_num) := by
  apply Keeps.foldl
  intro s i
  apply Keeps.trans _ (Keeps.foldl (fun _ _ => keeps_linkSlice hne i _) _)
  intro hunused
  refine ⟨⟨hunused.links, hunused.slice⟩, ?_⟩
  funext j
  simp [chainHeads, hne.symm]

theorem keeps_recordBlock {k : SizeId} {start : Nat} {requestsize : UInt32}
    : Keeps c s (recordBlock s k start requestsize) :=
  fun hunused => ⟨⟨hunused.links, hunused.slice⟩, rfl⟩

theorem keeps_of_initStep (hne : size_id ≠ c) (h : sosMemBlockInitStep s size_id = some s')
    : Keeps c s s' := by
  rcases sosMemBlockInitStep_eq_some h with ⟨-, rfl⟩
  exact (keeps_sosMemBlockCtrlInit hne).trans keeps_recordBlock

theorem keeps_of_replenish (hne : size_id ≠ c) (h : sosMemReplenished s size_id = some s')
    : Keeps c s s' := by
  rcases sosMemReplenished_eq_some h with ⟨-, -, rfl⟩
  exact (keeps_sosMemBlockReplenish hne).trans keeps_recordBlock

theorem keeps_sosMemAllocClass {res : Option Nat} (hne : size_id ≠ c)
    (h : sosMemAllocClass s size_id = some (res, s')) : Keeps c s s' := by
  intro hunused
  rcases sosMemAllocClass_cases h with ⟨global_index, rfl | ⟨index, slices, hslices, rfl⟩⟩
  . exact ⟨⟨hunused.links, hunused.slice⟩, rfl⟩
  . have hunlinked (j : ChainId) := (hunused.links j).del (poison_ne j)
      (hunused.links j _ (head_ne hne index j)).1
    refine ⟨⟨fun j => (hunlinked j).1, ?_⟩, ?_⟩
    . rcases hslices with rfl | ⟨slice, rfl⟩
      . exact hunused.slice
      . exact hunused.setRef _ _
    . funext j
      simp [chainHeads, hunlinked j, hne.symm]

theorem keeps_sosMemFree {p : Nat} (h : sosMemFree s p = some s') : Keeps c s s' := by
  intro hunused
  rcases sosMemFree_cases h with rfl | ⟨slice, k, hmagic, hsize, rfl⟩
  . exact ⟨hunused, rfl⟩
  . have hne : k.1 ≠ c := by
      intro hc
      exact hunused.slice slice hmagic (hc ▸ hsize)
    have hadd (j : ChainId) := (hunused.links j).add (list_ne slice j) (head_ne hne k.2 j)
    refine ⟨⟨fun j => (hadd j).1, hunused.setRef _ _⟩, ?_⟩
    funext j
    have hkey : (c, j) ≠ k := fun heq => hne (congrArg Prod.fst heq).symm
    simp [chainHeads, hadd j, hkey]

end Keeps

structure NoSlices (c : SizeId) (s : SosMemPool) : Prop where
  unused : Unused c s
  empty : chainHeads c s = fun i => (.head (c, i), .head (c, i), 0)

section NoSlices

variable {s s' : SosMemPool} {c size_id : SizeId} {ptr : Nat}

theorem Keeps.noSlices (hkeeps : Keeps c s s') (h : NoSlices c s) : NoSlices c s' :=
  ⟨(hkeeps h.unused).1, (hkeeps h.unused).2.trans h.empty⟩

theorem chainBegins_zero {start : Nat} {size : UInt32} {i : ChainId}
    : chainBegins start size 0 i = [] := rfl

theorem noSlices_sosMemBlockCtrlInit {start : Nat} {size : UInt32} (h : Unused c s)
    : NoSlices c (sosMemBlockCtrlInit s c start size 0) := by
  have hrange : List.finRange SOS_MEM_CHAIN_INTERNAL_NUM = [0, 1, 2, 3] := rfl
  simp only [sosMemBlockCtrlInit, chainBegins_zero, hrange, List.foldl_cons, List.foldl_nil]
  constructor
  case unused =>
    exact ⟨fun j => ((((h.links j).init _).init _).init _).init _, h.slice⟩
  case empty =>
    funext i
    have hi : i = 0 ∨ i = 1 ∨ i = 2 ∨ i = 3 := by
      revert i
      decide
    rcases hi with rfl | rfl | rfl | rfl
    all_goals simp [chainHeads, Links.init]

theorem noSlices_sosMemBlockReplenish {start : Nat} {size : UInt32} (h : NoSlices c s)
    : NoSlices c (sosMemBlockReplenish s c start size 0) := by
  rw [sosMemBlockReplenish]
  generalize List.finRange SOS_MEM_CHAIN_INTERNAL_NUM = chains
  induction chains generalizing s with
  | nil => exact h
  | cons i chains ih =>
    apply ih
    refine ⟨⟨h.unused.links, h.unused.slice⟩, ?_⟩
    rw [← h.empty]
    funext j
    simp [chainHeads, chainBegins_zero]

theorem noSlices_sosMemAllocClass {res : Option Nat} (h : NoSlices c s)
    (halloc : sosMemAllocClass s c = some (res, s')) : NoSlices c s' := by
  have hnext (i : ChainId) : s.links.next (.head (c, i)) = .head (c, i) :=
    congrArg Prod.fst (congrFun h.empty i)
  simp only [sosMemAllocClass] at halloc
  rw [if_pos (hnext _), Option.some.injEq, Prod.mk.injEq] at halloc
  rw [← halloc.2]
  exact ⟨⟨h.unused.links, h.unused.slice⟩, h.empty⟩

theorem noSlices_of_initStep (hzero : (sosMemSize.get c).init_num = 0)
    (h : sosMemBlockInitStep s c = some s') (hunused : Unused c s) : NoSlices c s' := by
  rcases sosMemBlockInitStep_eq_some h with ⟨-, rfl⟩
  rw [← get_sosMemSize, hzero]
  exact keeps_recordBlock.noSlices (noSlices_sosMemBlockCtrlInit hunused)

theorem noSlices_of_replenish (hzero : (sosMemSize.get c).init_num = 0) (h : NoSlices c s)
    (hreplenish : sosMemReplenished s size_id = some s') : NoSlices c s' := by
  by_cases hc : size_id = c
  . subst hc
    rcases sosMemReplenished_eq_some hreplenish with ⟨-, -, rfl⟩
    rw [← get_sosMemSize, hzero]
    exact keeps_recordBlock.noSlices (noSlices_sosMemBlockReplenish h)
  . exact (keeps_of_replenish hc hreplenish).noSlices h

theorem noSlices_of_foldlM (hzero : (sosMemSize.get c).init_num = 0) {ids : List SizeId}
    (hids : c ∈ ids → Unused c s) (hrest : c ∉ ids → NoSlices c s)
    (h : ids.foldlM sosMemBlockInitStep s = some s') : NoSlices c s' := by
  induction ids generalizing s with
  | nil =>
    rw [List.foldlM_nil, Option.pure_def, Option.some.injEq] at h
    exact h ▸ hrest List.not_mem_nil
  | cons size_id ids ih =>
    rw [List.foldlM_cons, Option.bind_eq_bind, Option.bind_eq_some_iff] at h
    rcases h with ⟨s1, hstep, h⟩
    have hunused : Unused c s := by
      by_cases hc : c ∈ size_id :: ids
      . exact hids hc
      . exact (hrest hc).unused
    by_cases hc : size_id = c
    . subst hc
      have hone := noSlices_of_initStep hzero hstep hunused
      exact ih (fun _ => hone.unused) (fun _ => hone) h
    . have hkeeps := keeps_of_initStep hc hstep
      apply ih _ _ h
      . intro _
        exact (hkeeps hunused).1
      . intro hmem
        apply hkeeps.noSlices
        apply hrest
        rw [List.mem_cons, not_or]
        exact ⟨Ne.symm hc, hmem⟩

theorem noSlices_of_sosMemInit (hzero : (sosMemSize.get c).init_num = 0) (h : sosMemInit ptr = some s)
    : NoSlices c s := by
  rw [sosMemInit, sosMemBlockInit] at h
  apply noSlices_of_foldlM hzero _ _ h
  . intro _
    refine ⟨?_, ?_⟩
    . intro i x _
      simp
    . intro a hmagic
      have hclear : (0 : UInt32) ≠ SOS_MEM_HEAD_MAGIC := by decide
      exact absurd hmagic hclear
  . intro hc
    exact absurd (List.mem_finRange c) hc

theorem noSlices_of_called (hzero : (sosMemSize.get c).init_num = 0) {r : SosRun} (h : SosCalled ptr r)
    : NoSlices c r.mem := by
  apply h.invariant (P := NoSlices c)
  case hinit => exact noSlices_of_sosMemInit hzero
  case hreplenish => exact noSlices_of_replenish hzero
  case halloc =>
    intro s s' size_type res h halloc
    by_cases hc : size_type = c
    . exact noSlices_sosMemAllocClass h (hc ▸ halloc)
    . exact (keeps_sosMemAllocClass hc halloc).noSlices h
  case hfree =>
    intro s s' p h hfree
    exact (keeps_sosMemFree hfree).noSlices h

theorem NoSlices.freenum (h : NoSlices c s) (i : ChainId)
    : IsRing s.links (.head (c, i)) [] ∧ s.freenum (c, i) = 0 := by
  have hheads := congrFun h.empty i
  simp only [chainHeads, Prod.mk.injEq] at hheads
  exact ⟨⟨List.nodup_singleton _, hheads.1, hheads.2.1⟩, hheads.2.2⟩

end NoSlices

section Accounting

variable {ptr : Nat} {r : SosRun} {c : SizeId}

theorem not_classAccounted (h : SosCalled ptr r) (hsome : (sosMemSize.get c).init_num ≠ 0)
    : ¬ ClassAccounted c r.mem := by
  intro haccounted
  have hcounted := counted_of_called h c
  have hsum := hcounted.sum_totalnum (regionInv_of_called h)
  rw [haccounted.totalnum] at hsum
  have hcarved : 0 < carved c r.mem := by
    apply Nat.mul_pos hcounted.blocks
    rw [Nat.pos_iff_ne_zero]
    intro hzero
    exact hsome (UInt32.toNat_inj.mp hzero)
  simp only [SOS_MEM_CHAIN_INTERNAL_NUM] at hsum
  omega

/-- The counters are right for the class that has no slices, and for no other class in any state. -/
theorem classAccounted_iff (h : SosCalled ptr r) (c : SizeId)
    : ClassAccounted c r.mem ↔ (sosMemSize.get c).init_num = 0 := by
  constructor
  . intro haccounted
    by_contra hsome
    exact not_classAccounted h hsome haccounted
  . intro hzero
    have hnone := noSlices_of_called hzero h
    constructor
    case freenum =>
      intro i
      have hi := hnone.freenum i
      refine ⟨[], hi.1, ?_⟩
      rw [hi.2]
      rfl
    case totalnum =>
      rw [(counted_of_called h c).sum_totalnum (regionInv_of_called h), carved, hzero]
      rfl

theorem classAccounted_iff_allocated
    : ∃ r, SosCalled 0x10000000 r ∧ r.live ≠ [] ∧ ¬ ClassAccounted 10 r.mem
        ∧ ClassAccounted 11 r.mem := by
  have halloc : ((sosMemInit 0x10000000).bind fun mem => sosMemAlloc mem 8192).any
      (fun called => called.1.isSome) = true := by decide +kernel
  rcases (Option.any_eq_true _ _).mp halloc with ⟨⟨res, mem'⟩, halloc, hsome⟩
  rcases Option.bind_eq_some_iff.mp halloc with ⟨mem, hinit, halloc⟩
  rcases Option.isSome_iff_exists.mp hsome with ⟨p, rfl⟩
  have hcalled := (SosCalled.init hinit).step (.alloc halloc)
  refine ⟨_, hcalled, List.cons_ne_nil _ _, ?_, (classAccounted_iff hcalled 11).mpr (by decide)⟩
  rw [classAccounted_iff hcalled 10]
  decide

theorem not_forall_classAccounted
    : ¬ ∀ r, SosCalled 0x10000000 r → ∀ c, ClassAccounted c r.mem := by
  intro h
  rcases exists_sosMemInit 0x10000000 with ⟨mem, hinit⟩
  have hcalled : SosCalled 0x10000000 ⟨mem, []⟩ := .init hinit
  exact not_classAccounted hcalled (c := 0) (by decide) (h _ hcalled 0)

end Accounting

end SecFw.Common
