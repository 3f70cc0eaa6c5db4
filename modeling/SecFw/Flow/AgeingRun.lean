import SecFw.Flow.Ageing
import SecFw.Flow.Program

/-!
This module connects `FlowAgeTimeoutCB` on the links of the items with its steps in the program of the
cores: what it computes is what a core does that no other core interrupts.
-/

namespace SecFw.Flow

open Interleaving HList Place

section Alone

variable {Core Item : Type} [DecidableEq Item] {FLOW_MAX_TIMEOUT current_cycle : UInt64} {c : Core}
  {s : Shared Core Item} {i : Bucket} {f : Item} {kept rest timeout : List Item}

namespace Shared

def Expired (s : Shared Core Item) (FLOW_MAX_TIMEOUT current_cycle : UInt64) (f : Item) : Prop :=
  (s.item f).item_lock = none ∧ flowTimeOut FLOW_MAX_TIMEOUT (s.item f) current_cycle = true

instance (s : Shared Core Item) (FLOW_MAX_TIMEOUT current_cycle : UInt64) (f : Item)
    : Decidable (s.Expired FLOW_MAX_TIMEOUT current_cycle f) :=
  inferInstanceAs (Decidable (_ ∧ _))

def Ages (s : Shared Core Item) (FLOW_MAX_TIMEOUT current_cycle : UInt64) (fb : Bucket) (f : Item)
    : Prop :=
  -- `FlowAgeTimeoutCB` removes the item from the bucket
  s.lock fb = none ∧ s.Expired FLOW_MAX_TIMEOUT current_cycle f

instance (s : Shared Core Item) (FLOW_MAX_TIMEOUT current_cycle : UInt64) (fb : Bucket) (f : Item)
    : Decidable (s.Ages FLOW_MAX_TIMEOUT current_cycle fb f) :=
  inferInstanceAs (Decidable (_ ∧ _))

def agedBucket (s : Shared Core Item) (FLOW_MAX_TIMEOUT current_cycle : UInt64) (i : Bucket)
    : Shared Core Item :=
  { s with
    hash := Function.update s.hash i
      ((s.hash i).filter fun f => ¬s.Ages FLOW_MAX_TIMEOUT current_cycle i f)
    pool := {f | f ∈ s.hash i ∧ s.Ages FLOW_MAX_TIMEOUT current_cycle i f} ∪ s.pool }

def agedFrom (s : Shared Core Item) (FLOW_MAX_TIMEOUT current_cycle : UInt64) (n : Nat)
    : Shared Core Item :=
  { s with
    hash := fun fb =>
      if n ≤ fb.val then
        (s.hash fb).filter fun f => ¬s.Ages FLOW_MAX_TIMEOUT current_cycle fb f
      else
        s.hash fb
    pool := {f | ∃ fb : Bucket, n ≤ fb.val ∧ f ∈ s.hash fb
      ∧ s.Ages FLOW_MAX_TIMEOUT current_cycle fb f} ∪ s.pool }

def setHash (s : Shared Core Item) (fb : Bucket) (chain : List Item) : Shared Core Item :=
  { s with hash := Function.update s.hash fb chain }

omit [DecidableEq Item] in
@[simp]
theorem expired_setHash
    : (s.setHash i kept).Expired FLOW_MAX_TIMEOUT current_cycle f
        ↔ s.Expired FLOW_MAX_TIMEOUT current_cycle f := Iff.rfl

omit [DecidableEq Item] in
@[simp]
theorem setHash_setHash : (s.setHash i kept).setHash i rest = s.setHash i rest := by
  simp [setHash]

omit [DecidableEq Item] in
theorem agedFrom_all {n : Nat} (h : FLOW_BUCKET_NUM ≤ n)
    : s.agedFrom FLOW_MAX_TIMEOUT current_cycle n = s := by
  have hlt (fb : Bucket) : ¬n ≤ fb.val := by
    have := fb.isLt
    omega
  simp [agedFrom, hlt]

omit [DecidableEq Item] in
theorem agedFrom_agedBucket (i : Bucket)
    : (s.agedBucket FLOW_MAX_TIMEOUT current_cycle i).agedFrom FLOW_MAX_TIMEOUT current_cycle
        (i.val + 1)
        =
      s.agedFrom FLOW_MAX_TIMEOUT current_cycle i.val := by
  have hne {fb : Bucket} (h : i.val + 1 ≤ fb.val) : fb ≠ i := by
    rintro rfl
    omega
  have hle {fb : Bucket} : i.val ≤ fb.val ↔ fb = i ∨ i.val + 1 ≤ fb.val := by
    rw [Fin.ext_iff]
    omega
  simp only [agedFrom, agedBucket, mk.injEq]
  refine ⟨trivial, ?_, trivial, ?_, trivial⟩
  . funext fb
    by_cases heq : fb = i
    . subst heq
      simp
    . by_cases hlt : i.val + 1 ≤ fb.val
      . simp [hle, hlt, heq, Ages, Expired]
      . simp [hle, hlt, heq]
  . ext f
    simp only [Set.mem_union, Set.mem_ofPred_eq]
    constructor
    . rintro (⟨fb, hlt, hmem, hages⟩ | hmem | hpool)
      . rw [Function.update_of_ne (hne hlt)] at hmem
        exact .inl ⟨fb, hle.mpr (.inr hlt), hmem, hages⟩
      . exact .inl ⟨i, le_refl _, hmem⟩
      . exact .inr hpool
    . rintro (⟨fb, hlt, hmem, hages⟩ | hpool)
      . cases hle.mp hlt with
        | inl heq =>
          subst heq
          exact .inr (.inl ⟨hmem, hages⟩)
        | inr hlt =>
          left
          refine ⟨fb, hlt, ?_, hages⟩
          rw [Function.update_of_ne (hne hlt)]
          exact hmem
      . exact .inr (.inr hpool)

omit [DecidableEq Item] in
theorem tableUnlock_tableLock (h : s.lock i = none) : (s.tableLock c i).tableUnlock i = s := by
  simp [tableUnlock, tableLock, ← h]

theorem itemUnlock_itemLock (h : (s.item f).item_lock = none)
    : (s.itemLock c f).itemUnlock f = s := by
  have heq : { s.item f with item_lock := none } = s.item f := by rw [← h]
  simp [itemUnlock, itemLock, setItem, heq]

theorem hlistDel_eq_setHash (hhash : s.hash i = kept ++ f :: rest) (hkept : f ∉ kept)
    : s.hlistDel i f = s.setHash i (kept ++ rest) := by
  rw [hlistDel, setHash, hhash, List.erase_append_right _ hkept, List.erase_cons_head]

end Shared

theorem alone_expired (h : s.Expired FLOW_MAX_TIMEOUT current_cycle f)
    (hhash : s.hash i = kept ++ f :: rest) (hkept : f ∉ kept)
    : Alone (FlowStep FLOW_MAX_TIMEOUT) c s (ageNext current_cycle i (f :: rest) timeout)
        (s.setHash i (kept ++ rest)) (ageNext current_cycle i rest (f :: timeout)) := by
  have htimeout : flowTimeOut FLOW_MAX_TIMEOUT ((s.itemLock c f).item f) current_cycle = true := by
    simpa [Shared.itemLock, flowTimeOut] using h.2
  have hunlock : ((s.itemLock c f).hlistDel i f).itemUnlock f = s.setHash i (kept ++ rest) := by
    have hdel : (s.itemLock c f).hlistDel i f = (s.itemLock c f).setHash i (kept ++ rest) :=
      Shared.hlistDel_eq_setHash hhash hkept
    rw [hdel]
    exact Shared.itemUnlock_itemLock (s := s.setHash i (kept ++ rest)) h.1
  rw [← hunlock]
  apply Alone.step (.ageItem h.1)
  apply Alone.step (.ageDead htimeout)
  apply Alone.step .ageUnlockDead
  apply Alone.refl

theorem alone_not_expired (h : ¬s.Expired FLOW_MAX_TIMEOUT current_cycle f)
    : Alone (FlowStep FLOW_MAX_TIMEOUT) c s (ageNext current_cycle i (f :: rest) timeout)
        s (ageNext current_cycle i rest timeout) := by
  by_cases hfree : (s.item f).item_lock = none
  . have htimeout : flowTimeOut FLOW_MAX_TIMEOUT ((s.itemLock c f).item f) current_cycle = false := by
      rw [Bool.eq_false_iff]
      intro htimeout
      apply h
      exact ⟨hfree, by simpa [Shared.itemLock, flowTimeOut] using htimeout⟩
    have hunlock : FlowStep FLOW_MAX_TIMEOUT c (s.itemLock c f)
        (ageUnlockKeep current_cycle i f rest timeout) ((s.itemLock c f).itemUnlock f)
        (ageNext current_cycle i rest timeout) := .ageUnlockKeep
    rw [Shared.itemUnlock_itemLock hfree] at hunlock
    apply Alone.step (.ageItem hfree)
    apply Alone.step (.ageKeep htimeout)
    apply Alone.step hunlock
    apply Alone.refl
  . apply Alone.step (.ageSkipItem hfree)
    apply Alone.refl

theorem alone_items (hhash : s.hash i = kept ++ rest) (hnodup : (kept ++ rest).Nodup)
    : Alone (FlowStep FLOW_MAX_TIMEOUT) c s (ageNext current_cycle i rest timeout)
        (s.setHash i (kept ++ rest.filter fun f => ¬s.Expired FLOW_MAX_TIMEOUT current_cycle f))
        (ageNext current_cycle i []
          ((rest.filter fun f => s.Expired FLOW_MAX_TIMEOUT current_cycle f).reverse ++ timeout)) := by
  induction rest generalizing s kept timeout with
  | nil =>
    have heq : s.setHash i (kept ++ []) = s := by
      simp [Shared.setHash, ← hhash]
    simp only [List.filter_nil, heq]
    exact .refl
  | cons f rest ih =>
    have hf := List.nodup_middle.mp hnodup
    rw [List.nodup_cons, List.mem_append, not_or] at hf
    by_cases h : s.Expired FLOW_MAX_TIMEOUT current_cycle f
    . apply (alone_expired h hhash hf.1.1).trans
      have hset : (s.setHash i (kept ++ rest)).hash i = kept ++ rest := by simp [Shared.setHash]
      have hrest : Alone (FlowStep FLOW_MAX_TIMEOUT) c (s.setHash i (kept ++ rest))
          (ageNext current_cycle i rest (f :: timeout)) _ _ := ih hset hf.2
      simpa [h] using hrest
    . apply (alone_not_expired h).trans
      rw [List.append_cons] at hhash hnodup
      simpa [h] using ih hhash hnodup

theorem alone_free (timeout : List Item)
    : Alone (FlowStep FLOW_MAX_TIMEOUT) c s (ageFree current_cycle i timeout)
        { s with pool := {f | f ∈ timeout} ∪ s.pool } (nextBucket current_cycle i) := by
  induction timeout generalizing s with
  | nil =>
    apply Alone.step .ageFinish
    simpa using Alone.refl
  | cons tf timeout ih =>
    apply Alone.step .ageFree
    have hrest := ih (s := s.flowItemFree tf)
    have hpool : {f | f ∈ tf :: timeout} ∪ s.pool = {f | f ∈ timeout} ∪ insert tf s.pool := by
      ext f
      simp only [Set.mem_union, Set.mem_ofPred_eq, List.mem_cons, Set.mem_insert_iff]
      tauto
    rw [hpool]
    exact hrest

theorem alone_bucket (hnodup : (s.hash i).Nodup)
    : Alone (FlowStep FLOW_MAX_TIMEOUT) c s (ageTrylock current_cycle i)
        (s.agedBucket FLOW_MAX_TIMEOUT current_cycle i) (nextBucket current_cycle i) := by
  by_cases hlock : s.lock i = none
  . apply Alone.step (.ageTrylock hlock)
    have hhash : (s.tableLock c i).hash i = [] ++ s.hash i := rfl
    have hages (f : Item) : (s.tableLock c i).Expired FLOW_MAX_TIMEOUT current_cycle f
        ↔ s.Ages FLOW_MAX_TIMEOUT current_cycle i f := by
      simp [Shared.Ages, hlock, Shared.Expired, Shared.tableLock]
    have hunlock (chain : List Item)
        : ((s.tableLock c i).setHash i chain).tableUnlock i = s.setHash i chain :=
      Shared.tableUnlock_tableLock (s := s.setHash i chain) hlock
    apply (alone_items hhash hnodup).trans
    apply Alone.step .ageUnlock
    simp only [hages, hunlock, List.nil_append, List.append_nil]
    have hpool : s.agedBucket FLOW_MAX_TIMEOUT current_cycle i
        = { s.setHash i ((s.hash i).filter fun f => ¬s.Ages FLOW_MAX_TIMEOUT current_cycle i f) with
            pool := {f | f ∈ ((s.hash i).filter fun f =>
              s.Ages FLOW_MAX_TIMEOUT current_cycle i f).reverse} ∪ s.pool } := by
      simp [Shared.agedBucket, Shared.setHash]
    rw [hpool]
    apply alone_free
  . apply Alone.step (.ageSkipBucket hlock)
    have heq : s.agedBucket FLOW_MAX_TIMEOUT current_cycle i = s := by
      simp [Shared.agedBucket, Shared.Ages, hlock]
    rw [heq]
    apply Alone.refl

omit [DecidableEq Item] in
theorem Shared.nodup_agedBucket (hnodup : ∀ fb, (s.hash fb).Nodup) (fb : Bucket)
    : ((s.agedBucket FLOW_MAX_TIMEOUT current_cycle i).hash fb).Nodup := by
  by_cases heq : fb = i
  . subst heq
    simpa [agedBucket] using (hnodup fb).filter _
  . simpa [agedBucket, heq] using hnodup fb

theorem alone_buckets {k : Nat} (hk : FLOW_BUCKET_NUM - i.val = k + 1)
    (hnodup : ∀ fb, (s.hash fb).Nodup)
    : Alone (FlowStep FLOW_MAX_TIMEOUT) c s (ageTrylock current_cycle i)
        (s.agedFrom FLOW_MAX_TIMEOUT current_cycle i.val) idle := by
  induction k generalizing i s with
  | zero =>
    have hlast : ¬i.val + 1 < FLOW_BUCKET_NUM := by omega
    have hnext : nextBucket current_cycle i = (idle : Place Item) := dif_neg hlast
    rw [← Shared.agedFrom_agedBucket i, Shared.agedFrom_all (Nat.not_lt.mp hlast), ← hnext]
    apply alone_bucket (hnodup i)
  | succ k ih =>
    have hlt : i.val + 1 < FLOW_BUCKET_NUM := by omega
    have hnext : nextBucket current_cycle i
        = (ageTrylock current_cycle ⟨i.val + 1, hlt⟩ : Place Item) := dif_pos hlt
    apply (alone_bucket (hnodup i)).trans
    rw [← Shared.agedFrom_agedBucket i, hnext]
    apply ih (i := ⟨i.val + 1, hlt⟩)
    . simp only
      omega
    . apply Shared.nodup_agedBucket hnodup

structure Represents (t : Table Core Item) (s : Shared Core Item) : Prop where
  lock : t.lock = s.lock
  item : t.item = s.item
  chain : ∀ fb, Chain t.links (.first (.hash fb)) (s.hash fb)

omit [DecidableEq Item] in
theorem Represents.ages_iff {t : Table Core Item} (h : Represents t s) (fb : Bucket) (f : Item)
    : t.Ages FLOW_MAX_TIMEOUT current_cycle fb f ↔ s.Ages FLOW_MAX_TIMEOUT current_cycle fb f := by
  rw [Table.Ages, Shared.Ages, Table.Expired, Shared.Expired, flowTimeOut_iff, h.lock, h.item]

theorem Represents.flowAgeTimeoutCB {t : Table Core Item} (h : Represents t s)
    (FLOW_MAX_TIMEOUT : UInt64) (c : Core) (current_cycle : UInt64)
    : ∃ n t' s' freed, (∀ fuel, n ≤ fuel
        → flowAgeTimeoutCB FLOW_MAX_TIMEOUT c current_cycle fuel t = some t')
      ∧ Alone (FlowStep FLOW_MAX_TIMEOUT) c s idle s' idle
      ∧ Represents t' s'
      ∧ t'.freed = t.freed ++ freed
      ∧ s'.pool = {f | f ∈ freed} ∪ s.pool := by
  rcases flowAgeTimeoutCB_eq FLOW_MAX_TIMEOUT c current_cycle h.chain with ⟨links, hrun, hlinks⟩
  let freed := t.agedItems FLOW_MAX_TIMEOUT current_cycle s.hash
  refine ⟨Finset.univ.sup fun fb => (s.hash fb).length, t.after links freed,
    s.agedFrom FLOW_MAX_TIMEOUT current_cycle 0, freed, ?_, ?_, ?_, rfl, ?_⟩
  . intro fuel hfuel
    exact hrun fuel fun fb => (length_le_sup s.hash fb).trans hfuel
  . apply Alone.step (.ageTimeout current_cycle)
    apply alone_buckets (k := FLOW_BUCKET_NUM - 1) (i := 0) rfl
    intro fb
    exact (h.chain fb).nodup
  . refine ⟨h.lock, h.item, ?_⟩
    intro fb
    simpa [Shared.agedFrom, h.ages_iff] using hlinks fb
  . ext f
    simp [Shared.agedFrom, freed, Table.mem_agedItems, h.ages_iff]

theorem Represents.reachable [DecidableEq Core] {t : Table Core Item} {pc : Core → Place Item}
    (h : Represents t s) (hreachable : Reachable (FlowStep FLOW_MAX_TIMEOUT) Initial ⟨s, pc⟩)
    (hidle : pc c = idle) (current_cycle : UInt64)
    : ∃ n t' s', (∀ fuel, n ≤ fuel
        → Flow.flowAgeTimeoutCB FLOW_MAX_TIMEOUT c current_cycle fuel t = some t')
      ∧ Represents t' s'
      ∧ Reachable (FlowStep FLOW_MAX_TIMEOUT) Initial ⟨s', pc⟩ := by
  rcases h.flowAgeTimeoutCB FLOW_MAX_TIMEOUT c current_cycle with
    ⟨n, t', s', -, hrun, halone, h', -, -⟩
  refine ⟨n, t', s', hrun, h', ?_⟩
  have hpc : Function.update pc c idle = pc := by
    rw [← hidle, Function.update_eq_self]
  rw [← hpc] at hreachable ⊢
  exact hreachable.alone halone

end Alone

end SecFw.Flow
