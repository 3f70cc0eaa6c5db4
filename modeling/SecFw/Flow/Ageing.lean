import SecFw.Flow.Basic
import SecFw.HList.Basic

/-!
This module contains `FlowAgeTimeoutCB` on the links of the items, while the other cores hold some
of the locks: it takes exactly the items out that timed out, and all lists stay well formed.
-/

namespace SecFw.Flow

open HList

inductive Head where
  | hash (fb : Bucket)
  | timeout
  deriving DecidableEq

structure Table (Core Item : Type) where
  -- the flow table in memory, `freed` are the arguments of `flow_item_free` in their order
  lock : Bucket → Option Core
  item : Item → flow_item_t Core
  links : Links Head Item
  freed : List Item

section Operations

variable {Core Item : Type}

namespace Table

def setLinks (s : Table Core Item) (links : Links Head Item) : Table Core Item :=
  { s with links := links }

def flowItemFree (s : Table Core Item) (f : Item) : Table Core Item :=
  { s with freed := s.freed ++ [f] }

def setLock (s : Table Core Item) (fb : Bucket) (lock : Option Core) : Table Core Item :=
  -- `FLOW_TABLE_TRYLOCK` of a free lock, and `FLOW_TABLE_UNLOCK`
  { s with lock := Function.update s.lock fb lock }

def setItemLock [DecidableEq Item] (s : Table Core Item) (f : Item) (item_lock : Option Core)
    : Table Core Item :=
  -- `FLOW_ITEM_TRYLOCK` of a free lock, and `FLOW_ITEM_UNLOCK`
  { s with item := Function.update s.item f { s.item f with item_lock := item_lock } }

end Table

variable [DecidableEq Item]

def ageItem (FLOW_MAX_TIMEOUT : UInt64) (c : Core) (current_cycle : UInt64) (f : Item)
    (s : Table Core Item) : Option (Table Core Item) :=
  if (s.item f).item_lock ≠ none then
    some s
  else
    let s := s.setItemLock f (some c)
    if flowTimeOut FLOW_MAX_TIMEOUT (s.item f) current_cycle then do
      let s := s.setLinks (← s.links.del f)
      let s := s.setItemLock f none
      some (s.setLinks (← s.links.addHead f .timeout))
    else
      some (s.setItemLock f none)

def freeItem (tf : Item) (s : Table Core Item) : Option (Table Core Item) := do
  let s := s.setLinks (← s.links.del tf)
  some (s.flowItemFree tf)

def ageBucket (FLOW_MAX_TIMEOUT : UInt64) (c : Core) (current_cycle : UInt64) (fuel : Nat)
    (s : Table Core Item) (i : Bucket) : Option (Table Core Item) :=
  let s := s.setLinks (s.links.init .timeout)
  if s.lock i ≠ none then
    some s
  else do
    let s := s.setLock i (some c)
    let s ← forEachSafe Table.links (ageItem FLOW_MAX_TIMEOUT c current_cycle) fuel
      (s.links.load (.first (.hash i))) s
    let s := s.setLock i none
    forEachSafe Table.links freeItem fuel (s.links.load (.first .timeout)) s

def flowAgeTimeoutCB (FLOW_MAX_TIMEOUT : UInt64) (c : Core) (current_cycle : UInt64) (fuel : Nat)
    (s : Table Core Item) : Option (Table Core Item) :=
  -- `FlowAgeTimeoutCB` on core `c`, the fuel is for every loop over a list
  (List.finRange FLOW_BUCKET_NUM).foldlM
    (ageBucket FLOW_MAX_TIMEOUT c current_cycle fuel) s

end Operations

namespace Table

variable {Core Item : Type}

def Expired (s : Table Core Item) (FLOW_MAX_TIMEOUT current_cycle : UInt64) (f : Item) : Prop :=
  (s.item f).item_lock = none
    ∧ (s.item f).use_cnt ≤ 0
    ∧ current_cycle > (s.item f).cycle
    ∧ current_cycle - (s.item f).cycle > FLOW_MAX_TIMEOUT

instance (s : Table Core Item) (FLOW_MAX_TIMEOUT current_cycle : UInt64) (f : Item)
    : Decidable (s.Expired FLOW_MAX_TIMEOUT current_cycle f) :=
  inferInstanceAs (Decidable (_ ∧ _))

/-- `FlowAgeTimeoutCB` removes the item from the bucket. -/
def Ages (s : Table Core Item) (FLOW_MAX_TIMEOUT current_cycle : UInt64) (fb : Bucket) (f : Item)
    : Prop :=
  s.lock fb = none ∧ s.Expired FLOW_MAX_TIMEOUT current_cycle f

instance (s : Table Core Item) (FLOW_MAX_TIMEOUT current_cycle : UInt64) (fb : Bucket) (f : Item)
    : Decidable (s.Ages FLOW_MAX_TIMEOUT current_cycle fb f) :=
  inferInstanceAs (Decidable (_ ∧ _))

def aged (s : Table Core Item) (FLOW_MAX_TIMEOUT current_cycle : UInt64)
    (hash : Bucket → List Item) (fb : Bucket) : List Item :=
  ((hash fb).filter fun f => s.Ages FLOW_MAX_TIMEOUT current_cycle fb f).reverse

def agedItems (s : Table Core Item) (FLOW_MAX_TIMEOUT current_cycle : UInt64)
    (hash : Bucket → List Item) : List Item :=
  (List.finRange FLOW_BUCKET_NUM).flatMap (s.aged FLOW_MAX_TIMEOUT current_cycle hash)

end Table

def Table.after {Core Item : Type} (s : Table Core Item) (links : Links Head Item)
    (freed : List Item) : Table Core Item :=
  { s with links := links, freed := s.freed ++ freed }

def lists {Item : Type} (hash : Bucket → List Item) (timeout : List Item) : Head → List Item
  | .hash fb => hash fb
  | .timeout => timeout

section Lemmas

variable {Core Item : Type} {s : Table Core Item} {hash : Bucket → List Item}
  {timeout xs : List Item} {FLOW_MAX_TIMEOUT current_cycle : UInt64} {c : Core} {fb i : Bucket}
  {f : Item}

@[simp]
theorem lists_hash : lists hash timeout (.hash fb) = hash fb := rfl

@[simp]
theorem lists_timeout : lists hash timeout .timeout = timeout := rfl

@[simp]
theorem update_lists_hash
    : Function.update (lists hash timeout) (.hash fb) xs
        =
      lists (Function.update hash fb xs) timeout := by
  funext k
  cases k with
  | hash i =>
    by_cases hne : i = fb
    . subst hne
      simp
    . simp [hne]
  | timeout => simp

@[simp]
theorem update_lists_timeout
    : Function.update (lists hash timeout) .timeout xs = lists hash xs := by
  funext k
  cases k <;> simp

theorem flowTimeOut_iff {f : flow_item_t Core}
    : flowTimeOut FLOW_MAX_TIMEOUT f current_cycle = true
        ↔ f.use_cnt ≤ 0
            ∧ current_cycle > f.cycle
            ∧ current_cycle - f.cycle > FLOW_MAX_TIMEOUT := by
  rw [flowTimeOut]
  split
  . simp only [Bool.false_eq_true, false_iff]
    omega
  . have hcnt : f.use_cnt ≤ 0 := by omega
    simp [hcnt]

@[simp]
theorem Table.links_setLinks (links : Links Head Item) : (s.setLinks links).links = links := rfl

@[simp]
theorem Table.setLinks_setLinks (links links' : Links Head Item)
    : (s.setLinks links).setLinks links' = s.setLinks links' := rfl

@[simp]
theorem Table.expired_setLinks (links : Links Head Item)
    : (s.setLinks links).Expired FLOW_MAX_TIMEOUT current_cycle f
        ↔ s.Expired FLOW_MAX_TIMEOUT current_cycle f := Iff.rfl

@[simp]
theorem Table.expired_setLock (lock : Option Core)
    : (s.setLock i lock).Expired FLOW_MAX_TIMEOUT current_cycle f
        ↔ s.Expired FLOW_MAX_TIMEOUT current_cycle f := Iff.rfl

@[simp]
theorem Table.ages_after (links : Links Head Item) (freed : List Item)
    : (s.after links freed).Ages FLOW_MAX_TIMEOUT current_cycle fb f
        ↔ s.Ages FLOW_MAX_TIMEOUT current_cycle fb f := Iff.rfl

@[simp]
theorem Table.links_after (links : Links Head Item) (freed : List Item)
    : (s.after links freed).links = links := rfl

theorem Table.after_after (links links' : Links Head Item) (freed freed' : List Item)
    : (s.after links freed).after links' freed' = s.after links' (freed ++ freed') := by
  simp [after]

@[simp]
theorem Table.after_nil (links : Links Head Item) : s.after links [] = s.setLinks links := by
  simp [after, setLinks]

@[simp]
theorem Table.after_setLinks (links links' : Links Head Item) (freed : List Item)
    : (s.setLinks links).after links' freed = s.after links' freed := rfl

@[simp]
theorem Table.lock_setLinks (links : Links Head Item) : (s.setLinks links).lock = s.lock := rfl

@[simp]
theorem Table.links_setLock (lock : Option Core) : (s.setLock i lock).links = s.links := rfl

@[simp]
theorem Table.setLock_setLinks (links : Links Head Item) (lock : Option Core)
    : (s.setLinks links).setLock i lock = (s.setLock i lock).setLinks links := rfl

theorem Table.setLock_setLock (h : s.lock i = none) (lock : Option Core)
    : (s.setLock i lock).setLock i none = s := by
  simp [setLock, ← h]

variable [DecidableEq Item]

@[simp]
theorem Table.setItemLock_setLinks (links : Links Head Item) (lock : Option Core)
    : (s.setLinks links).setItemLock f lock = (s.setItemLock f lock).setLinks links := rfl

@[simp]
theorem Table.links_setItemLock (lock : Option Core) : (s.setItemLock f lock).links = s.links := rfl

theorem Table.setItemLock_setItemLock (h : (s.item f).item_lock = none) (lock : Option Core)
    : (s.setItemLock f lock).setItemLock f none = s := by
  have heq : { s.item f with item_lock := none } = s.item f := by rw [← h]
  simp [setItemLock, heq]

theorem ageItem_of_not_expired (h : ¬s.Expired FLOW_MAX_TIMEOUT current_cycle f)
    : ageItem FLOW_MAX_TIMEOUT c current_cycle f s = some s := by
  rw [ageItem]
  split
  . rfl
  . next hfree =>
    rw [not_not] at hfree
    have htimeout : flowTimeOut FLOW_MAX_TIMEOUT ((s.setItemLock f (some c)).item f) current_cycle
        = false := by
      rw [Bool.eq_false_iff]
      intro heq
      apply h
      have := flowTimeOut_iff.mp heq
      simp only [Table.setItemLock, Function.update_self] at this
      exact ⟨hfree, this⟩
    simp [htimeout, Table.setItemLock_setItemLock hfree]

theorem ageItem_of_expired {kept rest : List Item}
    (h : s.Expired FLOW_MAX_TIMEOUT current_cycle f)
    (hlists : Lists s.links (lists hash timeout)) (hhash : hash fb = kept ++ f :: rest)
    : ∃ links, ageItem FLOW_MAX_TIMEOUT c current_cycle f s = some (s.setLinks links)
        ∧ Lists links (lists (Function.update hash fb (kept ++ rest)) (f :: timeout)) := by
  have hchain : lists hash timeout (.hash fb) = kept ++ f :: rest := hhash
  rcases hlists.del hchain with ⟨links, hdel, hlinks, hout⟩
  rcases hlinks.addHead hout .timeout with ⟨links', hadd, hlinks'⟩
  refine ⟨links', ?_, by simpa using hlinks'⟩
  have htimeout : flowTimeOut FLOW_MAX_TIMEOUT ((s.setItemLock f (some c)).item f) current_cycle
      = true := by
    apply flowTimeOut_iff.mpr
    simpa [Table.setItemLock] using h.2
  simp [ageItem, h.1, htimeout, hdel, hadd, Table.setItemLock_setItemLock h.1]

theorem forEachSafe_ageItem (fb : Bucket) (hlists : Lists s.links (lists hash []))
    : ∃ links, (∀ fuel, (hash fb).length ≤ fuel
        → forEachSafe Table.links (ageItem FLOW_MAX_TIMEOUT c current_cycle) fuel
            (start (hash fb)) s = some (s.setLinks links))
      ∧ Lists links (lists
          (Function.update hash fb
            ((hash fb).filter fun f => ¬s.Expired FLOW_MAX_TIMEOUT current_cycle f))
          ((hash fb).filter fun f => s.Expired FLOW_MAX_TIMEOUT current_cycle f).reverse) := by
  -- the items behind the loop are kept or in `timeout`
  let I := fun (done rest : List Item) (s' : Table Core Item) => ∃ links,
    s' = s.setLinks links
      ∧ Lists links (lists
          (Function.update hash fb
            ((done.filter fun f => ¬s.Expired FLOW_MAX_TIMEOUT current_cycle f) ++ rest))
          (done.filter fun f => s.Expired FLOW_MAX_TIMEOUT current_cycle f).reverse)
  have hinit : I [] (hash fb) s := ⟨s.links, rfl, by simpa using hlists⟩
  have hnext (done : List Item) (pos : Item) (rest : List Item) (s' : Table Core Item)
      (h : I done (pos :: rest) s') : s'.links.load (.next pos) = start rest := by
    rcases h with ⟨links, rfl, h⟩
    have hchain := h (.hash fb)
    rw [lists_hash, Function.update_self] at hchain
    exact hchain.load_next
  have hbody (done : List Item) (pos : Item) (rest : List Item) (s' : Table Core Item)
      (h : I done (pos :: rest) s')
      : ∃ s1, ageItem FLOW_MAX_TIMEOUT c current_cycle pos s' = some s1
          ∧ I (done ++ [pos]) rest s1 := by
    rcases h with ⟨links, rfl, h⟩
    by_cases hexpired : s.Expired FLOW_MAX_TIMEOUT current_cycle pos
    . rcases ageItem_of_expired (s := s.setLinks links) (c := c) hexpired h
        (Function.update_self ..) with ⟨links', hage, hlinks'⟩
      refine ⟨_, hage, links', rfl, ?_⟩
      simpa [hexpired] using hlinks'
    . refine ⟨_, ageItem_of_not_expired hexpired, links, rfl, ?_⟩
      simpa [hexpired] using h
  rcases forEachSafe_spec I hnext hbody hinit with ⟨s', hrun, links, rfl, hlinks⟩
  exact ⟨links, hrun, by simpa using hlinks⟩

theorem forEachSafe_freeItem (hlists : Lists s.links (lists hash timeout))
    : ∃ links, (∀ fuel, timeout.length ≤ fuel
        → forEachSafe Table.links freeItem fuel (start timeout) s
            = some (s.after links timeout))
      ∧ Lists links (lists hash []) := by
  let I := fun (done rest : List Item) (s' : Table Core Item) => ∃ links,
    s' = s.after links done ∧ Lists links (lists hash rest)
  have hinit : I [] timeout s := ⟨s.links, by simp [Table.setLinks], hlists⟩
  have hnext (done : List Item) (pos : Item) (rest : List Item) (s' : Table Core Item)
      (h : I done (pos :: rest) s') : s'.links.load (.next pos) = start rest := by
    rcases h with ⟨links, rfl, h⟩
    have hchain : Chain links (.first .timeout) ([] ++ pos :: rest) := h .timeout
    exact hchain.load_next
  have hbody (done : List Item) (pos : Item) (rest : List Item) (s' : Table Core Item)
      (h : I done (pos :: rest) s')
      : ∃ s1, freeItem pos s' = some s1 ∧ I (done ++ [pos]) rest s1 := by
    rcases h with ⟨links, rfl, h⟩
    have hchain : lists hash (pos :: rest) .timeout = [] ++ pos :: rest := rfl
    rcases h.del hchain with ⟨links', hdel, hlinks', -⟩
    refine ⟨_, ?_, links', rfl, by simpa using hlinks'⟩
    simp [freeItem, Table.after, Table.setLinks, Table.flowItemFree, hdel]
  rcases forEachSafe_spec I hnext hbody hinit with ⟨s', hrun, links, rfl, hlinks⟩
  exact ⟨links, hrun, hlinks⟩

theorem ageBucket_spec (FLOW_MAX_TIMEOUT : UInt64) (c : Core) (current_cycle : UInt64)
    (hchain : ∀ fb, Chain s.links (.first (.hash fb)) (hash fb)) (i : Bucket)
    : ∃ links, (∀ fuel, (hash i).length ≤ fuel
        → ageBucket FLOW_MAX_TIMEOUT c current_cycle fuel s i
            = some (s.after links (s.aged FLOW_MAX_TIMEOUT current_cycle hash i)))
      ∧ ∀ fb, Chain links (.first (.hash fb))
          (Function.update hash i
            ((hash i).filter fun f => ¬s.Ages FLOW_MAX_TIMEOUT current_cycle i f) fb) := by
  have hinit : Lists (s.links.init .timeout) (lists hash []) := by
    have hother (k : Head) (hk : k ≠ .timeout)
        : Chain s.links (.first k) (lists hash [] k) := by
      cases k with
      | hash fb => exact hchain fb
      | timeout => contradiction
    simpa using Lists.init hother
  by_cases hlock : s.lock i = none
  . have hages (f : Item) : s.Ages FLOW_MAX_TIMEOUT current_cycle i f
        ↔ s.Expired FLOW_MAX_TIMEOUT current_cycle f := by
      simp [Table.Ages, hlock]
    rcases forEachSafe_ageItem (s := (s.setLock i (some c)).setLinks (s.links.init .timeout))
      (c := c) i hinit with ⟨links, hrun, hlinks⟩
    rcases forEachSafe_freeItem (s := s.setLinks links) hlinks with ⟨links', hrun', hlinks'⟩
    refine ⟨links', ?_, ?_⟩
    . intro fuel hfuel
      have hstart := (hinit (.hash i)).load_eq_start
      have hstart' := (hlinks .timeout).load_eq_start
      have hlength := List.length_filter_le
        (fun f => decide (s.Expired FLOW_MAX_TIMEOUT current_cycle f)) (hash i)
      have hrun' := hrun' fuel (by rw [List.length_reverse]; exact hlength.trans hfuel)
      rw [lists_hash] at hstart
      rw [lists_timeout] at hstart'
      have haged : s.aged FLOW_MAX_TIMEOUT current_cycle hash i
          = ((hash i).filter fun f => s.Expired FLOW_MAX_TIMEOUT current_cycle f).reverse := by
        simp only [Table.aged, hages]
      rw [haged]
      simpa [ageBucket, hlock, hstart, hrun fuel hfuel, Table.setLock_setLock hlock, hstart']
        using hrun'
    . intro fb
      simp only [hages]
      exact hlinks' (.hash fb)
  . refine ⟨s.links.init .timeout, ?_, ?_⟩
    . intro fuel _
      simp [ageBucket, hlock, Table.aged, Table.Ages]
    . intro fb
      simpa [Table.Ages, hlock] using hinit (.hash fb)

theorem foldlM_ageBucket (FLOW_MAX_TIMEOUT : UInt64) (c : Core) (current_cycle : UInt64)
    (hchain : ∀ fb, Chain s.links (.first (.hash fb)) (hash fb)) {bs : List Bucket} (hbs : bs.Nodup)
    : ∃ links, (∀ fuel, (∀ fb ∈ bs, (hash fb).length ≤ fuel)
        → bs.foldlM (ageBucket FLOW_MAX_TIMEOUT c current_cycle fuel) s
            = some (s.after links (bs.flatMap (s.aged FLOW_MAX_TIMEOUT current_cycle hash))))
      ∧ ∀ fb, Chain links (.first (.hash fb))
          (if fb ∈ bs then
            (hash fb).filter fun f => ¬s.Ages FLOW_MAX_TIMEOUT current_cycle fb f
          else
            hash fb) := by
  induction bs generalizing s hash with
  | nil => exact ⟨s.links, by simp [Table.setLinks], by simpa using hchain⟩
  | cons i bs ih =>
    rw [List.nodup_cons] at hbs
    rcases ageBucket_spec FLOW_MAX_TIMEOUT c current_cycle hchain i with ⟨links, hrun, hlinks⟩
    rcases ih (s := s.after links (s.aged FLOW_MAX_TIMEOUT current_cycle hash i)) hlinks hbs.2
      with ⟨links', hrun', hlinks'⟩
    refine ⟨links', ?_, ?_⟩
    . intro fuel hfuel
      have hrun := hrun fuel (hfuel i (by simp))
      have hrun' := hrun' fuel (by
        intro fb hfb
        rw [Function.update_of_ne (ne_of_mem_of_not_mem hfb hbs.1)]
        exact hfuel fb (List.mem_cons_of_mem i hfb))
      rw [List.foldlM_cons, hrun]
      rw [Option.bind_eq_bind, Option.bind_some, hrun', Table.after_after, List.flatMap_cons]
      congr 3
      apply List.flatMap_congr
      intro fb hfb
      simp [Table.aged, ne_of_mem_of_not_mem hfb hbs.1]
    . intro fb
      have hfb := hlinks' fb
      by_cases hne : fb = i
      . subst hne
        simpa [hbs.1] using hfb
      . simpa [hne] using hfb

omit [DecidableEq Item] in
theorem Table.mem_agedItems
    : f ∈ s.agedItems FLOW_MAX_TIMEOUT current_cycle hash
        ↔ ∃ fb, f ∈ hash fb ∧ s.Ages FLOW_MAX_TIMEOUT current_cycle fb f := by
  unfold agedItems
  have hall := List.mem_finRange (n := FLOW_BUCKET_NUM)
  generalize List.finRange FLOW_BUCKET_NUM = bs at hall ⊢
  simp [aged, hall]

omit [DecidableEq Item] in
theorem Table.nodup_agedItems (hchain : ∀ fb, Chain s.links (.first (.hash fb)) (hash fb))
    : (s.agedItems FLOW_MAX_TIMEOUT current_cycle hash).Nodup := by
  unfold agedItems
  have hbs := List.nodup_finRange FLOW_BUCKET_NUM
  generalize List.finRange FLOW_BUCKET_NUM = bs at hbs ⊢
  rw [List.nodup_flatMap]
  constructor
  . intro fb _
    rw [aged, List.nodup_reverse]
    exact (hchain fb).nodup.filter _
  . apply hbs.imp
    intro fb i hne f hf hf'
    simp only [aged, List.mem_reverse, List.mem_filter] at hf hf'
    have heq := (hchain fb).head_unique (hchain i) hf.1 hf'.1
    exact hne (by simpa using heq)

theorem flowAgeTimeoutCB_eq (FLOW_MAX_TIMEOUT : UInt64) (c : Core) (current_cycle : UInt64)
    (hchain : ∀ fb, Chain s.links (.first (.hash fb)) (hash fb))
    : ∃ links, (∀ fuel, (∀ fb, (hash fb).length ≤ fuel)
        → flowAgeTimeoutCB FLOW_MAX_TIMEOUT c current_cycle fuel s
            = some (s.after links (s.agedItems FLOW_MAX_TIMEOUT current_cycle hash)))
      ∧ ∀ fb, Chain links (.first (.hash fb))
          ((hash fb).filter fun f => ¬s.Ages FLOW_MAX_TIMEOUT current_cycle fb f) := by
  unfold flowAgeTimeoutCB Table.agedItems
  have hbs := List.nodup_finRange FLOW_BUCKET_NUM
  have hall := List.mem_finRange (n := FLOW_BUCKET_NUM)
  generalize List.finRange FLOW_BUCKET_NUM = bs at hbs hall ⊢
  rcases foldlM_ageBucket FLOW_MAX_TIMEOUT c current_cycle hchain hbs with ⟨links, hrun, hlinks⟩
  refine ⟨links, ?_, ?_⟩
  . intro fuel hfuel
    exact hrun fuel fun fb _ => hfuel fb
  . intro fb
    have hfb := hlinks fb
    rw [if_pos (hall fb)] at hfb
    exact hfb

omit [DecidableEq Item] in
theorem length_le_sup (hash : Bucket → List Item) (fb : Bucket)
    : (hash fb).length ≤ Finset.univ.sup fun fb => (hash fb).length :=
  Finset.le_sup (f := fun fb => (hash fb).length) (Finset.mem_univ fb)

/--
`FlowAgeTimeoutCB` returns, whatever the locks and the clock are, it removes exactly the items that
it can lock and that timed out, and it frees each of them once.
-/
theorem flowAgeTimeoutCB_exact (FLOW_MAX_TIMEOUT : UInt64) (c : Core) (current_cycle : UInt64)
    (s : Table Core Item) (hash : Bucket → List Item)
    (hchain : ∀ fb, Chain s.links (.first (.hash fb)) (hash fb))
    : ∃ n s' freed, (∀ fuel, n ≤ fuel
        → flowAgeTimeoutCB FLOW_MAX_TIMEOUT c current_cycle fuel s = some s')
      ∧ (∀ fb, Chain s'.links (.first (.hash fb))
          ((hash fb).filter fun f => ¬s.Ages FLOW_MAX_TIMEOUT current_cycle fb f))
      ∧ s'.freed = s.freed ++ freed
      ∧ freed.Nodup
      ∧ (∀ f, f ∈ freed ↔ ∃ fb, f ∈ hash fb ∧ s.Ages FLOW_MAX_TIMEOUT current_cycle fb f)
      ∧ s'.lock = s.lock
      ∧ s'.item = s.item := by
  rcases flowAgeTimeoutCB_eq FLOW_MAX_TIMEOUT c current_cycle hchain with ⟨links, hrun, hlinks⟩
  let freed := s.agedItems FLOW_MAX_TIMEOUT current_cycle hash
  refine ⟨Finset.univ.sup fun fb => (hash fb).length, s.after links freed, freed, ?_, hlinks, rfl,
    Table.nodup_agedItems hchain, ?_, rfl, rfl⟩
  . intro fuel hfuel
    exact hrun fuel fun fb => (length_le_sup hash fb).trans hfuel
  . intro f
    exact Table.mem_agedItems

end Lemmas

def agedTable : Table Bool Nat where
  lock fb := if fb = 1 then some true else none
  item f := ⟨if f = 2 then some true else none, 0, if f = 3 then 1 else 0, 0, 0, 0, 0, 0⟩
  links := {
    load := fun
      | .first (.hash fb) => if fb = 0 then .addr 1 else if fb = 1 then .addr 5 else .null
      | .first .timeout => .poison
      | .next f => if f < 4 then .addr (f + 1) else .null
    pprev := fun f =>
      if f = 1 then .addr (.first (.hash 0))
      else if f = 5 then .addr (.first (.hash 1))
      else .addr (.next (f - 1))
  }
  freed := []

def agedHash (fb : Bucket) : List Nat :=
  if fb = 0 then
    [1, 2, 3, 4]
  else if fb = 1 then
    [5]
  else
    []

theorem chain_agedTable (fb : Bucket) : Chain agedTable.links (.first (.hash fb)) (agedHash fb) := by
  by_cases h0 : fb = 0
  . subst h0
    simp [agedHash, Chain, agedTable]
  . by_cases h1 : fb = 1
    . subst h1
      simp [agedHash, Chain, agedTable]
    . simp [agedHash, Chain, agedTable, h0, h1]

theorem ages_agedTable (f : Nat)
    : (∃ fb, f ∈ agedHash fb ∧ agedTable.Ages 20 100 fb f) ↔ f ∈ [1, 4] := by
  constructor
  . rintro ⟨fb, hf, hlock, hexpired⟩
    by_cases h0 : fb = 0
    . subst h0
      have hf : f ∈ [1, 2, 3, 4] := hf
      simp only [List.mem_cons, List.not_mem_nil, or_false] at hf
      rcases hf with rfl | rfl | rfl | rfl <;> revert hexpired <;> decide
    . by_cases h1 : fb = 1
      . simp [agedTable, h1] at hlock
      . simp [agedHash, h0, h1] at hf
  . intro hf
    simp only [List.mem_cons, List.not_mem_nil, or_false] at hf
    rcases hf with rfl | rfl <;> exact ⟨0, by decide, by decide⟩

theorem flowAgeTimeoutCB_exact_agedTable
    : ∃ n s', (∀ fuel, n ≤ fuel → flowAgeTimeoutCB 20 false 100 fuel agedTable = some s')
        ∧ Chain s'.links (.first (.hash 0)) [2, 3]
        ∧ Chain s'.links (.first (.hash 1)) [5]
        ∧ s'.freed.Perm [1, 4] := by
  rcases flowAgeTimeoutCB_exact 20 false 100 agedTable agedHash chain_agedTable with
    ⟨n, s', freed, hrun, hlinks, hfreed, hnodup, hmem, -⟩
  refine ⟨n, s', hrun, hlinks 0, hlinks 1, ?_⟩
  have hfreed : s'.freed = freed := hfreed
  rw [hfreed, List.perm_ext_iff_of_nodup hnodup (by decide)]
  intro f
  rw [hmem, ages_agedTable]

end SecFw.Flow
