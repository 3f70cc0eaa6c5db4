import Mathlib

/-!
This module contains a heap of blocks of words. Pointers are the identities of blocks, a word of a
new block has no value until one is stored.
-/

/-- The blocks in use, identities from `next` on have not been given out. -/
structure Heap (W : Type) where
  blocks : Nat → Option (List (Option W))
  next : Nat
  fresh : ∀ p, next ≤ p → blocks p = none

abbrev Ptr : Type := Option Nat

namespace Heap

variable {W : Type} {h h' : Heap W} {p q : Ptr} {i j n : Nat} {v : W}

def empty : Heap W := ⟨fun _ => none, 0, fun _ _ => rfl⟩

def block (h : Heap W) (p : Ptr) : Option (List (Option W)) := p.bind h.blocks

def size (h : Heap W) (p : Ptr) : Option Nat := (h.block p).map List.length

def load (h : Heap W) (p : Ptr) (i : Nat) : Option W := (h.block p).bind fun b => (b[i]?).join

def setBlock (h : Heap W) (k : Nat) (b : Option (List (Option W))) (hk : k < h.next) : Heap W where
  blocks := Function.update h.blocks k b
  next := h.next
  fresh := by
    intro p hp
    rw [Function.update_of_ne (by omega)]
    exact h.fresh p hp

theorem lt_next_of_blocks {k : Nat} {b : List (Option W)} (hb : h.blocks k = some b)
    : k < h.next := by
  by_contra hk
  rw [h.fresh k (by omega)] at hb
  simp at hb

def malloc (h : Heap W) (ok : Bool) (n : Nat) : Ptr × Heap W :=
  let next : Heap W := ⟨h.blocks, h.next + 1, fun p hp => h.fresh p (by omega)⟩
  if ok then
    (some h.next, next.setBlock h.next (some (List.replicate n none)) (Nat.lt_succ_self _))
  else
    (none, next)

def store (h : Heap W) (p : Ptr) (i : Nat) (v : W) : Option (Heap W) :=
  match p with
  | none => none
  | some k =>
    match hb : h.blocks k with
    | none => none
    | some b =>
      if i < b.length then
        some (h.setBlock k (some (b.set i (some v))) (lt_next_of_blocks hb))
      else
        none

def free (h : Heap W) (p : Ptr) : Heap W :=
  match p with
  | none => h
  | some k => if hk : k < h.next then h.setBlock k none hk else h

@[simp]
theorem load_null (h : Heap W) (i : Nat) : h.load none i = none := rfl

@[simp]
theorem size_null (h : Heap W) : h.size none = none := rfl

@[simp]
theorem load_empty (p : Ptr) (i : Nat) : (empty : Heap W).load p i = none := by
  cases p <;> rfl

theorem block_setBlock {k : Nat} {b : Option (List (Option W))} (hk : k < h.next) (q : Ptr)
    : (h.setBlock k b hk).block q = if q = some k then b else h.block q := by
  cases q with
  | none => simp [block]
  | some l =>
    by_cases hl : l = k
    . simp [block, setBlock, hl]
    . simp [block, setBlock, hl]

theorem block_malloc (h : Heap W) (ok : Bool) (n : Nat) (q : Ptr)
    : (h.malloc ok n).2.block q
        =
      if ok = true ∧ q = some h.next then some (List.replicate n none) else h.block q := by
  cases ok with
  | false => simp [malloc, block]
  | true =>
    simp only [malloc, ↓reduceIte, block_setBlock, true_and]
    split <;> rfl

theorem malloc_fst (h : Heap W) (ok : Bool) (n : Nat)
    : (h.malloc ok n).1 = if ok then some h.next else none := by
  cases ok <;> rfl

@[simp]
theorem next_malloc (h : Heap W) (ok : Bool) (n : Nat) : (h.malloc ok n).2.next = h.next + 1 := by
  cases ok <;> rfl

theorem block_next (h : Heap W) : h.block (some h.next) = none := h.fresh _ le_rfl

theorem load_malloc (h : Heap W) (ok : Bool) (n : Nat) (q : Ptr) (i : Nat)
    : (h.malloc ok n).2.load q i = h.load q i := by
  rw [load, load, block_malloc]
  split
  . next hq =>
    rw [hq.2, block_next, Option.bind_some, Option.bind_none, List.getElem?_replicate]
    split <;> rfl
  . rfl

theorem size_malloc_of_size (ok : Bool) (n : Nat) (hq : h.size q = some j)
    : (h.malloc ok n).2.size q = some j := by
  rw [size, block_malloc, if_neg]
  . exact hq
  . rintro ⟨-, rfl⟩
    rw [size, block_next] at hq
    simp at hq

theorem size_malloc (hp : (h.malloc true n).1 = p) : (h.malloc true n).2.size p = some n := by
  rw [malloc_fst, if_pos rfl] at hp
  rw [size, block_malloc, ← hp, if_pos ⟨rfl, rfl⟩, Option.map_some, List.length_replicate]

theorem exists_store (hp : h.size p = some n) (hi : i < n) (v : W)
    : ∃ h', h.store p i v = some h' := by
  rw [size, Option.map_eq_some_iff] at hp
  rcases hp with ⟨b, hb, rfl⟩
  cases p with
  | none => simp [block] at hb
  | some k =>
    have hb : h.blocks k = some b := hb
    rw [store]
    split
    . next hnone => simp [hb] at hnone
    . next b' hb' =>
      rw [hb, Option.some.injEq] at hb'
      subst hb'
      exact ⟨_, if_pos hi⟩

theorem block_store (hs : h.store p i v = some h') (q : Ptr)
    : ∃ b, h.block p = some b ∧ i < b.length
        ∧ h'.block q = if q = p then some (b.set i (some v)) else h.block q := by
  cases p with
  | none => simp [store] at hs
  | some k =>
    rw [store] at hs
    split at hs
    . simp at hs
    . next b hb =>
      split at hs
      . next hi =>
        rw [Option.some.injEq] at hs
        rw [← hs]
        exact ⟨b, hb, hi, block_setBlock _ q⟩
      . simp at hs

theorem load_store (hs : h.store p i v = some h') (q : Ptr) (j : Nat)
    : h'.load q j = if q = p ∧ j = i then some v else h.load q j := by
  rcases block_store hs q with ⟨b, hb, hi, hq⟩
  rw [load, hq]
  by_cases hqp : q = p
  . rw [if_pos hqp, Option.bind_some, hqp]
    by_cases hji : j = i
    . simp [hji, hi]
    . simp [hji, load, hb, Ne.symm hji]
  . simp [hqp, load]

theorem size_store (hs : h.store p i v = some h') (q : Ptr) : h'.size q = h.size q := by
  rcases block_store hs q with ⟨b, hb, hi, hq⟩
  rw [size, hq]
  by_cases hqp : q = p
  . simp [hqp, size, hb]
  . simp [hqp, size]

theorem block_free (h : Heap W) (p q : Ptr)
    : (h.free p).block q = if q = p then none else h.block q := by
  cases p with
  | none => cases q <;> simp [free, block]
  | some k =>
    rw [free]
    split
    . rw [block_setBlock]
    . next hk =>
      split
      . next hq =>
        rw [hq]
        exact h.fresh k (by omega)
      . rfl

theorem load_free (h : Heap W) (p q : Ptr) (i : Nat)
    : (h.free p).load q i = if q = p then none else h.load q i := by
  rw [load, block_free]
  split
  . rfl
  . rfl

end Heap
