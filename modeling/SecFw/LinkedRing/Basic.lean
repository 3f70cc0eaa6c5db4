import Mathlib

/-!
This module contains circular doubly linked lists whose links are stored inside of their elements:
insertion behind an element, removal, and families of rings that share no element.
-/

namespace LinkedRing

variable {α : Type}

/-- The links of every place in memory that can be part of a ring. -/
structure Links (α : Type) where
  next : α → α
  prev : α → α

/-- The places that hold links: the heads of the rings, and the elements by their address. -/
inductive Place (κ : Type) where
  | head (k : κ)
  | list (a : Nat)
  | poison
  | null
  deriving DecidableEq

def Path (m : Links α) : α → List α → α → Prop
  | a, [], b => m.next a = b ∧ m.prev b = a
  | a, x :: xs, b => m.next a = x ∧ m.prev x = a ∧ Path m x xs b

/-- The elements of the ring behind its head. -/
structure IsRing (m : Links α) (head : α) (xs : List α) : Prop where
  nodup : (head :: xs).Nodup
  path : Path m head xs head

/-- The rings of a family, no two of them share an element. -/
structure Rings {κ : Type} (m : Links α) (keys : Set κ) (head : κ → α) (chains : κ → List α)
    : Prop where
  ring : ∀ k ∈ keys, IsRing m (head k) (chains k)
  disjoint : ∀ k ∈ keys, ∀ k' ∈ keys, k ≠ k'
    → List.Disjoint (head k :: chains k) (head k' :: chains k')

def Unlinked (m : Links α) (a : α) : Prop := ∀ x, x ≠ a → m.next x ≠ a ∧ m.prev x ≠ a

section Operations

variable [DecidableEq α]

def Links.insertBetween (m : Links α) (new prev next : α) : Links α where
  next := Function.update (Function.update m.next new next) prev new
  prev := Function.update (Function.update m.prev next new) new prev

def Links.add (m : Links α) (new head : α) : Links α := m.insertBetween new head (m.next head)

def Links.join (m : Links α) (prev next : α) : Links α where
  next := Function.update m.next prev next
  prev := Function.update m.prev next prev

def Links.del (m : Links α) (poison entry : α) : Links α :=
  let m := m.join (m.prev entry) (m.next entry)
  ⟨Function.update m.next entry poison, Function.update m.prev entry poison⟩

def Links.init (m : Links α) (head : α) : Links α where
  next := Function.update m.next head head
  prev := Function.update m.prev head head

end Operations

section Path

variable {m m' : Links α} {a b : α} {xs ys : List α}

theorem Path.congr (h : Path m a xs b) (hnext : ∀ x ∈ a :: xs, m'.next x = m.next x)
    (hprev : ∀ x ∈ xs ++ [b], m'.prev x = m.prev x) : Path m' a xs b := by
  induction xs generalizing a with
  | nil =>
    have hb := hprev b (by simp)
    have ha := hnext a (by simp)
    exact ⟨ha.trans h.1, hb.trans h.2⟩
  | cons x xs ih =>
    have hx := hprev x (by simp)
    have ha := hnext a (by simp)
    refine ⟨ha.trans h.1, hx.trans h.2.1, ?_⟩
    apply ih h.2.2
    . intro y hy
      exact hnext y (List.mem_cons_of_mem a hy)
    . intro y hy
      exact hprev y (List.mem_cons_of_mem x hy)

theorem Path.next_mem (h : Path m a xs b) : m.next a ∈ xs ++ [b] := by
  cases xs with
  | nil =>
    rw [h.1]
    simp
  | cons x xs =>
    rw [h.1]
    simp

theorem Path.unique (h : Path m a xs b) (h' : Path m a ys b) (hx : b ∉ xs) (hy : b ∉ ys)
    : xs = ys := by
  induction xs generalizing a ys with
  | nil =>
    cases ys with
    | nil => rfl
    | cons y ys =>
      have hb : b = y := h.1.symm.trans h'.1
      simp [hb] at hy
  | cons x xs ih =>
    cases ys with
    | nil =>
      have hb : b = x := h'.1.symm.trans h.1
      simp [hb] at hx
    | cons y ys =>
      have hxy : x = y := h.1.symm.trans h'.1
      subst hxy
      have hx := List.not_mem_of_not_mem_cons hx
      have hy := List.not_mem_of_not_mem_cons hy
      rw [ih h.2.2 h'.2.2 hx hy]

end Path

namespace IsRing

variable {m m' : Links α} {head new poison x : α} {xs ys : List α}

theorem congr (h : IsRing m head xs) (hnext : ∀ x ∈ head :: xs, m'.next x = m.next x)
    (hprev : ∀ x ∈ head :: xs, m'.prev x = m.prev x) : IsRing m' head xs := by
  refine ⟨h.nodup, h.path.congr hnext ?_⟩
  intro x hx
  apply hprev
  rw [List.mem_append, List.mem_singleton] at hx
  rw [List.mem_cons]
  exact hx.symm

theorem next_mem (h : IsRing m head xs) : m.next head ∈ head :: xs := by
  have := h.path.next_mem
  rw [List.mem_append, List.mem_singleton] at this
  rw [List.mem_cons]
  exact this.symm

theorem unique (h : IsRing m head xs) (h' : IsRing m head ys) : xs = ys :=
  h.path.unique h'.path (List.nodup_cons.mp h.nodup).1 (List.nodup_cons.mp h'.nodup).1

theorem next_head_cons (h : IsRing m head (x :: xs)) : m.next head = x := h.path.1

theorem next_head_eq_head (h : IsRing m head xs) : m.next head = head ↔ xs = [] := by
  cases xs with
  | nil => exact ⟨fun _ => rfl, fun _ => h.path.1⟩
  | cons x xs =>
    rw [h.next_head_cons]
    have hne := (List.nodup_cons.mp h.nodup).1
    constructor
    . intro heq
      simp [heq] at hne
    . intro heq
      contradiction

variable [DecidableEq α]

theorem init (m : Links α) (head : α) : IsRing (m.init head) head [] :=
  ⟨List.nodup_singleton head, by simp [Path, Links.init]⟩

theorem add (h : IsRing m head xs) (hnew : new ∉ head :: xs)
    : IsRing (m.add new head) head (new :: xs) := by
  rcases List.nodup_cons.mp h.nodup with ⟨hhead, hxs⟩
  rw [List.mem_cons, not_or] at hnew
  have hne : head ≠ new := Ne.symm hnew.1
  refine ⟨?_, ?_⟩
  . rw [List.nodup_cons, List.nodup_cons, List.mem_cons, not_or]
    exact ⟨⟨hne, hhead⟩, hnew.2, hxs⟩
  . have hpath := h.path
    cases xs with
    | nil =>
      simp only [Path, Links.add, Links.insertBetween, hpath.1]
      simp [hne, hne.symm]
    | cons x xs =>
      have hxhead : x ≠ head := ne_of_mem_of_not_mem (List.mem_cons_self ..) hhead
      have hxnew : x ≠ new := ne_of_mem_of_not_mem (List.mem_cons_self ..) hnew.2
      have hxrest : x ∉ xs ++ [head] := by simp [(List.nodup_cons.mp hxs).1, hxhead]
      have hnewrest : new ∉ xs ++ [head] := by
        simp [List.not_mem_of_not_mem_cons hnew.2, hne.symm]
      simp only [Path, Links.add, Links.insertBetween, hpath.1]
      refine ⟨by simp, by simp, by simp [hne.symm], by simp [hxnew], ?_⟩
      apply hpath.2.2.congr
      . intro y hy
        have hyhead : y ≠ head := ne_of_mem_of_not_mem hy hhead
        have hynew : y ≠ new := ne_of_mem_of_not_mem hy hnew.2
        simp [hyhead, hynew]
      . intro y hy
        have hyx : y ≠ x := ne_of_mem_of_not_mem hy hxrest
        have hynew : y ≠ new := ne_of_mem_of_not_mem hy hnewrest
        simp [hyx, hynew]

theorem del (h : IsRing m head (x :: xs)) (poison : α) : IsRing (m.del poison x) head xs := by
  rcases List.nodup_cons.mp h.nodup with ⟨hhead, hxs⟩
  rw [List.mem_cons, not_or] at hhead
  rw [List.nodup_cons] at hxs
  rcases h.path with ⟨-, hprev, hpath⟩
  refine ⟨List.nodup_cons.mpr ⟨hhead.2, hxs.2⟩, ?_⟩
  cases xs with
  | nil =>
    simp only [Path] at hpath
    simp [Path, Links.del, Links.join, hprev, hpath.1, hhead.1]
  | cons y ys =>
    rcases hpath with ⟨hnext, -, hpath⟩
    have hyx : y ≠ x := ne_of_mem_of_not_mem (List.mem_cons_self ..) hxs.1
    have hyhead : y ≠ head := ne_of_mem_of_not_mem (List.mem_cons_self ..) hhead.2
    have hyrest : y ∉ ys ++ [head] := by simp [(List.nodup_cons.mp hxs.2).1, hyhead]
    have hxrest : x ∉ ys ++ [head] := by
      simp [List.not_mem_of_not_mem_cons hxs.1, Ne.symm hhead.1]
    simp only [Path, Links.del, Links.join, hprev, hnext]
    refine ⟨by simp [hhead.1], by simp [hyx], ?_⟩
    apply hpath.congr
    . intro z hz
      have hzhead : z ≠ head := ne_of_mem_of_not_mem hz hhead.2
      have hzx : z ≠ x := ne_of_mem_of_not_mem hz hxs.1
      simp [hzhead, hzx]
    . intro z hz
      have hzy : z ≠ y := ne_of_mem_of_not_mem hz hyrest
      have hzx : z ≠ x := ne_of_mem_of_not_mem hz hxrest
      simp [hzy, hzx]

theorem add_other {head' : α} {xs' : List α} (h : IsRing m head xs) (h' : IsRing m head' xs')
    (hdisjoint : List.Disjoint (head' :: xs') (head :: xs)) (hnew : new ∉ head :: xs)
    : IsRing (m.add new head') head xs := by
  apply h.congr
  . intro x hx
    have hxhead : x ≠ head' := ne_of_mem_of_not_mem hx (hdisjoint (List.mem_cons_self ..))
    have hxnew : x ≠ new := ne_of_mem_of_not_mem hx hnew
    simp [Links.add, Links.insertBetween, hxhead, hxnew]
  . intro x hx
    have hxnext : x ≠ m.next head' := ne_of_mem_of_not_mem hx (hdisjoint h'.next_mem)
    have hxnew : x ≠ new := ne_of_mem_of_not_mem hx hnew
    simp [Links.add, Links.insertBetween, hxnext, hxnew]

theorem del_other {head' : α} {xs' : List α} (h : IsRing m head xs)
    (h' : IsRing m head' (x :: xs')) (hdisjoint : List.Disjoint (head' :: x :: xs') (head :: xs))
    (poison : α) : IsRing (m.del poison x) head xs := by
  have hprev : m.prev x = head' := h'.path.2.1
  have hnext : m.next x ∈ head' :: x :: xs' := by
    have := h'.path.2.2.next_mem
    rw [List.mem_append, List.mem_singleton] at this
    simp only [List.mem_cons]
    tauto
  apply h.congr
  . intro y hy
    have hyhead : y ≠ head' := ne_of_mem_of_not_mem hy (hdisjoint (List.mem_cons_self ..))
    have hyx : y ≠ x := ne_of_mem_of_not_mem hy (hdisjoint (by simp))
    simp [Links.del, Links.join, hprev, hyhead, hyx]
  . intro y hy
    have hynext : y ≠ m.next x := ne_of_mem_of_not_mem hy (hdisjoint hnext)
    have hyx : y ≠ x := ne_of_mem_of_not_mem hy (hdisjoint (by simp))
    simp [Links.del, Links.join, hynext, hyx]

theorem init_other {head' : α} (h : IsRing m head xs) (hhead : head' ∉ head :: xs)
    : IsRing (m.init head') head xs := by
  apply h.congr
  all_goals
    intro x hx
    have hne : x ≠ head' := ne_of_mem_of_not_mem hx hhead
    simp [Links.init, hne]

end IsRing

namespace Unlinked

variable [DecidableEq α] {m : Links α} {a new head poison entry : α}

theorem add (h : Unlinked m a) (hnew : new ≠ a) (hhead : head ≠ a)
    : Unlinked (m.add new head) a ∧ (m.add new head).next a = m.next a
      ∧ (m.add new head).prev a = m.prev a := by
  have hnext : m.next head ≠ a := (h head hhead).1
  refine ⟨?_, ?_, ?_⟩
  . intro x hx
    simp only [Links.add, Links.insertBetween, Function.update_apply]
    constructor
    . split
      . exact hnew
      . split
        . exact hnext
        . exact (h x hx).1
    . split
      . exact hhead
      . split
        . exact hnew
        . exact (h x hx).2
  . simp [Links.add, Links.insertBetween, hnew.symm, hhead.symm]
  . simp [Links.add, Links.insertBetween, hnew.symm, hnext.symm]

theorem del (h : Unlinked m a) (hpoison : poison ≠ a) (hentry : entry ≠ a)
    : Unlinked (m.del poison entry) a ∧ (m.del poison entry).next a = m.next a
      ∧ (m.del poison entry).prev a = m.prev a := by
  have hnext : m.next entry ≠ a := (h entry hentry).1
  have hprev : m.prev entry ≠ a := (h entry hentry).2
  refine ⟨?_, ?_, ?_⟩
  . intro x hx
    simp only [Links.del, Links.join, Function.update_apply]
    constructor
    . split
      . exact hpoison
      . split
        . exact hnext
        . exact (h x hx).1
    . split
      . exact hpoison
      . split
        . exact hprev
        . exact (h x hx).2
  . simp [Links.del, Links.join, hentry.symm, hprev.symm]
  . simp [Links.del, Links.join, hentry.symm, hnext.symm]

theorem init (h : Unlinked m a) (head : α) : Unlinked (m.init head) a := by
  intro x hx
  simp only [Links.init, Function.update_apply]
  constructor
  . split
    . next heq => exact heq ▸ hx
    . exact (h x hx).1
  . split
    . next heq => exact heq ▸ hx
    . exact (h x hx).2

end Unlinked

namespace Rings

variable {κ : Type} {m : Links α} {keys : Set κ} {head : κ → α} {chains : κ → List α} {k : κ}
  {new x : α} {xs : List α}

theorem empty (m : Links α) (head : κ → α) (chains : κ → List α) : Rings m ∅ head chains :=
  ⟨fun _ h => absurd h (Set.notMem_empty _), fun _ h => absurd h (Set.notMem_empty _)⟩

variable [DecidableEq κ]

theorem disjoint_update (h : Rings m keys head chains)
    (hone : ∀ k' ∈ keys, k' ≠ k → List.Disjoint (head k :: xs) (head k' :: chains k'))
    : ∀ k1 ∈ keys, ∀ k2 ∈ keys, k1 ≠ k2 → List.Disjoint
        (head k1 :: Function.update chains k xs k1) (head k2 :: Function.update chains k xs k2) := by
  intro k1 hk1 k2 hk2 hne
  by_cases h1 : k1 = k
  . subst h1
    rw [Function.update_self, Function.update_of_ne (Ne.symm hne)]
    exact hone k2 hk2 (Ne.symm hne)
  . by_cases h2 : k2 = k
    . subst h2
      rw [Function.update_self, Function.update_of_ne h1]
      exact (hone k1 hk1 h1).symm
    . rw [Function.update_of_ne h1, Function.update_of_ne h2]
      exact h.disjoint k1 hk1 k2 hk2 hne

variable [DecidableEq α]

theorem init (h : Rings m keys head chains) (hk : k ∉ keys)
    (hfresh : ∀ k' ∈ keys, head k ∉ head k' :: chains k')
    : Rings (m.init (head k)) (insert k keys) head (Function.update chains k []) := by
  have hold {k' : κ} (hk' : k' ∈ keys) : Function.update chains k [] k' = chains k' :=
    Function.update_of_ne (ne_of_mem_of_not_mem hk' hk) _ _
  constructor
  . intro k' hk'
    rcases hk' with rfl | hk'
    . rw [Function.update_self]
      exact IsRing.init m _
    . rw [hold hk']
      exact (h.ring k' hk').init_other (hfresh k' hk')
  . intro k1 hk1 k2 hk2 hne
    rcases hk1 with rfl | hk1
    . rcases hk2 with rfl | hk2
      . exact absurd rfl hne
      . rw [Function.update_self, hold hk2]
        simpa using hfresh k2 hk2
    . rcases hk2 with rfl | hk2
      . rw [Function.update_self, hold hk1]
        apply List.Disjoint.symm
        simpa using hfresh k1 hk1
      . rw [hold hk1, hold hk2]
        exact h.disjoint k1 hk1 k2 hk2 hne

theorem add (h : Rings m keys head chains) (hk : k ∈ keys)
    (hfresh : ∀ k' ∈ keys, new ∉ head k' :: chains k')
    : Rings (m.add new (head k)) keys head (Function.update chains k (new :: chains k)) := by
  constructor
  . intro k' hk'
    by_cases hne : k' = k
    . subst hne
      rw [Function.update_self]
      exact (h.ring k' hk').add (hfresh k' hk')
    . rw [Function.update_of_ne hne]
      exact (h.ring k' hk').add_other (h.ring k hk) (h.disjoint k hk k' hk' (Ne.symm hne))
        (hfresh k' hk')
  . apply h.disjoint_update
    intro k' hk' hne
    have hdisjoint := h.disjoint k hk k' hk' (Ne.symm hne)
    intro y hy
    simp only [List.mem_cons] at hy
    rcases hy with rfl | rfl | hy
    . exact hdisjoint (List.mem_cons_self ..)
    . exact hfresh k' hk'
    . exact hdisjoint (List.mem_cons_of_mem _ hy)

theorem del (h : Rings m keys head chains) (hk : k ∈ keys) (hchain : chains k = x :: xs)
    (poison : α) : Rings (m.del poison x) keys head (Function.update chains k xs) := by
  have hring := h.ring k hk
  rw [hchain] at hring
  constructor
  . intro k' hk'
    by_cases hne : k' = k
    . subst hne
      rw [Function.update_self]
      exact hring.del poison
    . have hdisjoint := h.disjoint k hk k' hk' (Ne.symm hne)
      rw [hchain] at hdisjoint
      rw [Function.update_of_ne hne]
      exact (h.ring k' hk').del_other hring hdisjoint poison
  . apply h.disjoint_update
    intro k' hk' hne
    have hdisjoint := h.disjoint k hk k' hk' (Ne.symm hne)
    rw [hchain] at hdisjoint
    intro y hy
    rcases List.mem_cons.mp hy with rfl | hy
    . exact hdisjoint (List.mem_cons_self ..)
    . exact hdisjoint (List.mem_cons_of_mem _ (List.mem_cons_of_mem _ hy))

end Rings

end LinkedRing
