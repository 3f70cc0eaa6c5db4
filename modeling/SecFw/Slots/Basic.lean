import Mathlib

/-!
This module contains tables with a fixed set of slots, each of which is free or holds a value. A
table without repetitions is a set of bounded size whose elements have a place.
-/

abbrev Slots (ι α : Type) : Type := ι → Option α

namespace Slots

variable {ι α : Type} {s : Slots ι α} {i : ι} {a : α}

def contents (s : Slots ι α) : Set α := { a | ∃ i, s i = some a }

def Unique (s : Slots ι α) : Prop := ∀ i j a, s i = some a → s j = some a → i = j

def Full (s : Slots ι α) : Prop := ∀ i, s i ≠ none

def used (s : Slots ι α) : Set ι := { i | s i ≠ none }

theorem mem_contents : a ∈ s.contents ↔ ∃ i, s i = some a := Iff.rfl

theorem unique_empty : Unique (fun _ => none : Slots ι α) := by
  intro i j a h
  simp at h

theorem contents_empty : contents (fun _ => none : Slots ι α) = ∅ := by
  simp [contents]

variable [DecidableEq ι]

def insert (s : Slots ι α) (i : ι) (a : α) : Slots ι α := Function.update s i (some a)

def remove (s : Slots ι α) (i : ι) : Slots ι α := Function.update s i none

@[simp]
theorem insert_self : s.insert i a i = some a := by simp [insert]

@[simp]
theorem remove_self : s.remove i i = none := by simp [remove]

@[simp]
theorem insert_of_ne {j : ι} (h : j ≠ i) : s.insert i a j = s j := by simp [insert, h]

@[simp]
theorem remove_of_ne {j : ι} (h : j ≠ i) : s.remove i j = s j := by simp [remove, h]

theorem remove_insert (hfree : s i = none) : (s.insert i a).remove i = s := by
  rw [insert, remove, Function.update_idem, ← hfree, Function.update_eq_self]

theorem insert_remove (hused : s i = some a) : (s.remove i).insert i a = s := by
  rw [insert, remove, Function.update_idem, ← hused, Function.update_eq_self]

theorem Unique.insert (h : s.Unique) (habsent : a ∉ s.contents) : (s.insert i a).Unique := by
  intro j k b hj hk
  by_cases hji : j = i
  . by_cases hki : k = i
    . rw [hji, hki]
    . rw [hji, insert_self, Option.some.injEq] at hj
      rw [insert_of_ne hki, ← hj] at hk
      exact absurd ⟨k, hk⟩ habsent
  . rw [insert_of_ne hji] at hj
    by_cases hki : k = i
    . rw [hki, insert_self, Option.some.injEq] at hk
      rw [← hk] at hj
      exact absurd ⟨j, hj⟩ habsent
    . rw [insert_of_ne hki] at hk
      exact h j k b hj hk

theorem Unique.remove (h : s.Unique) : (s.remove i).Unique := by
  intro j k b hj hk
  by_cases hji : j = i
  . simp [hji] at hj
  . by_cases hki : k = i
    . simp [hki] at hk
    . rw [remove_of_ne hji] at hj
      rw [remove_of_ne hki] at hk
      exact h j k b hj hk

theorem contents_insert (hfree : s i = none) : (s.insert i a).contents = Set.insert a s.contents := by
  ext b
  constructor
  . rintro ⟨j, hj⟩
    by_cases hji : j = i
    . rw [hji, insert_self, Option.some.injEq] at hj
      exact Or.inl hj.symm
    . rw [insert_of_ne hji] at hj
      exact Or.inr ⟨j, hj⟩
  . rintro (rfl | ⟨j, hj⟩)
    . exact ⟨i, insert_self⟩
    . refine ⟨j, ?_⟩
      rw [insert_of_ne]
      . exact hj
      . rintro rfl
        simp [hfree] at hj

theorem contents_remove (h : s.Unique) (hused : s i = some a)
    : (s.remove i).contents = s.contents \ {a} := by
  ext b
  constructor
  . rintro ⟨j, hj⟩
    by_cases hji : j = i
    . simp [hji] at hj
    . rw [remove_of_ne hji] at hj
      refine ⟨⟨j, hj⟩, ?_⟩
      rintro rfl
      exact hji (h j i b hj hused)
  . rintro ⟨⟨j, hj⟩, hne⟩
    refine ⟨j, ?_⟩
    rw [remove_of_ne]
    . exact hj
    . rintro rfl
      rw [hused, Option.some.injEq] at hj
      exact hne hj.symm

theorem used_insert : (s.insert i a).used = Set.insert i s.used := by
  ext j
  by_cases hji : j = i
  . subst hji
    simp [used, Set.insert]
  . simp [used, Set.insert, hji]

theorem used_remove : (s.remove i).used = s.used \ {i} := by
  ext j
  by_cases hji : j = i
  . subst hji
    simp [used]
  . simp [used, hji]

section Count

variable [Fintype ι]

theorem card_filter_update {p : Option α → Prop} [DecidablePred p] {v : Option α} (hold : ¬ p (s i))
    (hnew : p v)
    : (Finset.univ.filter fun j => p (Function.update s i v j)).card
        = (Finset.univ.filter fun j => p (s j)).card + 1 := by
  have hinsert : (Finset.univ.filter fun j => p (Function.update s i v j))
      = Insert.insert i (Finset.univ.filter fun j => p (s j)) := by
    ext j
    by_cases hji : j = i
    . simp [hji, hnew]
    . simp [hji]
  rw [hinsert, Finset.card_insert_of_notMem]
  simp [hold]

def numFree (s : Slots ι α) : Nat := (Finset.univ.filter fun i => (s i).isNone).card

omit [DecidableEq ι] in
theorem numFree_empty : numFree (fun _ => none : Slots ι α) = Fintype.card ι := by
  simp [numFree]

omit [DecidableEq ι] in
theorem numFree_eq_zero : s.numFree = 0 ↔ s.Full := by
  simp [numFree, Full, Finset.filter_eq_empty_iff]

omit [DecidableEq ι] in
theorem numFree_eq_card : s.numFree = Fintype.card ι ↔ ∀ i, s i = none := by
  rw [numFree, ← Finset.card_univ, Finset.card_filter_eq_iff]
  simp

theorem numFree_remove (hused : s i = some a) : (s.remove i).numFree = s.numFree + 1 :=
  card_filter_update (p := fun v => v.isNone) (by simp [hused]) rfl

theorem numFree_insert (hfree : s i = none) : (s.insert i a).numFree + 1 = s.numFree := by
  have hback := numFree_remove (s := s.insert i a) insert_self
  rw [remove_insert hfree] at hback
  exact hback.symm

variable [DecidableEq α]

def numOf (s : Slots ι α) (a : α) : Nat := (Finset.univ.filter fun i => s i = some a).card

omit [DecidableEq ι] in
theorem numOf_empty : numOf (fun _ => none : Slots ι α) a = 0 := by
  simp [numOf]

theorem numOf_insert (hfree : s i = none) : (s.insert i a).numOf a = s.numOf a + 1 :=
  card_filter_update (p := fun v => v = some a) (by simp [hfree]) rfl

theorem numOf_insert_of_ne {b : α} (hfree : s i = none) (hne : a ≠ b)
    : (s.insert i a).numOf b = s.numOf b := by
  rw [numOf, numOf]
  congr 1
  ext j
  by_cases hji : j = i
  . simp [hji, hfree, hne]
  . simp [hji]

theorem numOf_remove (hused : s i = some a) : (s.remove i).numOf a + 1 = s.numOf a := by
  have hback := numOf_insert (s := s.remove i) (a := a) remove_self
  rw [insert_remove hused] at hback
  exact hback.symm

end Count

section Greatest

variable {β : Type} [LinearOrder β] {p : ι → Prop} [DecidablePred p] {f : ι → β}

omit [DecidableEq ι] in
theorem isGreatest_foldl (l : List ι) (b : β)
    : IsGreatest (Set.insert b { c | ∃ i ∈ l, p i ∧ f i = c })
        (l.foldl (fun m i => if p i ∧ m < f i then f i else m) b) := by
  induction l generalizing b with
  | nil => simp [Set.insert]
  | cons i l ih =>
    have hrest := ih (if p i ∧ b < f i then f i else b)
    rw [List.foldl_cons]
    constructor
    . rcases hrest.1 with heq | ⟨j, hj, hp, hfj⟩
      . rw [heq]
        split
        . next hi => exact Or.inr ⟨i, List.mem_cons_self .., hi.1, rfl⟩
        . exact Or.inl rfl
      . exact Or.inr ⟨j, List.mem_cons_of_mem _ hj, hp, hfj⟩
    . have hstart := hrest.2 (Or.inl rfl)
      rintro c (rfl | ⟨j, hj, hp, rfl⟩)
      . apply le_trans _ hstart
        split
        . next hi => exact le_of_lt hi.2
        . exact le_refl _
      . rcases List.mem_cons.mp hj with rfl | hj
        . apply le_trans _ hstart
          split
          . exact le_refl _
          . next hi =>
            rw [not_and, not_lt] at hi
            exact hi hp
        . exact hrest.2 (Or.inr ⟨j, hj, hp, rfl⟩)

end Greatest

end Slots
