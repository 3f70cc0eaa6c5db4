import Mathlib

/-!
This module contains ring buffers: an array whose slots are used in turn, with the slot of the
oldest entry and the slot of the next one. A slot is always left free, so that the two are the same
for the empty ring only.
-/

namespace RingBuffer

variable {α : Type} {n : Nat} [NeZero n]

/-- The entries are numbered through, the oldest one is number `first`. -/
structure Numbered (slot : Fin n → α) (consumer producer : Fin n) (l : List α) (first : Nat)
    : Prop where
  consumer : consumer = Fin.ofNat n first
  producer : producer = Fin.ofNat n (first + l.length)
  room : l.length < n
  slot : ∀ i a, l[i]? = some a → slot (Fin.ofNat n (first + i)) = a

def Holds (slot : Fin n → α) (consumer producer : Fin n) (l : List α) : Prop :=
  ∃ first, Numbered slot consumer producer l first

def contents (slot : Fin n → α) (consumer producer : Fin n) : List α :=
  (List.range (producer - consumer).val).map fun i => slot (consumer + Fin.ofNat n i)

section Lemmas

variable {slot : Fin n → α} {consumer producer : Fin n} {l : List α} {a : α}

theorem ofNat_add_one (k : Nat) : (Fin.ofNat n k) + 1 = Fin.ofNat n (k + 1) := by
  apply Fin.ext
  simp [Fin.val_add]

theorem ofNat_add_one_sub_one (k : Nat) : Fin.ofNat n (k + 1) - 1 = Fin.ofNat n k := by
  rw [← ofNat_add_one, add_sub_cancel_right]

theorem ofNat_ne {j k : Nat} (hjk : j < k) (hkj : k < j + n) : Fin.ofNat n j ≠ Fin.ofNat n k := by
  intro h
  have hmod : j % n = k % n := congrArg Fin.val h
  have hdvd : n ∣ k - j := (Nat.modEq_iff_dvd' hjk.le).mp hmod
  have := Nat.le_of_dvd (by omega) hdvd
  omega

theorem Holds.room (h : Holds slot consumer producer l) : l.length < n := by
  rcases h with ⟨first, h⟩
  exact h.room

theorem Holds.eq_iff (h : Holds slot consumer producer l) : consumer = producer ↔ l = [] := by
  rcases h with ⟨first, h⟩
  have hroom := h.room
  rw [h.consumer, h.producer]
  constructor
  . intro heq
    by_contra hne
    have hpos := List.length_pos_of_ne_nil hne
    exact ofNat_ne (by omega) (by omega) heq
  . intro hnil
    rw [hnil, List.length_nil, Nat.add_zero]

theorem Holds.push (h : Holds slot consumer producer l) (hroom : l.length + 1 < n) (a : α)
    : Holds (Function.update slot producer a) consumer (producer + 1) (l ++ [a]) := by
  rcases h with ⟨first, h⟩
  refine ⟨first, h.consumer, ?_, ?_, ?_⟩
  . rw [h.producer, ofNat_add_one, List.length_append, List.length_singleton, Nat.add_assoc]
  . rw [List.length_append, List.length_singleton]
    exact hroom
  . intro i b hi
    rw [h.producer]
    by_cases hlt : i < l.length
    . rw [List.getElem?_append_left hlt] at hi
      rw [Function.update_of_ne (ofNat_ne (by omega) (by omega))]
      exact h.slot i b hi
    . have hlast : i = l.length := by
        have := (List.getElem?_eq_some_iff.mp hi).1
        rw [List.length_append, List.length_singleton] at this
        omega
      subst hlast
      rw [List.getElem?_append_right (Nat.le_refl _), Nat.sub_self] at hi
      rw [Function.update_self]
      exact Option.some_inj.mp hi

theorem Holds.unpush (h : Holds slot consumer producer (l ++ [a]))
    : Holds slot consumer (producer - 1) l := by
  rcases h with ⟨first, h⟩
  have hroom := h.room
  rw [List.length_append, List.length_singleton] at hroom
  refine ⟨first, h.consumer, ?_, by omega, ?_⟩
  . rw [h.producer, List.length_append, List.length_singleton, ← Nat.add_assoc,
      ofNat_add_one_sub_one]
  . intro i b hi
    have hlt := (List.getElem?_eq_some_iff.mp hi).1
    apply h.slot
    rwa [List.getElem?_append_left hlt]

theorem Holds.pop (h : Holds slot consumer producer (a :: l))
    : slot consumer = a ∧ Holds slot (consumer + 1) producer l := by
  rcases h with ⟨first, h⟩
  have hroom := h.room
  rw [List.length_cons] at hroom
  constructor
  . rw [h.consumer]
    exact h.slot 0 a rfl
  . refine ⟨first + 1, ?_, ?_, by omega, ?_⟩
    . rw [h.consumer, ofNat_add_one]
    . rw [h.producer, List.length_cons, Nat.add_assoc, Nat.add_comm 1]
    . intro i b hi
      rw [Nat.add_assoc, Nat.add_comm 1]
      exact h.slot (i + 1) b hi

theorem ofNat_add (j k : Nat) : Fin.ofNat n j + Fin.ofNat n k = Fin.ofNat n (j + k) := by
  apply Fin.ext
  simp [Fin.val_add]

theorem Holds.contents_eq (h : Holds slot consumer producer l)
    : contents slot consumer producer = l := by
  rcases h with ⟨first, h⟩
  have hroom := h.room
  have hcount : (producer - consumer).val = l.length := by
    rw [h.consumer, h.producer, ← ofNat_add, add_sub_cancel_left]
    exact Nat.mod_eq_of_lt hroom
  apply List.ext_getElem?
  intro i
  simp only [contents, hcount, List.getElem?_map]
  by_cases hi : i < l.length
  . rw [List.getElem?_range hi, Option.map_some, List.getElem?_eq_getElem hi, h.consumer, ofNat_add,
      h.slot i l[i] (List.getElem?_eq_getElem hi)]
  . rw [List.getElem?_eq_none (by simpa using hi), List.getElem?_eq_none (by simpa using hi)]
    rfl

theorem ofNat_val (k : Fin n) : Fin.ofNat n k.val = k := by
  apply Fin.ext
  exact Nat.mod_eq_of_lt k.isLt

@[simp]
theorem length_contents (slot : Fin n → α) (consumer producer : Fin n)
    : (contents slot consumer producer).length = (producer - consumer).val := by
  simp [contents]

theorem holds_contents (slot : Fin n → α) (consumer producer : Fin n)
    : Holds slot consumer producer (contents slot consumer producer) := by
  refine ⟨consumer.val, ?_, ?_, ?_, ?_⟩
  . rw [ofNat_val]
  . rw [length_contents, ← ofNat_add, ofNat_val, ofNat_val, add_sub_cancel]
  . rw [length_contents]
    exact (producer - consumer).isLt
  . intro i a hi
    simp only [contents, List.getElem?_map, Option.map_eq_some_iff] at hi
    rcases hi with ⟨j, hj, rfl⟩
    have hij : i = j := by
      rw [List.getElem?_eq_some_iff] at hj
      rcases hj with ⟨_, hj⟩
      rwa [List.getElem_range] at hj
    rw [hij, ← ofNat_add, ofNat_val]

theorem contents_push (hroom : (contents slot consumer producer).length + 1 < n) (a : α)
    : contents (Function.update slot producer a) consumer (producer + 1)
        =
      contents slot consumer producer ++ [a] :=
  ((holds_contents slot consumer producer).push hroom a).contents_eq

theorem contents_unpush (h : contents slot consumer producer = l ++ [a])
    : contents slot consumer (producer - 1) = l := by
  have hholds := holds_contents slot consumer producer
  rw [h] at hholds
  exact hholds.unpush.contents_eq

theorem contents_eq_nil_iff : contents slot consumer producer = [] ↔ consumer = producer :=
  (holds_contents slot consumer producer).eq_iff.symm

theorem contents_pop (h : consumer ≠ producer)
    : contents slot consumer producer
        =
      slot consumer :: contents slot (consumer + 1) producer := by
  have hholds := holds_contents slot consumer producer
  cases hcontents : contents slot consumer producer with
  | nil => exact absurd (contents_eq_nil_iff.mp hcontents) h
  | cons a l =>
    rw [hcontents] at hholds
    rcases hholds.pop with ⟨ha, hrest⟩
    rw [ha, hrest.contents_eq]

end Lemmas

end RingBuffer
