import Mathlib

/-!
This module contains lists of segments of a line. In an ordered list every segment ends before the
next one starts, so that there is one place for a further segment and one order of a given set.
-/

class Segment (α : Type) where
  start : α → Int
  stop : α → Int

namespace Segment

variable {α : Type} [Segment α] {l before after : List α} {m x y : α}

def Proper (x : α) : Prop := start x < stop x

def Before (x y : α) : Prop := stop x ≤ start y

theorem Before.trans (hxm : Before x m) (hm : Proper m) (hmy : Before m y) : Before x y := by
  unfold Before Proper at *
  omega

theorem Before.asymm (hx : Proper x) (hm : Proper m) (h : Before x m) : ¬ Before m x := by
  unfold Before Proper at *
  omega

theorem start_lt_of_before (hx : Proper x) (h : Before x y) : start x < start y := by
  unfold Before Proper at *
  omega

/-- The segments of the list are in order and do not overlap. -/
structure Ordered (l : List α) : Prop where
  pairwise : l.Pairwise Before
  proper : ∀ x ∈ l, Proper x

namespace Ordered

theorem nil : Ordered ([] : List α) := ⟨List.Pairwise.nil, by simp⟩

theorem cons_iff
    : Ordered (x :: l) ↔ Proper x ∧ (∀ y ∈ l, Before x y) ∧ Ordered l := by
  constructor
  . intro h
    have hpairwise := List.pairwise_cons.mp h.pairwise
    have hproper := List.forall_mem_cons.mp h.proper
    exact ⟨hproper.1, hpairwise.1, hpairwise.2, hproper.2⟩
  . intro h
    exact ⟨List.pairwise_cons.mpr ⟨h.2.1, h.2.2.pairwise⟩,
      List.forall_mem_cons.mpr ⟨h.1, h.2.2.proper⟩⟩

theorem left (h : Ordered (before ++ after)) : Ordered before := by
  constructor
  . exact (List.pairwise_append.mp h.pairwise).1
  . intro x hx
    exact h.proper x (List.mem_append_left _ hx)

theorem right (h : Ordered (before ++ after)) : Ordered after := by
  constructor
  . exact (List.pairwise_append.mp h.pairwise).2.1
  . intro x hx
    exact h.proper x (List.mem_append_right _ hx)

theorem insert (h : Ordered (before ++ after)) (hm : Proper m) (hbefore : ∀ x ∈ before, Before x m)
    (hafter : ∀ x ∈ after, Before m x) : Ordered (before ++ m :: after) := by
  have hpairwise := List.pairwise_append.mp h.pairwise
  constructor
  . rw [List.pairwise_append, List.pairwise_cons]
    refine ⟨hpairwise.1, ⟨hafter, hpairwise.2.1⟩, ?_⟩
    intro x hx y hy
    cases List.mem_cons.mp hy with
    | inl heq => exact heq ▸ hbefore x hx
    | inr hy => exact hpairwise.2.2 x hx y hy
  . intro x hx
    rw [List.mem_append, List.mem_cons] at hx
    rcases hx with hx | rfl | hx
    . exact h.proper x (List.mem_append_left _ hx)
    . exact hm
    . exact h.proper x (List.mem_append_right _ hx)

theorem forall_before_of_getLast? (h : Ordered l) (hlast : ∀ x ∈ l.getLast?, Before x m)
    : ∀ x ∈ l, Before x m := by
  induction l using List.reverseRecOn with
  | nil => simp
  | append_singleton l y _ =>
    have hy : Before y m := hlast y (by simp)
    intro x hx
    rw [List.mem_append, List.mem_singleton] at hx
    rcases hx with hx | rfl
    . have hxy := (List.pairwise_append.mp h.pairwise).2.2 x hx y (List.mem_singleton_self y)
      exact hxy.trans (h.proper y (by simp)) hy
    . exact hy

theorem forall_after_of_head? (h : Ordered l) (hhead : ∀ x ∈ l.head?, Before m x)
    : ∀ x ∈ l, Before m x := by
  cases l with
  | nil => simp
  | cons y l =>
    have hy : Before m y := hhead y (by simp)
    have hl := cons_iff.mp h
    intro x hx
    cases List.mem_cons.mp hx with
    | inl heq => exact heq ▸ hy
    | inr hx => exact hy.trans hl.1 (hl.2.1 x hx)

theorem exists_place (h : Ordered l) (hapart : ∀ x ∈ l, Before x m ∨ Before m x)
    : ∃ before after, l = before ++ after ∧ (∀ x ∈ before, Before x m)
        ∧ ∀ x ∈ after, Before m x := by
  induction l with
  | nil => exact ⟨[], [], rfl, by simp, by simp⟩
  | cons y l ih =>
    cases hapart y (by simp) with
    | inl hy =>
      rcases ih (cons_iff.mp h).2.2 (fun x hx => hapart x (by simp [hx])) with
        ⟨before, after, heq, hbefore, hafter⟩
      exact ⟨y :: before, after, by simp [heq], List.forall_mem_cons.mpr ⟨hy, hbefore⟩, hafter⟩
    | inr hy =>
      refine ⟨[], y :: l, rfl, by simp, ?_⟩
      apply h.forall_after_of_head?
      intro x hx
      rw [List.head?_cons, Option.mem_some] at hx
      exact hx ▸ hy

theorem place_unique {before' after' : List α} (hm : Proper m) (h : Ordered (before ++ after))
    (heq : before ++ after = before' ++ after') (hbefore : ∀ x ∈ before, Before x m)
    (hafter : ∀ x ∈ after, Before m x) (hbefore' : ∀ x ∈ before', Before x m)
    (hafter' : ∀ x ∈ after', Before m x) : before = before' ∧ after = after' := by
  classical
  have hfilter {b a : List α} (h : Ordered (b ++ a)) (hb : ∀ x ∈ b, Before x m)
      (ha : ∀ x ∈ a, Before m x) : b = (b ++ a).filter fun x => Before x m := by
    have hkeep : b.filter (fun x => Before x m) = b := by
      rw [List.filter_eq_self]
      intro x hx
      exact decide_eq_true (hb x hx)
    have hdrop : a.filter (fun x => Before x m) = [] := by
      rw [List.filter_eq_nil_iff]
      intro x hx
      rw [decide_eq_true_iff]
      exact (ha x hx).asymm hm (h.right.proper x hx)
    rw [List.filter_append, hkeep, hdrop, List.append_nil]
  have hsame : before = before' := by
    rw [hfilter h hbefore hafter, hfilter (heq ▸ h) hbefore' hafter', heq]
  refine ⟨hsame, ?_⟩
  rw [hsame] at heq
  exact List.append_cancel_left heq

theorem eq_of_perm {l' : List α} (h : Ordered l) (h' : Ordered l') (hperm : l.Perm l')
    : l = l' := by
  apply List.Perm.eq_of_pairwise ?_ h.pairwise h'.pairwise hperm
  intro x y hx hy hxy hyx
  exact absurd hyx (hxy.asymm (h.proper x hx) (h'.proper y hy))

end Ordered

end Segment
