import SecFw.Box.Median

/-!
This module contains binary trees that cut the space of a list of labelled boxes at median cuts
until all boxes of a leaf are the same. The leaf around a point that lies in some box lists exactly
the labels of the boxes around this point.
-/

namespace Box

/--
A tree of cuts. A point goes left of a cut when its value in the dimension of the cut lies below.
-/
inductive CutTree {ι : Type} (α : ι → Type) (L : Type) where
  | leaf (labels : List L)
  | node (d : ι) (cut : α d) (left right : CutTree α L)

namespace CutTree

variable {ι : Type} {α : ι → Type} [∀ d, LinearOrder (α d)] {L : Type}

def find (x : ∀ d, α d) : CutTree α L → List L
  | .leaf labels => labels
  | .node d cut left right => if x d < cut then left.find x else right.find x

def height : CutTree α L → Nat
  | .leaf _ => 0
  | .node _ _ left right => max left.height right.height + 1

def leaves : CutTree α L → List (List L)
  | .leaf labels => [labels]
  | .node _ _ left right => left.leaves ++ right.leaves

variable [DecidableEq ι]

/--
The tree cuts the boxes at medians down to leaves on which all boxes agree.
-/
inductive Built : List (L × Box α) → CutTree α L → Prop where
  | leaf {rs : List (L × Box α)} (hne : rs ≠ []) (hsame : ∀ r ∈ rs, ∀ s ∈ rs, r.2 = s.2)
    : Built rs (.leaf (rs.map Prod.fst))
  | node {rs : List (L × Box α)} {d : ι} {left right : CutTree α L} (m : MedianCut rs d)
      (hleft : Built m.left left) (hright : Built m.right right)
    : Built rs (.node d m.cut left right)

namespace Built

variable {rs : List (L × Box α)} {t : CutTree α L}

theorem find_ne_nil (h : Built rs t) (x : ∀ d, α d) : t.find x ≠ [] := by
  induction h with
  | leaf hne hsame => simpa [find] using hne
  | node m hleft hright lih rih =>
    simp only [find]
    split
    . exact lih
    . exact rih

section Find

variable [Fintype ι]

omit [DecidableEq ι] in
theorem labels_eq_of_same (x : ∀ d, α d) (hsame : ∀ r ∈ rs, ∀ s ∈ rs, r.2 = s.2)
    (hx : ∃ r ∈ rs, x ∈ r.2) : labels x rs = rs.map Prod.fst := by
  rcases hx with ⟨r, hr, hx⟩
  have hall : ∀ s ∈ rs, decide (x ∈ s.2) = true := by
    intro s hs
    rw [decide_eq_true_iff, hsame s hs r hr]
    exact hx
  rw [labels, List.filter_eq_self.mpr hall]

theorem find_eq_labels (h : Built rs t) (x : ∀ d, α d) (hx : ∃ r ∈ rs, x ∈ r.2)
    : t.find x = labels x rs := by
  induction h with
  | leaf hne hsame => exact (labels_eq_of_same x hsame hx).symm
  | @node rs d left right m hleft hright lih rih =>
    have hbox := hx
    rcases hbox with ⟨r, hr, hxr⟩
    simp only [find]
    split
    . next hlt =>
      have hlo := (m.first_le _ (mem_starts.mpr ⟨r, hr, rfl⟩)).trans (hxr d).1
      have hhi := m.covBy.le_of_lt hlt
      rw [lih (exists_mem_restrict hlo hhi hx)]
      exact labels_restrict x hlo hhi rs
    . next hge =>
      have hlo := not_lt.mp hge
      have hhi := (hxr d).2.trans (m.le_last _ (mem_ends.mpr ⟨r, hr, rfl⟩))
      rw [rih (exists_mem_restrict hlo hhi hx)]
      exact labels_restrict x hlo hhi rs

theorem exists_labels_eq (h : Built rs t) (hrs : ∀ r ∈ rs, r.2.Proper)
    : ∀ leaf ∈ t.leaves, ∃ x, (∃ r ∈ rs, x ∈ r.2) ∧ leaf = labels x rs := by
  have up {rs : List (L × Box α)} {d : ι} {l u : α d} {leaf : List L}
      (h : ∃ x, (∃ r ∈ restrict d l u rs, x ∈ r.2) ∧ leaf = labels x (restrict d l u rs))
      : ∃ x, (∃ r ∈ rs, x ∈ r.2) ∧ leaf = labels x rs := by
    rcases h with ⟨x, ⟨r, hr, hx⟩, hleaf⟩
    rcases mem_restrict.mp hr with ⟨s, hs, -, rfl⟩
    have hd := hx d
    simp only [clip_lo_self, clip_hi_self] at hd
    have hlo : l ≤ x d := (le_max_right _ _).trans hd.1
    have hhi : x d ≤ u := hd.2.trans (min_le_right _ _)
    rw [labels_restrict x hlo hhi] at hleaf
    exact ⟨x, ⟨s, hs, (mem_clip_iff hlo hhi).mp hx⟩, hleaf⟩
  induction h with
  | @leaf rs hne hsame =>
    rcases List.exists_mem_of_ne_nil rs hne with ⟨r, hr⟩
    have hx : ∃ s ∈ rs, r.2.lo ∈ s.2 := ⟨r, hr, fun d => ⟨le_rfl, hrs r hr d⟩⟩
    intro leaf hleaf
    rw [leaves, List.mem_singleton] at hleaf
    exact ⟨r.2.lo, hx, hleaf.trans (labels_eq_of_same r.2.lo hsame hx).symm⟩
  | node m hleft hright lih rih =>
    intro leaf hleaf
    rw [leaves, List.mem_append] at hleaf
    cases hleaf with
    | inl hleaf => exact up (lih (m.left_proper hrs) leaf hleaf)
    | inr hleaf => exact up (rih (m.right_proper hrs) leaf hleaf)

theorem height_le_potential (h : Built rs t) : t.height ≤ potential rs := by
  induction h with
  | leaf hne hsame => exact Nat.zero_le _
  | node m hleft hright lih rih =>
    have := m.potential_left_lt
    have := m.potential_right_lt
    simp only [height]
    omega

end Find

end Built

end CutTree

end Box
