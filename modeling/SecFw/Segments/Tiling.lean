import SecFw.Segments.Basic

/-!
This module contains tilings: lists of segments that cover a range of the line without a gap and
without an overlap. For an ordered list it is enough to add up the lengths.
-/

namespace Segment

variable {α : Type} [Segment α] {l : List α} {x : α} {lo mid hi : Int}

def length (x : α) : Int := stop x - start x

/-- Every segment starts where the one in front of it ends, from `lo` up to `hi`. -/
def Tiles : Int → List α → Int → Prop
  | lo, [], hi => lo = hi
  | lo, x :: l, hi => start x = lo ∧ Tiles (stop x) l hi

def Within (lo : Int) (l : List α) (hi : Int) : Prop := ∀ x ∈ l, lo ≤ start x ∧ stop x ≤ hi

theorem Within.mono {lo' hi' : Int} (h : Within lo l hi) (hlo : lo' ≤ lo) (hhi : hi ≤ hi')
    : Within lo' l hi' := by
  intro x hx
  exact ⟨hlo.trans (h x hx).1, (h x hx).2.trans hhi⟩

namespace Tiles

theorem sum_length (h : Tiles lo l hi) : (l.map length).sum = hi - lo := by
  induction l generalizing lo with
  | nil =>
    have hend : lo = hi := h
    simp [hend]
  | cons x l ih =>
    have hx := h.1
    have hl := ih h.2
    rw [List.map_cons, List.sum_cons, hl, length]
    omega

theorem concat (h : Tiles lo l hi) (hx : start x = hi) : Tiles lo (l ++ [x]) (stop x) := by
  induction l generalizing lo with
  | nil => exact ⟨hx.trans h.symm, rfl⟩
  | cons y l ih => exact ⟨h.1, ih h.2⟩

theorem within (h : Tiles lo l hi) (hforward : ∀ x ∈ l, start x ≤ stop x)
    : lo ≤ hi ∧ Within lo l hi := by
  induction l generalizing lo with
  | nil => exact ⟨le_of_eq h, by simp [Within]⟩
  | cons x l ih =>
    rcases List.forall_mem_cons.mp hforward with ⟨hx, hl⟩
    rcases ih h.2 hl with ⟨hle, hwithin⟩
    have hstart := h.1
    refine ⟨by omega, ?_⟩
    intro y hy
    cases List.mem_cons.mp hy with
    | inl heq =>
      rw [heq]
      exact ⟨hstart.ge, hle⟩
    | inr hy =>
      have := hwithin y hy
      exact ⟨by omega, this.2⟩

theorem pairwise (h : Tiles lo l hi) (hforward : ∀ x ∈ l, start x ≤ stop x)
    : l.Pairwise Before := by
  induction l generalizing lo with
  | nil => exact List.Pairwise.nil
  | cons x l ih =>
    have hl := (List.forall_mem_cons.mp hforward).2
    apply List.pairwise_cons.mpr
    exact ⟨fun y hy => ((within h.2 hl).2 y hy).1, ih h.2 hl⟩

end Tiles

namespace Ordered

theorem within_of_cons {x : α} (h : Ordered (x :: l)) (hin : Within lo (x :: l) hi)
    : Within (stop x) l hi := by
  intro y hy
  exact ⟨(cons_iff.mp h).2.1 y hy, (hin y (List.mem_cons_of_mem x hy)).2⟩

theorem sum_length_le (h : Ordered l) (hin : Within lo l hi) (hle : lo ≤ hi)
    : (l.map length).sum ≤ hi - lo := by
  induction l generalizing lo with
  | nil => simpa using hle
  | cons x l ih =>
    have hl := cons_iff.mp h
    have hx := hin x (by simp)
    have hrest := within_of_cons h hin
    have := ih hl.2.2 hrest hx.2
    rw [List.map_cons, List.sum_cons, length]
    omega

theorem tiles (h : Ordered l) (hin : Within lo l hi) (hle : lo ≤ hi)
    (hsum : (l.map length).sum = hi - lo) : Tiles lo l hi := by
  induction l generalizing lo with
  | nil =>
    rw [List.map_nil, List.sum_nil] at hsum
    change lo = hi
    omega
  | cons x l ih =>
    have hl := cons_iff.mp h
    have hx := hin x (by simp)
    have hrest := within_of_cons h hin
    have hbound := hl.2.2.sum_length_le hrest hx.2
    rw [List.map_cons, List.sum_cons, length] at hsum
    exact ⟨by omega, ih hl.2.2 hrest hx.2 (by omega)⟩

end Ordered

end Segment
