import SecFw.Box.Basic

/-!
This module contains the median cut of a list of boxes along one dimension. The distinct range
starts and the distinct range ends of a dimension are its events. A cut in the middle of the
events leaves about half of them on either side, the trimming adds at most one.
-/

namespace Box

variable {ι : Type} {α : ι → Type} [∀ d, LinearOrder (α d)] {L : Type}

def starts (d : ι) (rs : List (L × Box α)) : Finset (α d) :=
  (rs.map fun r => r.2.lo d).toFinset

def ends (d : ι) (rs : List (L × Box α)) : Finset (α d) :=
  (rs.map fun r => r.2.hi d).toFinset

def events (d : ι) (rs : List (L × Box α)) : Nat :=
  (starts d rs).card + (ends d rs).card

theorem mem_starts {d : ι} {rs : List (L × Box α)} {a : α d}
    : a ∈ starts d rs ↔ ∃ r ∈ rs, r.2.lo d = a := by
  simp [starts]

theorem mem_ends {d : ι} {rs : List (L × Box α)} {a : α d}
    : a ∈ ends d rs ↔ ∃ r ∈ rs, r.2.hi d = a := by
  simp [ends]

theorem events_le_length (d : ι) (rs : List (L × Box α)) : events d rs ≤ 2 * rs.length := by
  have hs := List.toFinset_card_le (rs.map fun r => r.2.lo d)
  have he := List.toFinset_card_le (rs.map fun r => r.2.hi d)
  simp only [List.length_map] at hs he
  simp only [events, starts, ends]
  omega

theorem eq_of_events_le_two {rs : List (L × Box α)} (h : ∀ d, events d rs ≤ 2)
    : ∀ r ∈ rs, ∀ s ∈ rs, r.2 = s.2 := by
  intro r hr s hs
  have one (d : ι) : (starts d rs).card ≤ 1 ∧ (ends d rs).card ≤ 1 := by
    have hspos : 0 < (starts d rs).card := Finset.card_pos.mpr ⟨r.2.lo d, mem_starts.mpr ⟨r, hr, rfl⟩⟩
    have hepos : 0 < (ends d rs).card := Finset.card_pos.mpr ⟨r.2.hi d, mem_ends.mpr ⟨r, hr, rfl⟩⟩
    have := h d
    simp only [events] at this
    omega
  ext d
  . exact Finset.card_le_one.mp (one d).1 _ (mem_starts.mpr ⟨r, hr, rfl⟩) _
      (mem_starts.mpr ⟨s, hs, rfl⟩)
  . exact Finset.card_le_one.mp (one d).2 _ (mem_ends.mpr ⟨r, hr, rfl⟩) _
      (mem_ends.mpr ⟨s, hs, rfl⟩)

def passed (d : ι) (rs : List (L × Box α)) (c : α d) : Nat :=
  ((starts d rs).filter (· < c)).card + ((ends d rs).filter (· < c)).card

def remaining (d : ι) (rs : List (L × Box α)) (c : α d) : Nat :=
  ((starts d rs).filter (¬ · < c)).card + ((ends d rs).filter (¬ · < c)).card

theorem passed_add_remaining (d : ι) (rs : List (L × Box α)) (c : α d)
    : passed d rs c + remaining d rs c = events d rs := by
  have hs := Finset.card_filter_add_card_filter_not (s := starts d rs) (· < c)
  have he := Finset.card_filter_add_card_filter_not (s := ends d rs) (· < c)
  simp only [passed, remaining, events]
  omega

/--
A cut of dimension `d` between two neighbouring values `below` and `cut` at the middle event:
either the middle event is the start `cut`, or it is the end `below`.
-/
structure MedianCut (rs : List (L × Box α)) (d : ι) where
  first : α d
  below : α d
  cut : α d
  last : α d
  first_mem : first ∈ starts d rs
  last_mem : last ∈ ends d rs
  first_le : ∀ a ∈ starts d rs, first ≤ a
  le_last : ∀ a ∈ ends d rs, a ≤ last
  covBy : below ⋖ cut
  first_le_below : first ≤ below
  cut_le_last : cut ≤ last
  two_lt : 2 < events d rs
  median : (cut ∈ starts d rs ∧ passed d rs cut = events d rs / 2)
      ∨ (below ∈ ends d rs ∧ passed d rs cut = events d rs / 2 + 1)

namespace MedianCut

variable [DecidableEq ι] {rs : List (L × Box α)} {d : ι} (m : MedianCut rs d)

def left : List (L × Box α) := restrict d m.first m.below rs

def right : List (L × Box α) := restrict d m.cut m.last rs

theorem left_proper (hrs : ∀ r ∈ rs, r.2.Proper) : ∀ r ∈ m.left, r.2.Proper :=
  restrict_proper m.first_le_below hrs

theorem right_proper (hrs : ∀ r ∈ rs, r.2.Proper) : ∀ r ∈ m.right, r.2.Proper :=
  restrict_proper m.cut_le_last hrs

theorem left_ne_nil (hrs : ∀ r ∈ rs, r.2.Proper) : m.left ≠ [] := by
  rcases mem_starts.mp m.first_mem with ⟨r, hr, hfirst⟩
  apply restrict_ne_nil hr
  constructor
  . exact hfirst.le.trans m.first_le_below
  . exact hfirst.ge.trans (hrs r hr d)

theorem right_ne_nil (hrs : ∀ r ∈ rs, r.2.Proper) : m.right ≠ [] := by
  rcases mem_ends.mp m.last_mem with ⟨r, hr, hlast⟩
  apply restrict_ne_nil hr
  constructor
  . exact (hrs r hr d).trans hlast.le
  . exact m.cut_le_last.trans hlast.ge

theorem starts_left_subset : starts d m.left ⊆ (starts d rs).filter (· < m.cut) := by
  intro a ha
  rw [mem_starts] at ha
  rcases ha with ⟨r, hr, rfl⟩
  rw [left, mem_restrict] at hr
  rcases hr with ⟨s, hs, hm, rfl⟩
  have hmem : s.2.lo d ∈ starts d rs := mem_starts.mpr ⟨s, hs, rfl⟩
  have hclip : (s.2.clip d m.first m.below).lo d = s.2.lo d := by
    simpa using m.first_le _ hmem
  rw [hclip, Finset.mem_filter]
  exact ⟨hmem, m.covBy.lt_iff_le_left.mpr hm.1⟩

theorem ends_left_subset
    : ends d m.left ⊆ insert m.below ((ends d rs).filter (· < m.cut)) := by
  intro a ha
  rw [mem_ends] at ha
  rcases ha with ⟨r, hr, rfl⟩
  rw [left, mem_restrict] at hr
  rcases hr with ⟨s, hs, hm, rfl⟩
  rw [clip_hi_self, Finset.mem_insert, Finset.mem_filter]
  cases le_total (s.2.hi d) m.below with
  | inl h =>
    rw [min_eq_left h]
    exact Or.inr ⟨mem_ends.mpr ⟨s, hs, rfl⟩, m.covBy.lt_iff_le_left.mpr h⟩
  | inr h =>
    rw [min_eq_right h]
    exact Or.inl rfl

theorem starts_right_subset
    : starts d m.right ⊆ insert m.cut ((starts d rs).filter (¬ · < m.cut)) := by
  intro a ha
  rw [mem_starts] at ha
  rcases ha with ⟨r, hr, rfl⟩
  rw [right, mem_restrict] at hr
  rcases hr with ⟨s, hs, hm, rfl⟩
  rw [clip_lo_self, Finset.mem_insert, Finset.mem_filter]
  cases le_total (s.2.lo d) m.cut with
  | inl h =>
    rw [max_eq_right h]
    exact Or.inl rfl
  | inr h =>
    rw [max_eq_left h]
    exact Or.inr ⟨mem_starts.mpr ⟨s, hs, rfl⟩, not_lt.mpr h⟩

theorem ends_right_subset : ends d m.right ⊆ (ends d rs).filter (¬ · < m.cut) := by
  intro a ha
  rw [mem_ends] at ha
  rcases ha with ⟨r, hr, rfl⟩
  rw [right, mem_restrict] at hr
  rcases hr with ⟨s, hs, hm, rfl⟩
  have hmem : s.2.hi d ∈ ends d rs := mem_ends.mpr ⟨s, hs, rfl⟩
  have hclip : (s.2.clip d m.cut m.last).hi d = s.2.hi d := by
    simpa using m.le_last _ hmem
  rw [hclip, Finset.mem_filter]
  exact ⟨hmem, not_lt.mpr hm.2⟩

theorem events_left_le : events d m.left ≤ events d rs / 2 + 1 := by
  have hs := Finset.card_le_card m.starts_left_subset
  have he := Finset.card_le_card m.ends_left_subset
  have hins := Finset.card_insert_le m.below ((ends d rs).filter (· < m.cut))
  cases m.median with
  | inl h =>
    have := h.2
    simp only [passed, events] at *
    omega
  | inr h =>
    have hbelow : m.below ∈ (ends d rs).filter (· < m.cut) :=
      Finset.mem_filter.mpr ⟨h.1, m.covBy.lt⟩
    rw [Finset.insert_eq_of_mem hbelow] at he
    have := h.2
    simp only [passed, events] at *
    omega

theorem events_right_le : events d m.right ≤ events d rs / 2 + 1 := by
  have hs := Finset.card_le_card m.starts_right_subset
  have he := Finset.card_le_card m.ends_right_subset
  have hins := Finset.card_insert_le m.cut ((starts d rs).filter (¬ · < m.cut))
  have hsum := passed_add_remaining d rs m.cut
  cases m.median with
  | inl h =>
    have hcut : m.cut ∈ (starts d rs).filter (¬ · < m.cut) :=
      Finset.mem_filter.mpr ⟨h.1, lt_irrefl _⟩
    rw [Finset.insert_eq_of_mem hcut] at hs
    have := h.2
    simp only [passed, remaining, events] at *
    omega
  | inr h =>
    have := h.2
    simp only [passed, remaining, events] at *
    omega

end MedianCut

section Potential

def halvings (n : Nat) : Nat := Nat.size (n - 2)

theorem halvings_mono {m n : Nat} (h : m ≤ n) : halvings m ≤ halvings n :=
  Nat.size_le_size (by omega)

theorem halvings_lt {m n : Nat} (hn : 2 < n) (h : m ≤ n / 2 + 1) : halvings m < halvings n := by
  have hpos : 0 < halvings n := Nat.size_pos.mpr (by omega)
  have hlt : n - 2 < 2 ^ (halvings n - 1 + 1) := by
    rw [Nat.sub_add_cancel hpos]
    exact Nat.lt_size_self _
  have : halvings m ≤ halvings n - 1 := by
    apply Nat.size_le.mpr
    rw [pow_succ] at hlt
    omega
  omega

variable [Fintype ι]

def potential (rs : List (L × Box α)) : Nat := ∑ d, halvings (events d rs)

theorem potential_le {rs : List (L × Box α)} {n : Nat} (h : 2 * rs.length - 2 < 2 ^ n)
    : potential rs ≤ Fintype.card ι * n := by
  rw [← smul_eq_mul]
  apply Finset.sum_le_card_nsmul
  intro d _
  apply Nat.size_le.mpr
  have := events_le_length d rs
  omega

variable [DecidableEq ι]

omit [Fintype ι] in
theorem events_restrict_of_ne {d d' : ι} (l h : α d) (rs : List (L × Box α)) (hne : d' ≠ d)
    : events d' (restrict d l h rs) ≤ events d' rs := by
  apply Nat.add_le_add
  . apply Finset.card_le_card
    intro a ha
    rw [mem_starts] at ha ⊢
    rcases ha with ⟨r, hr, rfl⟩
    rcases mem_restrict.mp hr with ⟨s, hs, -, rfl⟩
    exact ⟨s, hs, (clip_lo_of_ne _ _ _ hne).symm⟩
  . apply Finset.card_le_card
    intro a ha
    rw [mem_ends] at ha ⊢
    rcases ha with ⟨r, hr, rfl⟩
    rcases mem_restrict.mp hr with ⟨s, hs, -, rfl⟩
    exact ⟨s, hs, (clip_hi_of_ne _ _ _ hne).symm⟩

theorem potential_restrict_lt {d : ι} {l h : α d} {rs : List (L × Box α)} (htwo : 2 < events d rs)
    (hle : events d (restrict d l h rs) ≤ events d rs / 2 + 1)
    : potential (restrict d l h rs) < potential rs := by
  apply Finset.sum_lt_sum
  . intro d' _
    by_cases hd : d' = d
    . subst hd
      exact (halvings_lt htwo hle).le
    . exact halvings_mono (events_restrict_of_ne l h rs hd)
  . exact ⟨d, Finset.mem_univ d, halvings_lt htwo hle⟩

theorem MedianCut.potential_left_lt {rs : List (L × Box α)} {d : ι} (m : MedianCut rs d)
    : potential m.left < potential rs :=
  potential_restrict_lt m.two_lt m.events_left_le

theorem MedianCut.potential_right_lt {rs : List (L × Box α)} {d : ι} (m : MedianCut rs d)
    : potential m.right < potential rs :=
  potential_restrict_lt m.two_lt m.events_right_le

end Potential

end Box
