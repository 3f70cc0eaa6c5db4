import SecFw.Acl.Calls

/-!
This module contains the arithmetic of a split: the ranges of the children partition the range of
the points, and nothing is borrowed from or carried into the words above the end points.
-/

namespace SecFw.Acl

section Exact

def Split.interval (split : Split) (c : Fin 2) : Set (Words 4) :=
  Set.Icc (split.range c 0) (split.range c 1)

/--
The bounds that are computed from points of `n` words. All of them fit into `n` words, so that the
words above are zero after every step.
-/
structure Split.Exact (split : Split) (hn : n ≤ 4) (points : Set (Words n)) : Prop where
  least : ∃ p0, IsLeast points p0 ∧ split.range 0 0 = assignDiffBits p0 hn
  greatest : ∃ pm, IsGreatest points pm ∧ split.range 1 1 = assignDiffBits pm hn
  fits : ∀ c k, (split.range c k).val < Words.radix ^ n
  p2s_eq : split.p2s = split.range 1 0
  first_le : split.range 0 0 ≤ split.range 0 1
  succ_eq : (split.range 0 1).val + 1 = (split.range 1 0).val
  le_last : split.range 1 0 ≤ split.range 1 1

/-- The ranges of the children partition the range from the first to the last point. -/
structure Split.Partitions (split : Split) : Prop where
  union_eq : split.interval 0 ∪ split.interval 1 = Set.Icc (split.range 0 0) (split.range 1 1)
  disjoint : Disjoint (split.interval 0) (split.interval 1)

variable {split : Split} {hn : n ≤ 4} {points : Set (Words n)}

theorem Split.Exact.partitions (h : split.Exact hn points) : split.Partitions := by
  have hcov : split.range 0 1 ⋖ split.range 1 0 := Words.covBy_of_val h.succ_eq
  constructor
  case union_eq =>
    ext v
    simp only [Split.interval, Set.mem_union, Set.mem_Icc]
    constructor
    . intro hv
      cases hv with
      | inl hv => exact ⟨hv.1, hv.2.trans (hcov.le.trans h.le_last)⟩
      | inr hv => exact ⟨h.first_le.trans (hcov.le.trans hv.1), hv.2⟩
    . intro hv
      cases le_or_gt v (split.range 0 1) with
      | inl hle => exact Or.inl ⟨hv.1, hle⟩
      | inr hlt => exact Or.inr ⟨hcov.ge_of_gt hlt, hv.2⟩
  case disjoint =>
    rw [Set.disjoint_left]
    intro v hv hv'
    exact absurd (hv.2.trans_lt hcov.lt) (not_lt.mpr hv'.1)

def allPoints (M : Fin 2 → Finset (Words n)) : Set (Words n) := {x | x ∈ M 0 ∨ x ∈ M 1}

variable {M : Fin 2 → Finset (Words n)} {first last : Words n}

theorem Hull.isLeast (h : Hull M first last) (hstart : ∀ e ∈ M 1, ∃ a ∈ M 0, a ≤ e)
    : IsLeast (allPoints M) first := by
  refine ⟨Or.inl h.first_mem, ?_⟩
  intro x hx
  cases hx with
  | inl hx => exact h.first_le x hx
  | inr hx =>
    rcases hstart x hx with ⟨a, ha, hle⟩
    exact (h.first_le a ha).trans hle

theorem Hull.isGreatest (h : Hull M first last) (hend : ∀ a ∈ M 0, ∃ e ∈ M 1, a ≤ e)
    : IsGreatest (allPoints M) last := by
  refine ⟨Or.inr h.last_mem, ?_⟩
  intro x hx
  cases hx with
  | inl hx =>
    rcases hend x hx with ⟨e, he, hle⟩
    exact hle.trans (h.le_last e he)
  | inr hx => exact h.le_last x hx

theorem MedianSplit.exact (h : MedianSplit hn M split) (hstart : ∀ e ∈ M 1, ∃ a ∈ M 0, a ≤ e)
    (hend : ∀ a ∈ M 0, ∃ e ∈ M 1, a ≤ e) : split.Exact hn (allPoints M) := by
  cases h with
  | @before first p last hull hfirst hlast hp hpassed =>
    have hpos : 0 < (assignDiffBits p hn).val := by
      rw [Words.lt_iff_val] at hfirst
      rw [val_assignDiffBits]
      omega
    have hsub := val_subtract (assignDiffBits p hn) hpos
    have hadd := add_subtract (assignDiffBits p hn) hpos
    rw [val_assignDiffBits] at hsub
    rw [Words.lt_iff_val] at hfirst
    rw [Words.le_iff_val] at hlast
    have hlt := last.val_lt
    constructor
    case least => exact ⟨first, hull.isLeast hstart, rfl⟩
    case greatest => exact ⟨last, hull.isGreatest hend, rfl⟩
    case fits =>
      intro c k
      fin_cases c <;> fin_cases k <;> simp [splitBefore, hadd] <;> omega
    case p2s_eq => rfl
    all_goals simp [splitBefore, hadd, Words.le_iff_val]
    all_goals omega
  | @after first p last hull hfirst hlast hp hpassed =>
    have hlt := last.val_lt
    have hpow : Words.radix ^ n ≤ Words.radix ^ 4 := Nat.pow_le_pow_right (by decide) hn
    rw [Words.le_iff_val] at hfirst
    rw [Words.lt_iff_val] at hlast
    have hadd := val_add (assignDiffBits p hn) (by rw [val_assignDiffBits]; omega)
    rw [val_assignDiffBits] at hadd
    constructor
    case least => exact ⟨first, hull.isLeast hstart, rfl⟩
    case greatest => exact ⟨last, hull.isGreatest hend, rfl⟩
    case fits =>
      intro c k
      fin_cases c <;> fin_cases k <;> simp [splitAfter, hadd] <;> omega
    case p2s_eq => rfl
    all_goals simp [splitAfter, hadd, Words.le_iff_val]
    all_goals omega

end Exact

section Splits

variable {ranges : List (Fin 2 → Words n)} {ruleset rs : RuleSet} {path : List (Fin 2)}
  {sel : Selection}

theorem splitRanges_exact (hn : n ≤ 4) (hpos : 0 < n) (hvalid : ∀ r ∈ ranges, r 0 ≤ r 1)
    {temp : List (SegmentPt n)} {all : Nat}
    (hcollect : collectPoints compareBits (rangePoints ranges) = some (temp, all)) (hall : 2 < all)
    : ∃ split, splitRanges hn ranges = some split
        ∧ split.Exact hn (allPoints (endsOf ranges)) ∧ split.Partitions := by
  have hne : ranges ≠ [] := by
    rintro rfl
    simp [rangePoints, collectPoints] at hcollect
  have hcmp : (compareBits : Words n → Words n → Int) = segPointCompare64128 := by
    funext a b
    exact compareBits_eq hpos a b
  rcases collectPoints_rangePoints hne with ⟨acc, pts, hcollect', hcollected⟩
  rw [hcmp, hcollect', Option.some.injEq] at hcollect
  have htwo : 2 < (endsOf ranges 0).card + (endsOf ranges 1).card := by
    rw [← hcollected.all_eq, hcollect]
    exact hall
  rcases splitRanges_median hn hpos hvalid htwo with ⟨split, hsplit, hmedian⟩
  have hexact := hmedian.exact (exists_start_le hvalid) (exists_le_end hvalid)
  exact ⟨split, hsplit, hexact, hexact.partitions⟩

theorem splitRuleset_exact (hvalid : ∀ r ∈ rs, r.Valid) (hlen : Rule_Num_Threshold < rs.length)
    (hsel : selectDim rs = some sel) (hall : 2 < sel.maxDiffSegPts_All)
    : ∃ split, splitRuleset rs sel = some split
        ∧ split.Exact (numWords_le sel.d2s) (allPoints (rangeEnds rs sel.d2s))
        ∧ split.Partitions := by
  have hne : rs ≠ [] := List.ne_nil_of_length_pos hlen
  rcases selectDim_spec hne with ⟨sel', hsel', hselects⟩
  rw [hsel, Option.some.injEq] at hsel'
  subst hsel'
  rcases splitRuleset_median hne hvalid hselects hall with ⟨split, hsplit, hmedian, -⟩
  have hranges := ranges_valid hvalid sel.d2s
  have hexact : split.Exact (numWords_le sel.d2s) (allPoints (rangeEnds rs sel.d2s)) := by
    apply hmedian.exact
    . rw [rangeEnds_eq]
      exact exists_start_le hranges
    . rw [rangeEnds_eq]
      exact exists_le_end hranges
  exact ⟨split, hsplit, hexact, hexact.partitions⟩

/--
The arithmetic is exact for end points of up to four words, and at every split that the construction
of a tree makes.
-/
theorem splits_exact (hvalid : ∀ r ∈ ruleset, r.Valid)
    : (∀ (n : Nat) (hn : n ≤ 4), 0 < n → ∀ ranges : List (Fin 2 → Words n),
        (∀ r ∈ ranges, r 0 ≤ r 1) → ∀ temp all,
        collectPoints compareBits (rangePoints ranges) = some (temp, all) → 2 < all
          → ∃ split, splitRanges hn ranges = some split
            ∧ split.Exact hn (allPoints (endsOf ranges)) ∧ split.Partitions)
      ∧ ∀ path rs sel, Called ruleset path rs → Rule_Num_Threshold < rs.length
        → selectDim rs = some sel → 2 < sel.maxDiffSegPts_All
        → ∃ split, splitRuleset rs sel = some split
          ∧ split.Exact (numWords_le sel.d2s) (allPoints (rangeEnds rs sel.d2s))
          ∧ split.Partitions := by
  constructor
  . intro n hn hpos ranges hranges temp all hcollect hall
    exact splitRanges_exact hn hpos hranges hcollect hall
  . intro path rs sel hcalled hlen hsel hall
    exact splitRuleset_exact (hcalled.valid hvalid) hlen hsel hall

def portRanges : List (Fin 2 → Words 1) :=
  [![.ofNat 1 0, .ofNat 1 5], ![.ofNat 1 3, .ofNat 1 10]]

theorem splits_exact_ports
    : (∃ split, splitRanges (by decide : 1 ≤ 4) portRanges = some split
        ∧ split.Exact (by decide : 1 ≤ 4) (allPoints (endsOf portRanges)) ∧ split.Partitions)
      ∧ ∃ sel split, selectDim [portRule 0 0 5, portRule 1 3 10] = some sel
        ∧ splitRuleset [portRule 0 0 5, portRule 1 3 10] sel = some split
        ∧ split.Exact (numWords_le sel.d2s)
          (allPoints (rangeEnds [portRule 0 0 5, portRule 1 3 10] sel.d2s))
        ∧ split.Partitions := by
  rcases splits_exact (by decide : ∀ r ∈ [portRule 0 0 5, portRule 1 3 10], r.Valid) with
    ⟨hranges, hrules⟩
  have hfour : (collectPoints compareBits (rangePoints portRanges)).map (·.2) = some 4 := by
    decide +kernel
  have hsel : (selectDim [portRule 0 0 5, portRule 1 3 10]).map (·.maxDiffSegPts_All) = some 4 := by
    decide +kernel
  rcases Option.map_eq_some_iff.mp hfour with ⟨⟨temp, all⟩, hcollect, rfl⟩
  rcases Option.map_eq_some_iff.mp hsel with ⟨sel, hsel, hall⟩
  rcases hrules [] _ sel .root (by decide) hsel (by omega) with ⟨split, hsplit, hexact⟩
  exact ⟨hranges 1 (by decide) (by decide) portRanges (by decide) temp 4 hcollect (by decide),
    sel, split, hsel, hsplit, hexact⟩

end Splits

end SecFw.Acl
