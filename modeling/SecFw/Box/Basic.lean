import Mathlib

/-!
This module contains axis-parallel boxes over a family of linear orders, and what happens to a list
of labelled boxes when the space is restricted to a range of one dimension.
-/

/--
One closed range per dimension.
-/
@[ext]
structure Box {ι : Type} (α : ι → Type) where
  lo : ∀ d, α d
  hi : ∀ d, α d

namespace Box

variable {ι : Type} {α : ι → Type} [∀ d, LinearOrder (α d)]

instance : Membership (∀ d, α d) (Box α) where
  mem b x := ∀ d, b.lo d ≤ x d ∧ x d ≤ b.hi d

theorem mem_def {b : Box α} {x : ∀ d, α d} : x ∈ b ↔ ∀ d, b.lo d ≤ x d ∧ x d ≤ b.hi d := Iff.rfl

def Proper (b : Box α) : Prop := ∀ d, b.lo d ≤ b.hi d

def Meets (b : Box α) (d : ι) (l h : α d) : Prop := b.lo d ≤ h ∧ l ≤ b.hi d

instance (b : Box α) (d : ι) (l h : α d) : Decidable (b.Meets d l h) :=
  inferInstanceAs (Decidable (_ ∧ _))

theorem meets_of_mem {b : Box α} {x : ∀ d, α d} {d : ι} {l h : α d} (hb : x ∈ b) (hl : l ≤ x d)
    (hh : x d ≤ h) : b.Meets d l h := by
  constructor
  . exact (hb d).1.trans hh
  . exact hl.trans (hb d).2

variable [DecidableEq ι]

def clip (b : Box α) (d : ι) (l h : α d) : Box α where
  lo := Function.update b.lo d (max (b.lo d) l)
  hi := Function.update b.hi d (min (b.hi d) h)

@[simp]
theorem clip_lo_self (b : Box α) (d : ι) (l h : α d) : (b.clip d l h).lo d = max (b.lo d) l := by
  simp [clip]

@[simp]
theorem clip_hi_self (b : Box α) (d : ι) (l h : α d) : (b.clip d l h).hi d = min (b.hi d) h := by
  simp [clip]

theorem clip_lo_of_ne (b : Box α) {d d' : ι} (l h : α d) (hne : d' ≠ d)
    : (b.clip d l h).lo d' = b.lo d' := by
  simp [clip, hne]

theorem clip_hi_of_ne (b : Box α) {d d' : ι} (l h : α d) (hne : d' ≠ d)
    : (b.clip d l h).hi d' = b.hi d' := by
  simp [clip, hne]

theorem Proper.clip {b : Box α} (hb : b.Proper) {d : ι} {l h : α d} (hlh : l ≤ h)
    (hm : b.Meets d l h) : (b.clip d l h).Proper := by
  intro d'
  by_cases hd : d' = d
  . subst hd
    simp only [clip_lo_self, clip_hi_self]
    apply max_le
    . exact le_min (hb d') hm.1
    . exact le_min hm.2 hlh
  . rw [clip_lo_of_ne _ _ _ hd, clip_hi_of_ne _ _ _ hd]
    exact hb d'

theorem mem_clip_iff {b : Box α} {x : ∀ d, α d} {d : ι} {l h : α d} (hl : l ≤ x d) (hh : x d ≤ h)
    : x ∈ b.clip d l h ↔ x ∈ b := by
  constructor
  all_goals
    intro hx d'
    specialize hx d'
    by_cases hd : d' = d
    . subst hd
      simp_all
    . simpa only [clip_lo_of_ne _ _ _ hd, clip_hi_of_ne _ _ _ hd] using hx

variable {L : Type}

def restrict (d : ι) (l h : α d) (rs : List (L × Box α)) : List (L × Box α) :=
  (rs.filter fun r => r.2.Meets d l h).map fun r => (r.1, r.2.clip d l h)

theorem mem_restrict {d : ι} {l h : α d} {rs : List (L × Box α)} {r : L × Box α}
    : r ∈ restrict d l h rs ↔ ∃ s ∈ rs, s.2.Meets d l h ∧ (s.1, s.2.clip d l h) = r := by
  simp [restrict, and_assoc]

theorem restrict_proper {d : ι} {l h : α d} {rs : List (L × Box α)} (hlh : l ≤ h)
    (hrs : ∀ r ∈ rs, r.2.Proper) : ∀ r ∈ restrict d l h rs, r.2.Proper := by
  intro r hr
  rw [mem_restrict] at hr
  rcases hr with ⟨s, hs, hm, rfl⟩
  exact (hrs s hs).clip hlh hm

theorem restrict_ne_nil {d : ι} {l h : α d} {rs : List (L × Box α)} {r : L × Box α} (hr : r ∈ rs)
    (hm : r.2.Meets d l h) : restrict d l h rs ≠ [] := by
  apply List.ne_nil_of_mem (a := (r.1, r.2.clip d l h))
  rw [mem_restrict]
  exact ⟨r, hr, hm, rfl⟩

theorem exists_mem_restrict {x : ∀ d, α d} {d : ι} {l h : α d} (hl : l ≤ x d) (hh : x d ≤ h)
    {rs : List (L × Box α)} (hx : ∃ r ∈ rs, x ∈ r.2) : ∃ r ∈ restrict d l h rs, x ∈ r.2 := by
  rcases hx with ⟨r, hr, hx⟩
  refine ⟨(r.1, r.2.clip d l h), ?_, ?_⟩
  . rw [mem_restrict]
    exact ⟨r, hr, meets_of_mem hx hl hh, rfl⟩
  . exact (mem_clip_iff hl hh).mpr hx

section Labels

variable [Fintype ι] (x : ∀ d, α d)

instance (b : Box α) : Decidable (x ∈ b) :=
  inferInstanceAs (Decidable (∀ d, b.lo d ≤ x d ∧ x d ≤ b.hi d))

def labels (rs : List (L × Box α)) : List L :=
  (rs.filter fun r => x ∈ r.2).map Prod.fst

theorem labels_restrict {d : ι} {l h : α d} (hl : l ≤ x d) (hh : x d ≤ h) (rs : List (L × Box α))
    : labels x (restrict d l h rs) = labels x rs := by
  induction rs with
  | nil => rfl
  | cons r rs ih =>
    simp only [labels, restrict] at ih ⊢
    by_cases hx : x ∈ r.2
    . have hm := meets_of_mem hx hl hh
      simp [hm, hx, mem_clip_iff hl hh, ih]
    . by_cases hm : r.2.Meets d l h
      . simp [hm, hx, mem_clip_iff hl hh, ih]
      . simp [hm, hx, ih]

end Labels

end Box
