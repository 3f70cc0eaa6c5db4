import Mathlib

/-!
This module contains recognizers that read a word from left to right and tell whether it is a word of
a language, the begin of one, or neither. It also contains a scanner for groups with separators.
-/

abbrev Matcher (α : Type) : Type := List α → Option Bool

/-- The complete words are those of the language, the begins of its words are let through. -/
structure Recognizes {α : Type} (f : Matcher α) (L : Set (List α)) : Prop where
  complete : ∀ w ≠ [], f w = some true ↔ w ∈ L
  viable : ∀ w ≠ [], f w ≠ none ↔ ∃ v, w ++ v ∈ L

namespace Recognizes

variable {α : Type} {f : Matcher α} {L : Set (List α)} {w v : List α}

theorem of_append (h : Recognizes f L) (hw : w ≠ []) (hwv : f (w ++ v) ≠ none) : f w ≠ none := by
  have hne : w ++ v ≠ [] := by simp [hw]
  rcases (h.viable _ hne).mp hwv with ⟨u, hu⟩
  rw [List.append_assoc] at hu
  exact (h.viable w hw).mpr ⟨v ++ u, hu⟩

theorem of_closed (hcomplete : ∀ w ≠ [], f w = some true ↔ w ∈ L)
    (hextend : ∀ w ≠ [], f w = some false → ∃ v, w ++ v ∈ L)
    (hclosed : ∀ w ≠ [], ∀ a, f (w ++ [a]) ≠ none → f w ≠ none) : Recognizes f L := by
  have hbegin (w v : List α) (hw : w ≠ []) (hwv : f (w ++ v) ≠ none) : f w ≠ none := by
    induction v using List.reverseRecOn with
    | nil => rwa [List.append_nil] at hwv
    | append_singleton v a ih =>
      rw [← List.append_assoc] at hwv
      exact ih (hclosed (w ++ v) (by simp [hw]) a hwv)
  constructor
  case complete => exact hcomplete
  case viable =>
    intro w hw
    constructor
    . intro hne
      cases hf : f w with
      | none => exact absurd hf hne
      | some b =>
        cases b with
        | false => exact hextend w hw hf
        | true =>
          refine ⟨[], ?_⟩
          rw [List.append_nil]
          exact (hcomplete w hw).mp hf
    . rintro ⟨v, hv⟩
      have hwv := (hcomplete (w ++ v) (by simp [hw])).mpr hv
      apply hbegin w v hw
      rw [hwv]
      simp

end Recognizes

/-- A machine that reads one element after the other. -/
structure Scanner (σ α : Type) where
  step : σ → α → Option σ
  done : σ → Bool

namespace Scanner

variable {σ α : Type} (m : Scanner σ α)

def scan (s : σ) : Matcher α
  | [] => some (m.done s)
  | a :: w =>
    match m.step s a with
    | none => none
    | some s' => scan s' w

/-- The words that are still expected in each state. -/
structure Residual (Inv : σ → Prop) (R : σ → Set (List α)) : Prop where
  done : ∀ s, Inv s → (m.done s = true ↔ [] ∈ R s)
  step : ∀ s a s', Inv s → m.step s a = some s' → Inv s' ∧ ∀ w, a :: w ∈ R s ↔ w ∈ R s'
  stuck : ∀ s a, Inv s → m.step s a = none → ∀ w, a :: w ∉ R s
  nonempty : ∀ s, Inv s → (R s).Nonempty

variable {m} {Inv : σ → Prop} {R : σ → Set (List α)} {s : σ} {w : List α}

theorem Residual.scan_complete (h : m.Residual Inv R) (hs : Inv s)
    : m.scan s w = some true ↔ w ∈ R s := by
  induction w generalizing s with
  | nil =>
    rw [scan, Option.some.injEq]
    exact h.done s hs
  | cons a w ih =>
    rw [scan]
    cases hstep : m.step s a with
    | none =>
      constructor
      . intro hnone
        contradiction
      . intro hmem
        exact absurd hmem (h.stuck s a hs hstep w)
    | some s' =>
      rcases h.step s a s' hs hstep with ⟨hs', hmem⟩
      rw [hmem w]
      exact ih hs'

theorem Residual.scan_viable (h : m.Residual Inv R) (hs : Inv s)
    : m.scan s w ≠ none ↔ ∃ v, w ++ v ∈ R s := by
  induction w generalizing s with
  | nil =>
    constructor
    . intro _
      exact h.nonempty s hs
    . intro _ hnone
      contradiction
  | cons a w ih =>
    rw [scan]
    cases hstep : m.step s a with
    | none =>
      constructor
      . intro hne
        contradiction
      . rintro ⟨v, hv⟩
        exact absurd hv (h.stuck s a hs hstep _)
    | some s' =>
      rcases h.step s a s' hs hstep with ⟨hs', hmem⟩
      simp only [List.cons_append, hmem]
      exact ih hs'

theorem Residual.recognizes (h : m.Residual Inv R) (hs : Inv s) : Recognizes (m.scan s) (R s) where
  complete _ _ := h.scan_complete hs
  viable _ _ := h.scan_viable hs

end Scanner

section Groups

variable {α : Type}

def separated (sep : α) : List (List α) → List α
  | [] => []
  | g :: gs => g ++ gs.flatMap (sep :: ·)

def groupWords (sep : α) (ok : List α → Prop) (n : Nat) : Set (List α) :=
  { w | ∃ gs : List (List α), gs.length = n ∧ (∀ g ∈ gs, g ≠ [] ∧ ok g) ∧ w = separated sep gs }

/-- The group that is read and the number of groups that have still to come. -/
structure GroupState (α : Type) where
  group : List α
  rest : Nat

def groupScanner [DecidableEq α] (sep : α) (ok : List α → Bool) : Scanner (GroupState α) α where
  step s a :=
    if a = sep then
      if s.group = [] ∨ s.rest = 0 then none else some ⟨[], s.rest - 1⟩
    else if ok (s.group ++ [a]) then
      some ⟨s.group ++ [a], s.rest⟩
    else
      none
  done s := s.group ≠ [] ∧ s.rest = 0

def groupRest (sep : α) (ok : List α → Prop) (s : GroupState α) : Set (List α) :=
  { w | ∃ (g : List α) (gs : List (List α)), gs.length = s.rest ∧ (s.group ++ g ≠ [] ∧ ok (s.group ++ g))
      ∧ (∀ g ∈ gs, g ≠ [] ∧ ok g) ∧ w = g ++ gs.flatMap (sep :: ·) }

/-- What a group may look like: there is one, a begin of a group is fine and the separator ends it. -/
structure GroupShape (sep : α) (ok : List α → Bool) : Prop where
  exists_one : ∃ a, ok [a]
  sep_notMem : ∀ g, ok g → sep ∉ g
  of_append : ∀ g g', ok (g ++ g') → ok g

variable {sep : α} {ok : List α → Bool} {s : GroupState α} {a : α} {w : List α}

theorem cons_mem_groupRest_sep (hshape : GroupShape sep ok)
    : sep :: w ∈ groupRest sep (ok ·) s
        ↔
      (s.group ≠ [] ∧ ok s.group) ∧ ∃ n, s.rest = n + 1 ∧ w ∈ groupRest sep (ok ·) ⟨[], n⟩ := by
  constructor
  . rintro ⟨g, gs, hlen, hg, hgs, hw⟩
    cases g with
    | cons b g =>
      rw [List.cons_append, List.cons.injEq] at hw
      have hsep := hshape.sep_notMem _ hg.2
      simp [hw.1] at hsep
    | nil =>
      rw [List.append_nil] at hg
      cases gs with
      | nil => simp at hw
      | cons g gs =>
        rw [List.nil_append, List.flatMap_cons, List.cons_append, List.cons.injEq] at hw
        rw [List.forall_mem_cons] at hgs
        exact ⟨hg, gs.length, hlen.symm, g, gs, rfl, hgs.1, hgs.2, hw.2⟩
  . rintro ⟨hg, n, hn, g, gs, hlen, hg', hgs, hw⟩
    refine ⟨[], g :: gs, ?_, ?_, ?_, ?_⟩
    . rw [List.length_cons, hlen, hn]
    . rwa [List.append_nil]
    . exact List.forall_mem_cons.mpr ⟨hg', hgs⟩
    . rw [hw]
      rfl

theorem cons_mem_groupRest (ha : a ≠ sep)
    : a :: w ∈ groupRest sep (ok ·) s ↔ w ∈ groupRest sep (ok ·) ⟨s.group ++ [a], s.rest⟩ := by
  constructor
  . rintro ⟨g, gs, hlen, hg, hgs, hw⟩
    cases g with
    | nil =>
      cases gs with
      | nil => simp at hw
      | cons g gs =>
        rw [List.nil_append, List.flatMap_cons, List.cons_append, List.cons.injEq] at hw
        exact absurd hw.1 ha
    | cons b g =>
      rw [List.cons_append, List.cons.injEq] at hw
      rw [← hw.1] at hg
      refine ⟨g, gs, hlen, ?_, hgs, hw.2⟩
      rwa [List.append_assoc, List.singleton_append]
  . rintro ⟨g, gs, hlen, hg, hgs, hw⟩
    refine ⟨a :: g, gs, hlen, ?_, hgs, ?_⟩
    . rwa [List.append_assoc, List.singleton_append] at hg
    . rw [hw, List.cons_append]

theorem groupRest_start (n : Nat) : groupRest sep (ok ·) ⟨[], n⟩ = groupWords sep (ok ·) (n + 1) := by
  ext w
  constructor
  . rintro ⟨g, gs, hlen, hg, hgs, hw⟩
    refine ⟨g :: gs, ?_, List.forall_mem_cons.mpr ⟨hg, hgs⟩, hw⟩
    rw [List.length_cons, hlen]
  . rintro ⟨gs, hlen, hgs, hw⟩
    cases gs with
    | nil => contradiction
    | cons g gs =>
      rw [List.forall_mem_cons] at hgs
      exact ⟨g, gs, Nat.succ.inj hlen, hgs.1, hgs.2, hw⟩

variable [DecidableEq α]

theorem scan_group_nil
    : (groupScanner sep ok).scan s [] = some (decide (s.group ≠ [] ∧ s.rest = 0)) := rfl

theorem scan_group_sep (hgroup : s.group ≠ []) (hrest : s.rest ≠ 0)
    : (groupScanner sep ok).scan s (sep :: w) = (groupScanner sep ok).scan ⟨[], s.rest - 1⟩ w := by
  rw [Scanner.scan, groupScanner]
  simp [hgroup, hrest]

theorem scan_group_sep_none (h : s.group = [] ∨ s.rest = 0)
    : (groupScanner sep ok).scan s (sep :: w) = none := by
  rw [Scanner.scan, groupScanner]
  simp [h]

theorem scan_group_cons (ha : a ≠ sep) (hok : ok (s.group ++ [a]))
    : (groupScanner sep ok).scan s (a :: w)
        =
      (groupScanner sep ok).scan ⟨s.group ++ [a], s.rest⟩ w := by
  rw [Scanner.scan, groupScanner]
  simp [ha, hok]

theorem scan_group_cons_none (ha : a ≠ sep) (hok : ¬ok (s.group ++ [a]))
    : (groupScanner sep ok).scan s (a :: w) = none := by
  rw [Scanner.scan, groupScanner]
  simp [ha, hok]

theorem groupScanner_residual (hshape : GroupShape sep ok)
    : (groupScanner sep ok).Residual (fun s => s.group = [] ∨ ok s.group) (groupRest sep (ok ·)) := by
  constructor
  case done =>
    intro s hs
    rw [groupScanner, decide_eq_true_iff]
    constructor
    . rintro ⟨hgroup, hrest⟩
      refine ⟨[], [], hrest.symm, ?_, by simp, rfl⟩
      rw [List.append_nil]
      exact ⟨hgroup, hs.resolve_left hgroup⟩
    . rintro ⟨g, gs, hlen, hg, -, hw⟩
      rw [eq_comm, List.append_eq_nil_iff] at hw
      rw [hw.1, List.append_nil] at hg
      refine ⟨hg.1, ?_⟩
      cases gs with
      | nil => exact hlen.symm
      | cons g gs => simp at hw
  case step =>
    intro s a s' hs hstep
    unfold groupScanner at hstep
    dsimp only at hstep
    split at hstep
    . next ha =>
      split at hstep
      . contradiction
      next hne =>
      rw [not_or] at hne
      cases hstep
      refine ⟨Or.inl rfl, fun w => ?_⟩
      rw [ha, cons_mem_groupRest_sep hshape]
      constructor
      . rintro ⟨-, n, hn, hw⟩
        rwa [hn, Nat.add_sub_cancel]
      . intro hw
        refine ⟨⟨hne.1, hs.resolve_left hne.1⟩, s.rest - 1, ?_, hw⟩
        exact (Nat.sub_add_cancel (Nat.pos_of_ne_zero hne.2)).symm
    . next ha =>
      split at hstep
      . next hok =>
        cases hstep
        exact ⟨Or.inr hok, fun w => cons_mem_groupRest ha⟩
      . contradiction
  case stuck =>
    intro s a hs hstep w
    unfold groupScanner at hstep
    dsimp only at hstep
    split at hstep
    . next ha =>
      split at hstep
      . next hor =>
        rw [ha, cons_mem_groupRest_sep hshape]
        rintro ⟨hg, n, hn, -⟩
        rcases hor with hnil | hzero
        . exact hg.1 hnil
        . rw [hzero] at hn
          contradiction
      . contradiction
    . next ha =>
      split at hstep
      . contradiction
      . next hok =>
        rw [cons_mem_groupRest ha]
        rintro ⟨g, gs, -, hg, -⟩
        exact hok (hshape.of_append _ g hg.2)
  case nonempty =>
    intro s hs
    rcases hshape.exists_one with ⟨a, ha⟩
    -- the group is finished, with one element when it is empty, and `[a]` is taken for the others
    have hrest : ∀ g ∈ List.replicate s.rest [a], g ≠ [] ∧ ok g := by
      intro g hg
      rw [List.eq_of_mem_replicate hg]
      exact ⟨List.cons_ne_nil a [], ha⟩
    by_cases hnil : s.group = []
    . refine ⟨_, [a], List.replicate s.rest [a], List.length_replicate, ?_, hrest, rfl⟩
      rw [hnil, List.nil_append]
      exact ⟨List.cons_ne_nil a [], ha⟩
    . refine ⟨_, [], List.replicate s.rest [a], List.length_replicate, ?_, hrest, rfl⟩
      rw [List.append_nil]
      exact ⟨hnil, hs.resolve_left hnil⟩

theorem groupScanner_recognizes (hshape : GroupShape sep ok) (n : Nat)
    : Recognizes ((groupScanner sep ok).scan ⟨[], n⟩) (groupWords sep (ok ·) (n + 1)) := by
  rw [← groupRest_start]
  exact (groupScanner_residual hshape).recognizes (Or.inl rfl)

end Groups
