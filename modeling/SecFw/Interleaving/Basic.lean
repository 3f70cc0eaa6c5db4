import Mathlib

/-!
This module contains programs that run on several cores with a shared memory, where the steps of
the cores are interleaved in any order, and the proof rule for what holds in all their states:
every place of the program is annotated, a step keeps its own annotation and does not interfere
with the annotations of other cores.
-/

namespace Interleaving

variable {Core Mem Place : Type}

abbrev Program (Core Mem Place : Type) : Type := Core → Mem → Place → Mem → Place → Prop

/-- The memory and the place of every core. -/
structure Config (Core Mem Place : Type) where
  mem : Mem
  pc : Core → Place

variable [DecidableEq Core]

/-- One core takes a step. -/
inductive Step (program : Program Core Mem Place)
    : Config Core Mem Place → Config Core Mem Place → Prop where
  | core {s : Config Core Mem Place} {mem' : Mem} {p' : Place} (c : Core)
      (h : program c s.mem (s.pc c) mem' p') : Step program s ⟨mem', Function.update s.pc c p'⟩

/-- The states of all runs. -/
inductive Reachable (program : Program Core Mem Place) (init : Config Core Mem Place → Prop)
    : Config Core Mem Place → Prop where
  | init {s : Config Core Mem Place} (h : init s) : Reachable program init s
  | step {s s' : Config Core Mem Place} (h : Reachable program init s) (hstep : Step program s s')
      : Reachable program init s'

/-- A run that stays in the states with `P`. -/
inductive RunWithin (program : Program Core Mem Place) (P : Config Core Mem Place → Prop)
    (s : Config Core Mem Place) : Config Core Mem Place → Prop where
  | refl (h : P s) : RunWithin program P s s
  | step {t u : Config Core Mem Place} (h : RunWithin program P s t) (hstep : Step program t u)
      (hu : P u) : RunWithin program P s u

variable {program : Program Core Mem Place} {init P : Config Core Mem Place → Prop}
  {s s' : Config Core Mem Place}

theorem Reachable.runWithin (h : Reachable program init s) (hrun : RunWithin program P s s')
    : Reachable program init s' := by
  induction hrun with
  | refl => exact h
  | step _ hstep _ ih => exact ih.step hstep

theorem RunWithin.last (h : RunWithin program P s s') : P s' := by
  cases h with
  | refl h => exact h
  | step _ _ h => exact h

/-- A core takes steps while the others rest. -/
inductive Alone (program : Program Core Mem Place) (c : Core) : Mem → Place → Mem → Place → Prop where
  | refl {mem : Mem} {p : Place} : Alone program c mem p mem p
  | step {mem mem1 mem2 : Mem} {p p1 p2 : Place} (hstep : program c mem p mem1 p1)
      (h : Alone program c mem1 p1 mem2 p2) : Alone program c mem p mem2 p2

omit [DecidableEq Core] in
theorem Alone.trans {c : Core} {mem mem1 mem2 : Mem} {p p1 p2 : Place}
    (h : Alone program c mem p mem1 p1) (h' : Alone program c mem1 p1 mem2 p2)
    : Alone program c mem p mem2 p2 := by
  induction h with
  | refl => exact h'
  | step hstep _ ih => exact .step hstep (ih h')

theorem Reachable.alone {c : Core} {mem mem' : Mem} {p p' : Place} {pc : Core → Place}
    (h : Reachable program init ⟨mem, Function.update pc c p⟩) (hrun : Alone program c mem p mem' p')
    : Reachable program init ⟨mem', Function.update pc c p'⟩ := by
  induction hrun with
  | refl => exact h
  | @step mem mem1 mem2 p p1 p2 hstep _ ih =>
    have hcore : program c mem (Function.update pc c p c) mem1 p1 := by
      rw [Function.update_self]
      exact hstep
    have hone := h.step (Step.core c hcore)
    rw [Function.update_idem] at hone
    exact ih hone

/--
The annotations of a program. Two places that are `apart` do not lay claim to the same thing.
-/
structure ProofOutline (program : Program Core Mem Place) where
  shared : Mem → Prop
  at' : Core → Mem → Place → Prop
  apart : Place → Place → Prop
  apart_symm : ∀ p q, apart p q → apart q p
  step : ∀ {c mem p mem' p'}, shared mem → at' c mem p → program c mem p mem' p' →
    shared mem' ∧ at' c mem' p'
  noninterference : ∀ {c d mem p mem' p' q}, c ≠ d → shared mem → at' c mem p → at' d mem q →
    apart p q → program c mem p mem' p' → at' d mem' q ∧ apart p' q

namespace ProofOutline

/-- All annotations hold. -/
structure Holds (outline : ProofOutline program) (s : Config Core Mem Place) : Prop where
  shared : outline.shared s.mem
  at' : ∀ c, outline.at' c s.mem (s.pc c)
  apart : ∀ c d, c ≠ d → outline.apart (s.pc c) (s.pc d)

variable {outline : ProofOutline program}

theorem Holds.step (h : outline.Holds s) (hstep : Step program s s') : outline.Holds s' := by
  cases hstep with
  | @core mem' p' c hcore =>
    rcases outline.step h.shared (h.at' c) hcore with ⟨hshared, hat⟩
    have hother (d : Core) (hd : d ≠ c)
        : outline.at' d mem' (s.pc d) ∧ outline.apart p' (s.pc d) :=
      outline.noninterference hd.symm h.shared (h.at' c) (h.at' d) (h.apart c d hd.symm) hcore
    refine ⟨hshared, ?_, ?_⟩
    . intro d
      by_cases hd : d = c
      . subst hd
        simpa using hat
      . simpa [hd] using (hother d hd).1
    . intro d e hde
      by_cases hd : d = c
      . subst hd
        simpa [hde.symm] using (hother e hde.symm).2
      . by_cases he : e = c
        . subst he
          simpa [hd] using outline.apart_symm _ _ (hother d hd).2
        . simpa [hd, he] using h.apart d e hde

theorem holds_of_reachable (outline : ProofOutline program)
    (hinit : ∀ s, init s → outline.Holds s) (h : Reachable program init s) : outline.Holds s := by
  induction h with
  | init h => exact hinit _ h
  | step _ hstep ih => exact ih.step hstep

end ProofOutline

/-- The states of the runs in which every step meets a condition. -/
inductive ReachableUnder (program : Program Core Mem Place) (init : Config Core Mem Place → Prop)
    (ok : Config Core Mem Place → Core → Prop) : Config Core Mem Place → Prop where
  | init {s : Config Core Mem Place} (h : init s) : ReachableUnder program init ok s
  | core {s : Config Core Mem Place} {mem' : Mem} {p' : Place} (c : Core)
      (h : ReachableUnder program init ok s) (hok : ok s c)
      (hcore : program c s.mem (s.pc c) mem' p')
      : ReachableUnder program init ok ⟨mem', Function.update s.pc c p'⟩

namespace ReachableUnder

variable {ok ok' : Config Core Mem Place → Core → Prop}

theorem reachable (h : ReachableUnder program init ok s) : Reachable program init s := by
  induction h with
  | init h => exact .init h
  | core c _ _ hcore ih => exact ih.step (.core c hcore)

theorem weaken (h : ReachableUnder program init ok s)
    (himp : ∀ t c, ReachableUnder program init ok' t → ok t c → ok' t c)
    : ReachableUnder program init ok' s := by
  induction h with
  | init h => exact .init h
  | core c _ hok hcore ih => exact .core c ih (himp _ c ih hok) hcore

theorem invariant (shared : Mem → Prop) (at' : Core → Mem → Place → Prop)
    (hinit : ∀ s, init s → shared s.mem ∧ ∀ c, at' c s.mem (s.pc c))
    (hstep : ∀ s c mem' p', shared s.mem → (∀ d, at' d s.mem (s.pc d)) → ok s c →
      program c s.mem (s.pc c) mem' p' →
      shared mem' ∧ at' c mem' p' ∧ ∀ d, d ≠ c → at' d mem' (s.pc d))
    (h : ReachableUnder program init ok s) : shared s.mem ∧ ∀ c, at' c s.mem (s.pc c) := by
  induction h with
  | init h => exact hinit _ h
  | core c _ hok hcore ih =>
    rcases hstep _ c _ _ ih.1 ih.2 hok hcore with ⟨hshared, hown, hother⟩
    refine ⟨hshared, ?_⟩
    intro d
    by_cases hd : d = c
    . subst hd
      simpa using hown
    . simpa [hd] using hother d hd

end ReachableUnder

end Interleaving
