import SecFw.Acl.SegPoints
import SecFw.Cells.Basic

/-!
This module contains the loop that collects the different end points of a dimension, over the
accesses to the arrays that the functions which contain the loop make.
-/

namespace SecFw.Acl

structure TableOps (σ : Type) where
  -- Compare point `num` of the array with the entry `pos` of the table
  same : σ → Nat → Nat → Option Bool
  flag : σ → Nat → Option Nat
  setFlag : σ → Nat → Nat → Option σ
  -- Copy point `num` of the array to the entry `pos` of the table
  assign : σ → Nat → Nat → Option σ

structure Points (σ : Type) where
  table : σ
  diffSegPts : Nat
  diffSegPts_All : Nat

namespace TableOps

variable {σ : Type} (ops : TableOps σ)

def findPoint (num : Nat) : Nat → Nat → σ → Option (σ × Option Nat)
  | _, 0, table => some (table, none)
  | pos, left + 1, table => do
    if ← ops.same table num pos then
      let flag ← ops.flag table pos
      if flag = 3 ∨ flag = (num &&& 1) + 1 then
        some (table, some 0)
      else if flag ||| ((num &&& 1) + 1) ≠ 3 then
        none
      else
        let table ← ops.setFlag table pos 3
        some (table, some 1)
    else
      findPoint num (pos + 1) left table

def step (s : Points σ) (num : Nat) : Option (Points σ) := do
  let (table, found) ← ops.findPoint num 0 s.diffSegPts s.table
  match found with
  | some inc => some ⟨table, s.diffSegPts, s.diffSegPts_All + inc⟩
  | none =>
    let table ← ops.assign table s.diffSegPts num
    let table ← ops.setFlag table s.diffSegPts ((num &&& 1) + 1)
    some ⟨table, s.diffSegPts + 1, s.diffSegPts_All + 1⟩

def loop (count : Nat) (table : σ) : Option (Points σ) :=
  (List.range' 1 (count - 1)).foldlM ops.step ⟨table, 1, 1⟩

def collect (count : Nat) (table : σ) : Option (Points σ) := do
  let table ← ops.assign table 0 0
  let table ← ops.setFlag table 0 1
  ops.loop count table

structure Implements (points : List (Words n)) (cap : Nat)
    (Rep : σ → List (SegmentPt n) → Prop) : Prop where
  same : ∀ {t es num pos p e}, Rep t es → points[num]? = some p → es[pos]? = some e
    → ops.same t num pos = some (decide (p = e.segmentpoint))
  flag : ∀ {t es pos e}, Rep t es → es[pos]? = some e → ops.flag t pos = some e.flag
  setFlag : ∀ {t pre suf e}, Rep t (pre ++ e :: suf) → ∀ f,
    ∃ t', ops.setFlag t pre.length f = some t' ∧ Rep t' (pre ++ { e with flag := f } :: suf)
  push : ∀ {t es num p}, Rep t es → es.length < cap → points[num]? = some p → ∀ f,
    ∃ t' t'', ops.assign t es.length num = some t' ∧ ops.setFlag t' es.length f = some t''
      ∧ Rep t'' (es ++ [⟨p, f⟩])

variable {ops}

theorem step_diffSegPts_le {s s' : Points σ} {num : Nat} (h : ops.step s num = some s')
    : s.diffSegPts ≤ s'.diffSegPts := by
  simp only [step, Option.bind_eq_bind, Option.bind_eq_some_iff] at h
  rcases h with ⟨⟨table, found⟩, -, h⟩
  cases found with
  | some inc =>
    cases h
    exact le_rfl
  | none =>
    simp only [Option.bind_eq_some_iff] at h
    rcases h with ⟨table', -, table'', -, h⟩
    cases h
    exact Nat.le_succ _

theorem foldlM_step_diffSegPts_le {nums : List Nat} {s s' : Points σ}
    (h : nums.foldlM ops.step s = some s') : s.diffSegPts ≤ s'.diffSegPts := by
  induction nums generalizing s with
  | nil =>
    cases h
    exact le_rfl
  | cons num nums ih =>
    simp only [List.foldlM_cons, Option.bind_eq_bind, Option.bind_eq_some_iff] at h
    rcases h with ⟨s1, hstep, h⟩
    exact (step_diffSegPts_le hstep).trans (ih h)

theorem loop_diffSegPts_pos {count : Nat} {table : σ} {s : Points σ}
    (h : ops.loop count table = some s) : 0 < s.diffSegPts :=
  foldlM_step_diffSegPts_le h

end TableOps

structure Tracks {σ : Type} (Rep : σ → List (SegmentPt n) → Prop) (s : Points σ)
    (acc : List (SegmentPt n) × Nat) : Prop where
  table : Rep s.table acc.1
  diffSegPts : s.diffSegPts = acc.1.length
  diffSegPts_All : s.diffSegPts_All = acc.2

section Grow

variable {cmp : Words n → Words n → Int} {p : Words n} {kind inc num : Nat}
  {es es' : List (SegmentPt n)} {acc acc' : List (SegmentPt n) × Nat} {ps : List (Words n)}

theorem markPoint_length (h : markPoint cmp p kind es = some (es', inc))
    : es.length ≤ es'.length ∧ es'.length ≤ es.length + 1 := by
  induction es generalizing es' inc with
  | nil =>
    cases h
    simp
  | cons q qs ih =>
    unfold markPoint at h
    split at h
    . split at h
      . cases h
        simp
      . split at h
        . simp at h
        . cases h
          simp
    . simp only [Option.bind_eq_bind, Option.bind_eq_some_iff] at h
      rcases h with ⟨⟨qs', inc'⟩, hmark, h⟩
      cases h
      simpa using ih hmark

theorem scanPoints_length (h : scanPoints cmp num ps acc = some acc')
    : acc.1.length ≤ acc'.1.length ∧ acc'.1.length ≤ acc.1.length + ps.length := by
  induction ps generalizing acc num with
  | nil =>
    cases h
    simp
  | cons p ps ih =>
    rcases acc with ⟨temp, all⟩
    simp only [scanPoints, Option.bind_eq_bind, Option.bind_eq_some_iff] at h
    rcases h with ⟨⟨temp', inc⟩, hmark, h⟩
    have hstep := markPoint_length hmark
    have hrest := ih h
    simp only [List.length_cons] at hrest ⊢
    omega

theorem collectPoints_length_le (h : collectPoints cmp ps = some acc)
    : acc.1.length ≤ ps.length := by
  cases ps with
  | nil => simp [collectPoints] at h
  | cons p ps =>
    have := (scanPoints_length h).2
    simp only [List.length_cons, List.length_nil] at this ⊢
    omega

end Grow

section Refines

variable {σ : Type} {ops : TableOps σ} {points : List (Words n)} {cap : Nat}
  {Rep : σ → List (SegmentPt n) → Prop}

theorem TableOps.Implements.findPoint (h : ops.Implements points cap Rep) {num inc : Nat}
    {p : Words n} (hp : points[num]? = some p) {pre suf suf' : List (SegmentPt n)} {t : σ}
    (hrep : Rep t (pre ++ suf))
    (hmark : markPoint segPointCompare64128 p ((num &&& 1) + 1) suf = some (suf', inc))
    : (ops.findPoint num pre.length suf.length t = some (t, none)
        ∧ suf' = suf ++ [⟨p, (num &&& 1) + 1⟩] ∧ inc = 1)
      ∨ ∃ t', ops.findPoint num pre.length suf.length t = some (t', some inc)
        ∧ suf'.length = suf.length ∧ Rep t' (pre ++ suf') := by
  induction suf generalizing pre suf' inc with
  | nil =>
    cases hmark
    exact Or.inl ⟨rfl, rfl, rfl⟩
  | cons e suf ih =>
    have hentry : (pre ++ e :: suf)[pre.length]? = some e := by simp
    have hsame := h.same hrep hp hentry
    have hflag := h.flag hrep hentry
    simp only [List.length_cons, TableOps.findPoint, hsame, Option.bind_eq_bind, Option.bind_some,
      decide_eq_true_eq]
    simp only [markPoint, segPointCompare64128_eq_zero] at hmark
    split at hmark
    . next heq =>
      right
      simp only [if_pos heq, hflag, Option.bind_some]
      split at hmark
      . next hkept =>
        cases hmark
        exact ⟨t, by rw [if_pos hkept], rfl, hrep⟩
      . next hkept =>
        split at hmark
        . simp at hmark
        . next hboth =>
          cases hmark
          rcases h.setFlag hrep 3 with ⟨t', hset, hrep'⟩
          refine ⟨t', ?_, by simp, hrep'⟩
          rw [if_neg hkept, if_neg hboth, hset, Option.bind_some]
    . next hne =>
      simp only [Option.bind_eq_bind, Option.bind_eq_some_iff] at hmark
      rcases hmark with ⟨⟨qs, inc'⟩, hmark, heq⟩
      cases heq
      simp only [if_neg hne]
      have hassoc (l : List (SegmentPt n)) : pre ++ e :: l = (pre ++ [e]) ++ l := by simp
      rw [hassoc] at hrep
      have hlen : pre.length + 1 = (pre ++ [e]).length := by simp
      rw [hlen]
      rcases ih hrep hmark with ⟨hfind, rfl, rfl⟩ | ⟨t', hfind, hlength, hrep'⟩
      . exact Or.inl ⟨hfind, rfl, rfl⟩
      . exact Or.inr ⟨t', hfind, by simp [hlength], by rwa [hassoc]⟩

theorem TableOps.Implements.step (h : ops.Implements points cap Rep) {num inc all : Nat}
    {p : Words n} (hp : points[num]? = some p) {s : Points σ} {es es' : List (SegmentPt n)}
    (htracks : Tracks Rep s (es, all))
    (hmark : markPoint segPointCompare64128 p ((num &&& 1) + 1) es = some (es', inc))
    (hcap : es'.length ≤ cap)
    : ∃ s', ops.step s num = some s' ∧ Tracks Rep s' (es', all + inc) := by
  rcases s with ⟨t, diffSegPts, diffSegPts_All⟩
  rcases htracks with ⟨hrep, hdiff, hall⟩
  simp only at hrep hdiff hall
  subst hdiff hall
  have hstart : Rep t ([] ++ es) := hrep
  rcases h.findPoint hp hstart hmark with
    ⟨hfind, rfl, rfl⟩ | ⟨t', hfind, hlength, hrep'⟩
  . rw [List.length_append, List.length_singleton] at hcap
    rcases h.push hrep hcap hp ((num &&& 1) + 1) with ⟨t', t'', hassign, hset, hrep'⟩
    rw [List.length_nil] at hfind
    refine ⟨⟨t'', es.length + 1, diffSegPts_All + 1⟩, ?_, hrep', by simp, rfl⟩
    simp only [TableOps.step, hfind, Option.bind_eq_bind, Option.bind_some, hassign, hset]
  . rw [List.length_nil] at hfind
    refine ⟨⟨t', es.length, diffSegPts_All + inc⟩, ?_, hrep', hlength.symm, rfl⟩
    simp only [TableOps.step, hfind, Option.bind_eq_bind, Option.bind_some]

theorem TableOps.Implements.scan (h : ops.Implements points cap Rep) (num : Nat)
    {ps : List (Words n)} (hps : points.drop num = ps) {s : Points σ}
    {acc acc' : List (SegmentPt n) × Nat} (htracks : Tracks Rep s acc)
    (hscan : scanPoints segPointCompare64128 num ps acc = some acc') (hcap : acc'.1.length ≤ cap)
    : ∃ s', (List.range' num ps.length).foldlM ops.step s = some s' ∧ Tracks Rep s' acc' := by
  induction ps generalizing num s acc with
  | nil =>
    cases hscan
    exact ⟨s, rfl, htracks⟩
  | cons p ps ih =>
    rcases acc with ⟨es, all⟩
    simp only [scanPoints, Option.bind_eq_bind, Option.bind_eq_some_iff] at hscan
    rcases hscan with ⟨⟨es', inc⟩, hmark, hscan⟩
    have hp : points[num]? = some p := by
      rw [← Nat.add_zero num, ← List.getElem?_drop, hps]
      rfl
    have hrest : points.drop (num + 1) = ps := by
      rw [← List.drop_drop, hps]
      rfl
    have hlen := (scanPoints_length hscan).1
    rcases h.step hp htracks hmark (hlen.trans hcap) with ⟨s1, hstep, htracks1⟩
    rcases ih (num + 1) hrest htracks1 hscan with ⟨s', hrun, htracks'⟩
    refine ⟨s', ?_, htracks'⟩
    rw [List.length_cons, List.range'_succ, List.foldlM_cons, hstep]
    exact hrun

theorem TableOps.Implements.loop (h : ops.Implements points cap Rep)
    {acc : List (SegmentPt n) × Nat} {p : Words n} {t : σ} (hp : points.head? = some p)
    (hrep : Rep t [⟨p, 1⟩])
    (hcollect : collectPoints segPointCompare64128 points = some acc) (hcap : acc.1.length ≤ cap)
    : ∃ s, ops.loop points.length t = some s ∧ Tracks Rep s acc := by
  cases points with
  | nil => simp at hp
  | cons q ps =>
    cases hp
    exact h.scan 1 rfl ⟨hrep, rfl, rfl⟩ hcollect hcap

theorem TableOps.Implements.collect (h : ops.Implements points cap Rep)
    {acc : List (SegmentPt n) × Nat} {t : σ} (hrep : Rep t [])
    (hcollect : collectPoints segPointCompare64128 points = some acc) (hcap : acc.1.length ≤ cap)
    : ∃ s, ops.collect points.length t = some s ∧ Tracks Rep s acc := by
  cases points with
  | nil => simp [collectPoints] at hcollect
  | cons p ps =>
    have hone : 1 ≤ acc.1.length := (scanPoints_length hcollect).1
    have hp : (p :: ps)[0]? = some p := rfl
    rcases h.push hrep (by rw [List.length_nil]; omega) hp 1 with ⟨t', t'', hassign, hset, hrep'⟩
    rcases h.loop rfl hrep' hcollect hcap with ⟨s, hloop, htracks⟩
    refine ⟨s, ?_, htracks⟩
    rw [List.length_nil] at hassign hset
    simp only [TableOps.collect, hassign, hset, Option.bind_eq_bind, Option.bind_some, hloop]

end Refines

end SecFw.Acl
