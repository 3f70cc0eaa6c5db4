import Mathlib

/-!
This module contains doubly linked lists with a single pointer as their head. An element points back
to the pointer that points to it: the head of its list or the `next` of the element before. It also
contains the loop over such a list whose body may remove the current element.
-/

namespace HList

/-- A pointer. -/
inductive Ptr (β : Type) where
  | null
  | poison
  | addr (b : β)
  deriving DecidableEq, Repr

/-- The places in memory that hold a pointer to an element. -/
inductive Loc (κ α : Type) where
  | first (k : κ)
  | next (a : α)
  deriving DecidableEq, Repr

/-- The pointers to elements, and for every element the pointer back. -/
structure Links (κ α : Type) where
  load : Loc κ α → Ptr α
  pprev : α → Ptr (Loc κ α)

variable {κ α : Type}

/-- The pointer at a place leads through the elements of a list to null, and the elements back. -/
def Chain (m : Links κ α) : Loc κ α → List α → Prop
  | l, [] => m.load l = .null
  | l, a :: xs => m.load l = .addr a ∧ m.pprev a = .addr l ∧ Chain m (.next a) xs

def Lists (m : Links κ α) (chains : κ → List α) : Prop := ∀ k, Chain m (.first k) (chains k)

def start : List α → Ptr α
  | [] => .null
  | a :: _ => .addr a

def lastLoc : Loc κ α → List α → Loc κ α
  | l, [] => l
  | _, a :: xs => lastLoc (.next a) xs

section Operations

variable [DecidableEq κ] [DecidableEq α]

namespace Links

def init (m : Links κ α) (k : κ) : Links κ α :=
  { m with load := Function.update m.load (.first k) .null }

def store (m : Links κ α) (pprev : Ptr (Loc κ α)) (next : Ptr α) : Option (Links κ α) :=
  match pprev with
  | .addr l => some { m with load := Function.update m.load l next }
  | _ => none

def storePprev (m : Links κ α) (next : Ptr α) (pprev : Ptr (Loc κ α)) : Option (Links κ α) :=
  match next with
  | .null => some m
  | .poison => none
  | .addr a => some { m with pprev := Function.update m.pprev a pprev }

def addHead (m : Links κ α) (n : α) (k : κ) : Option (Links κ α) := do
  let first := m.load (.first k)
  let m := { m with load := Function.update m.load (.next n) first }
  let m ← m.storePprev first (.addr (.next n))
  some ⟨Function.update m.load (.first k) (.addr n), Function.update m.pprev n (.addr (.first k))⟩

def del (m : Links κ α) (n : α) : Option (Links κ α) := do
  let next := m.load (.next n)
  let pprev := m.pprev n
  let m ← m.store pprev next
  let m ← m.storePprev next pprev
  some ⟨Function.update m.load (.next n) .poison, Function.update m.pprev n .poison⟩

end Links

end Operations

section Chain

variable {m m' : Links κ α} {l : Loc κ α} {k k' : κ} {a : α} {xs ys ps qs ps' qs' : List α}

theorem Chain.congr (h : Chain m l xs) (hload : m'.load l = m.load l)
    (hnext : ∀ x ∈ xs, m'.load (.next x) = m.load (.next x))
    (hpprev : ∀ x ∈ xs, m'.pprev x = m.pprev x) : Chain m' l xs := by
  induction xs generalizing l with
  | nil => exact hload.trans h
  | cons a xs ih =>
    have ha := hpprev a (by simp)
    refine ⟨hload.trans h.1, ha.trans h.2.1, ?_⟩
    apply ih h.2.2
    . exact hnext a (by simp)
    . intro x hx
      exact hnext x (List.mem_cons_of_mem a hx)
    . intro x hx
      exact hpprev x (List.mem_cons_of_mem a hx)

theorem Chain.load_eq_start (h : Chain m l xs) : m.load l = start xs := by
  cases xs with
  | nil => exact h
  | cons a xs => exact h.1

@[simp]
theorem lastLoc_append (l : Loc κ α) (ps qs : List α)
    : lastLoc l (ps ++ qs) = lastLoc (lastLoc l ps) qs := by
  induction ps generalizing l with
  | nil => rfl
  | cons p ps ih => exact ih (.next p)

theorem lastLoc_mem (l : Loc κ α) (ps : List α)
    : lastLoc l ps = l ∨ ∃ p ∈ ps, lastLoc l ps = .next p := by
  induction ps generalizing l with
  | nil => exact .inl rfl
  | cons p ps ih =>
    right
    cases ih (.next p) with
    | inl heq => exact ⟨p, by simp, heq⟩
    | inr h =>
      rcases h with ⟨q, hq, heq⟩
      exact ⟨q, List.mem_cons_of_mem p hq, heq⟩

theorem Chain.drop (h : Chain m l (ps ++ qs)) : Chain m (lastLoc l ps) qs := by
  induction ps generalizing l with
  | nil => exact h
  | cons p ps ih => exact ih h.2.2

theorem Chain.pprev_eq (h : Chain m l (ps ++ a :: qs)) : m.pprev a = .addr (lastLoc l ps) :=
  h.drop.2.1

theorem Chain.load_next (h : Chain m l (ps ++ a :: qs)) : m.load (.next a) = start qs :=
  h.drop.2.2.load_eq_start

theorem Chain.split_unique (h : Chain m (.first k) (ps ++ a :: qs))
    (h' : Chain m (.first k') (ps' ++ a :: qs')) : k = k' ∧ ps = ps' := by
  induction ps using List.reverseRecOn generalizing a qs ps' qs' with
  | nil =>
    have heq := h.pprev_eq.symm.trans h'.pprev_eq
    cases ps' using List.reverseRecOn with
    | nil => simpa [lastLoc] using heq
    | append_singleton ps' p' => simp [lastLoc] at heq
  | append_singleton ps p ih =>
    have heq := h.pprev_eq.symm.trans h'.pprev_eq
    cases ps' using List.reverseRecOn with
    | nil => simp [lastLoc] at heq
    | append_singleton ps' p' =>
      have hp : p = p' := by simpa [lastLoc] using heq
      subst hp
      rw [List.append_assoc] at h h'
      have hps := ih h h'
      exact ⟨hps.1, by rw [hps.2]⟩

theorem Chain.nodup_prefix (h : Chain m (.first k) (ps ++ qs)) : ps.Nodup := by
  induction ps using List.reverseRecOn generalizing qs with
  | nil => exact List.nodup_nil
  | append_singleton ps p ih =>
    rw [List.append_assoc] at h
    have hp : p ∉ ps := by
      intro hmem
      rcases List.append_of_mem hmem with ⟨ps1, ps2, rfl⟩
      have h1 := h
      rw [List.append_assoc] at h1
      have hps := (h.split_unique h1).2
      simp at hps
    rw [List.nodup_append_comm, List.singleton_append, List.nodup_cons]
    exact ⟨hp, ih h⟩

theorem Chain.nodup (h : Chain m (.first k) xs) : xs.Nodup := by
  have happend : Chain m (.first k) (xs ++ []) := by
    rw [List.append_nil]
    exact h
  exact happend.nodup_prefix

theorem Chain.not_mem (h : Chain m (.first k) (ps ++ a :: qs)) : a ∉ ps ∧ a ∉ qs := by
  have hnodup := List.nodup_middle.mp h.nodup
  rw [List.nodup_cons, List.mem_append, not_or] at hnodup
  exact hnodup.1

theorem Chain.lastLoc_ne (h : Chain m (.first k) (ps ++ a :: qs))
    : lastLoc (.first k) ps ≠ .next a := by
  cases lastLoc_mem (.first k) ps with
  | inl heq => simp [heq]
  | inr hex =>
    rcases hex with ⟨p, hp, heq⟩
    have hne : p ≠ a := ne_of_mem_of_not_mem hp h.not_mem.1
    simpa [heq] using hne

theorem Chain.head_unique (h : Chain m (.first k) xs) (h' : Chain m (.first k') ys) (ha : a ∈ xs)
    (ha' : a ∈ ys) : k = k' := by
  rcases List.append_of_mem ha with ⟨ps, qs, rfl⟩
  rcases List.append_of_mem ha' with ⟨ps', qs', rfl⟩
  exact (h.split_unique h').1

end Chain

/-- What a removal changes: `a` was at the place `l`, and `xs` behind it. -/
structure Removed (m : Links κ α) (l : Loc κ α) (a : α) (xs : List α) (m' : Links κ α) : Prop where
  load_place : m'.load l = start xs
  load_other : ∀ l', l' ≠ l → l' ≠ .next a → m'.load l' = m.load l'
  pprev_start : ∀ b ∈ xs.head?, m'.pprev b = .addr l
  pprev_other : ∀ b, b ≠ a → b ∉ xs.head? → m'.pprev b = m.pprev b

/-- What an insertion behind the head `k` changes, `xs` was the list before. -/
structure Added (m : Links κ α) (k : κ) (a : α) (xs : List α) (m' : Links κ α) : Prop where
  load_head : m'.load (.first k) = .addr a
  load_next : m'.load (.next a) = start xs
  load_other : ∀ l, l ≠ .first k → l ≠ .next a → m'.load l = m.load l
  pprev_new : m'.pprev a = .addr (.first k)
  pprev_start : ∀ b ∈ xs.head?, m'.pprev b = .addr (.next a)
  pprev_other : ∀ b, b ≠ a → b ∉ xs.head? → m'.pprev b = m.pprev b

theorem Removed.chain_other {m m' : Links κ α} {l l' : Loc κ α} {a : α} {xs ys : List α}
    (h : Removed m l a xs m') (hys : Chain m l' ys) (hl' : l' ≠ l) (ha : l' ≠ .next a)
    (hother : ∀ y ∈ ys, .next y ≠ l ∧ y ≠ a ∧ y ∉ xs.head?) : Chain m' l' ys := by
  apply hys.congr
  . exact h.load_other l' hl' ha
  . intro y hy
    have hy := hother y hy
    exact h.load_other (.next y) hy.1 (by simpa using hy.2.1)
  . intro y hy
    have hy := hother y hy
    exact h.pprev_other y hy.2.1 hy.2.2

theorem Added.chain_other {m m' : Links κ α} {l : Loc κ α} {k : κ} {a : α} {xs ys : List α}
    (h : Added m k a xs m') (hys : Chain m l ys) (hl : l ≠ .first k) (ha : l ≠ .next a)
    (hother : ∀ y ∈ ys, y ≠ a ∧ y ∉ xs.head?) : Chain m' l ys := by
  apply hys.congr
  . exact h.load_other l hl ha
  . intro y hy
    have hy := hother y hy
    exact h.load_other (.next y) (by simp) (by simpa using hy.1)
  . intro y hy
    have hy := hother y hy
    exact h.pprev_other y hy.1 hy.2

theorem Added.chain {m m' : Links κ α} {k : κ} {a : α} {xs : List α}
    (hm' : Added m k a xs m') (h : Chain m (.first k) xs) (ha : a ∉ xs)
    : Chain m' (.first k) (a :: xs) := by
  refine ⟨hm'.load_head, hm'.pprev_new, ?_⟩
  have hnodup := h.nodup
  cases xs with
  | nil => exact hm'.load_next
  | cons b xs =>
    refine ⟨hm'.load_next, hm'.pprev_start b (by simp), ?_⟩
    have hba : b ≠ a := ne_of_mem_of_not_mem (List.mem_cons_self ..) ha
    apply hm'.chain_other h.2.2 (by simp) (by simpa using hba)
    intro y hy
    have hya : y ≠ a := ne_of_mem_of_not_mem (List.mem_cons_of_mem b hy) ha
    have hyb : y ≠ b := ne_of_mem_of_not_mem hy (List.nodup_cons.mp hnodup).1
    exact ⟨hya, by simpa using hyb.symm⟩

theorem Removed.chain {m m' : Links κ α} {l : Loc κ α} {a : α} {ps qs : List α}
    (hm' : Removed m (lastLoc l ps) a qs m') (h : Chain m l (ps ++ a :: qs))
    (hnodup : (ps ++ a :: qs).Nodup) (hl : ∀ x ∈ ps ++ a :: qs, l ≠ .next x)
    : Chain m' l (ps ++ qs) := by
  induction ps generalizing l with
  | nil =>
    rw [List.nil_append] at h hnodup hl
    rw [List.nodup_cons] at hnodup
    cases qs with
    | nil => exact hm'.load_place
    | cons b qs =>
      refine ⟨hm'.load_place, hm'.pprev_start b (by simp), ?_⟩
      have hb := List.nodup_cons.mp hnodup.2
      apply hm'.chain_other h.2.2.2.2
      . exact (hl b (by simp)).symm
      . have hne : b ≠ a := ne_of_mem_of_not_mem (by simp) hnodup.1
        simpa using hne
      . intro y hy
        have hyl := hl y (List.mem_cons_of_mem a (List.mem_cons_of_mem b hy))
        have hya : y ≠ a := ne_of_mem_of_not_mem (List.mem_cons_of_mem b hy) hnodup.1
        have hyb : y ≠ b := ne_of_mem_of_not_mem hy hb.1
        exact ⟨hyl.symm, hya, by simpa using hyb.symm⟩
  | cons p ps ih =>
    rw [List.cons_append] at h hnodup hl
    rw [List.nodup_cons] at hnodup
    have ha : a ∈ ps ++ a :: qs := by simp
    have hpa : p ≠ a := (ne_of_mem_of_not_mem ha hnodup.1).symm
    refine ⟨?_, ?_, ?_⟩
    . rw [hm'.load_other, h.1]
      . cases lastLoc_mem (.next p) ps with
        | inl heq =>
          rw [lastLoc, heq]
          exact hl p (by simp)
        | inr hex =>
          rcases hex with ⟨q, hq, heq⟩
          rw [lastLoc, heq]
          exact hl q (by simp [hq])
      . exact hl a (List.mem_cons_of_mem p ha)
    . rw [hm'.pprev_other p hpa, h.2.1]
      intro hp
      apply hnodup.1
      simp [List.mem_of_mem_head? hp]
    . apply ih hm' h.2.2 hnodup.2
      intro x hx heq
      have hpx : p = x := by simpa using heq
      subst hpx
      exact hnodup.1 hx

theorem Links.storePprev_start [DecidableEq α] (m : Links κ α) (xs : List α)
    (pprev : Ptr (Loc κ α))
    : ∃ m', m.storePprev (start xs) pprev = some m'
        ∧ m'.load = m.load
        ∧ (∀ b ∈ xs.head?, m'.pprev b = pprev)
        ∧ ∀ b, b ∉ xs.head? → m'.pprev b = m.pprev b := by
  cases xs with
  | nil => exact ⟨m, rfl, rfl, by simp, by simp⟩
  | cons a xs =>
    refine ⟨{ m with pprev := Function.update m.pprev a pprev }, rfl, rfl, by simp, ?_⟩
    intro b hb
    have hne : b ≠ a := by
      rintro rfl
      simp at hb
    simp [hne]

section Specs

variable [DecidableEq κ] [DecidableEq α] {m : Links κ α} {l : Loc κ α} {k : κ} {a : α}
  {xs : List α}

theorem Links.del_spec (h : Chain m l (a :: xs)) (hl : l ≠ .next a) (ha : a ∉ xs)
    : ∃ m', m.del a = some m' ∧ Removed m l a xs m' := by
  rcases h with ⟨-, hpprev, htail⟩
  have hnext := htail.load_eq_start
  rcases storePprev_start { m with load := Function.update m.load l (start xs) } xs (.addr l)
    with ⟨m', hm', hload, hstart, hother⟩
  refine ⟨⟨Function.update m'.load (.next a) .poison, Function.update m'.pprev a .poison⟩, ?_, ?_⟩
  . simp [del, hpprev, hnext, store, hm']
  . constructor
    . simp [hload, hl]
    . intro l' hne hne'
      simp [hload, hne, hne']
    . intro b hb
      have hne : b ≠ a := ne_of_mem_of_not_mem (List.mem_of_mem_head? hb) ha
      simp [hne, hstart b hb]
    . intro b hne hb
      simp [hne, hother b hb]

theorem Links.addHead_spec (h : Chain m (.first k) xs) (ha : a ∉ xs)
    : ∃ m', m.addHead a k = some m' ∧ Added m k a xs m' := by
  have hfirst := h.load_eq_start
  rcases storePprev_start { m with load := Function.update m.load (.next a) (start xs) } xs
    (.addr (.next a)) with ⟨m', hm', hload, hstart, hother⟩
  refine ⟨⟨Function.update m'.load (.first k) (.addr a),
    Function.update m'.pprev a (.addr (.first k))⟩, ?_, ?_⟩
  . simp [addHead, hfirst, hm']
  . constructor
    . simp
    . simp [hload]
    . intro l hne hne'
      simp [hload, hne, hne']
    . simp
    . intro b hb
      have hne : b ≠ a := ne_of_mem_of_not_mem (List.mem_of_mem_head? hb) ha
      simp [hne, hstart b hb]
    . intro b hne hb
      simp [hne, hother b hb]

end Specs

namespace Lists

variable {m m' : Links κ α} {chains : κ → List α} {k : κ} {a : α} {ps qs : List α}

theorem not_mem_of_ne {k k' : κ} (h : Lists m chains) (ha : a ∈ chains k) (hne : k' ≠ k)
    : a ∉ chains k' := fun ha' => hne ((h k').head_unique (h k) ha' ha)

theorem lastLoc_ne (h : Lists m chains) (hchain : chains k = ps ++ qs) {k' : κ} (hne : k' ≠ k)
    : .first k' ≠ lastLoc (.first k) ps ∧ ∀ x ∈ chains k', .next x ≠ lastLoc (.first k) ps := by
  cases lastLoc_mem (.first k) ps with
  | inl heq =>
    rw [heq]
    exact ⟨by simpa using hne, fun x _ => by simp⟩
  | inr hex =>
    rcases hex with ⟨p, hp, heq⟩
    have hmem : p ∈ chains k := by
      rw [hchain]
      exact List.mem_append_left qs hp
    rw [heq]
    refine ⟨by simp, ?_⟩
    intro x hx heq
    have hxp : x = p := by simpa using heq
    subst hxp
    exact h.not_mem_of_ne hmem hne hx

variable [DecidableEq κ]

theorem init [DecidableEq α] (h : ∀ k', k' ≠ k → Chain m (.first k') (chains k'))
    : Lists (m.init k) (Function.update chains k []) := by
  intro k'
  by_cases hne : k' = k
  . subst hne
    rw [Function.update_self]
    simp [Chain, Links.init]
  . rw [Function.update_of_ne hne]
    apply (h k' hne).congr <;> simp [Links.init, hne]

variable [DecidableEq α]

theorem del (h : Lists m chains) (hchain : chains k = ps ++ a :: qs)
    : ∃ m', m.del a = some m'
        ∧ Lists m' (Function.update chains k (ps ++ qs))
        ∧ ∀ k', a ∉ Function.update chains k (ps ++ qs) k' := by
  have hk := h k
  rw [hchain] at hk
  have hmem : a ∈ chains k := by simp [hchain]
  rcases Links.del_spec hk.drop hk.lastLoc_ne hk.not_mem.2 with ⟨m', hm', hremoved⟩
  refine ⟨m', hm', ?_, ?_⟩
  . intro k'
    by_cases hne : k' = k
    . subst hne
      rw [Function.update_self]
      exact hremoved.chain hk hk.nodup (by simp)
    . have hplace := h.lastLoc_ne hchain hne
      rw [Function.update_of_ne hne]
      apply hremoved.chain_other (h k') hplace.1 (by simp)
      intro y hy
      have hyk := h.not_mem_of_ne hy (Ne.symm hne)
      rw [hchain, List.mem_append, List.mem_cons] at hyk
      refine ⟨hplace.2 y hy, ?_, ?_⟩
      . tauto
      . intro hy'
        have := List.mem_of_mem_head? hy'
        tauto
  . intro k'
    by_cases hne : k' = k
    . subst hne
      rw [Function.update_self, List.mem_append, not_or]
      exact hk.not_mem
    . rw [Function.update_of_ne hne]
      exact h.not_mem_of_ne hmem hne

theorem addHead (h : Lists m chains) (ha : ∀ k', a ∉ chains k') (k : κ)
    : ∃ m', m.addHead a k = some m' ∧ Lists m' (Function.update chains k (a :: chains k)) := by
  rcases Links.addHead_spec (h k) (ha k) with ⟨m', hm', hadded⟩
  refine ⟨m', hm', ?_⟩
  intro k'
  by_cases hne : k' = k
  . subst hne
    rw [Function.update_self]
    exact hadded.chain (h k') (ha k')
  . rw [Function.update_of_ne hne]
    apply hadded.chain_other (h k') (by simpa using hne) (by simp)
    intro y hy
    have hya : y ≠ a := ne_of_mem_of_not_mem hy (ha k')
    have hyk := h.not_mem_of_ne hy (Ne.symm hne)
    refine ⟨hya, ?_⟩
    intro hy'
    exact hyk (List.mem_of_mem_head? hy')

end Lists

def forEachSafe {σ : Type} (links : σ → Links κ α) (body : α → σ → Option σ)
    : Nat → Ptr α → σ → Option σ
  | _, .null, s => some s
  | fuel + 1, .addr pos, s => do
    let n := (links s).load (.next pos)
    let s ← body pos s
    forEachSafe links body fuel n s
  | _, _, _ => none

theorem forEachSafe_spec {σ : Type} {links : σ → Links κ α} {body : α → σ → Option σ}
    (I : List α → List α → σ → Prop)
    (hnext : ∀ done pos rest s, I done (pos :: rest) s → (links s).load (.next pos) = start rest)
    (hbody : ∀ done pos rest s, I done (pos :: rest) s
      → ∃ s', body pos s = some s' ∧ I (done ++ [pos]) rest s')
    {done rest : List α} {s : σ} (h : I done rest s)
    : ∃ s', (∀ fuel, rest.length ≤ fuel → forEachSafe links body fuel (start rest) s = some s')
        ∧ I (done ++ rest) [] s' := by
  induction rest generalizing done s with
  | nil =>
    refine ⟨s, ?_, ?_⟩
    . intro fuel _
      cases fuel <;> rfl
    . rwa [List.append_nil]
  | cons pos rest ih =>
    rcases hbody done pos rest s h with ⟨s1, hs1, h1⟩
    rcases ih h1 with ⟨s', hs', h'⟩
    refine ⟨s', ?_, ?_⟩
    . intro fuel hfuel
      cases fuel with
      | zero => simp at hfuel
      | succ fuel =>
        rw [start, forEachSafe, hnext done pos rest s h, hs1]
        exact hs' fuel (Nat.le_of_succ_le_succ hfuel)
    . rw [List.append_assoc] at h'
      exact h'

end HList
