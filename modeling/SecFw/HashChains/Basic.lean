import Mathlib

/-!
This module contains hash tables with chained buckets: the search of a bucket, which leaves the
found entry open for a change, and the invariant that every entry lies in the bucket of its key and
that no other entry has this key.
-/

namespace HashChains

variable {κ β α : Type}

abbrev Chains (β α : Type) : Type := β → List α

/-- A list that is open at one of its entries. -/
structure Focus (α : Type) where
  before : List α
  entry : α
  after : List α

def Focus.plug (focus : Focus α) : List α := focus.before ++ focus.entry :: focus.after

def Focus.set (focus : Focus α) (entry : α) : Focus α := { focus with entry := entry }

def find (p : α → Bool) : List α → Option (Focus α)
  | [] => none
  | a :: rest =>
    if p a then
      some ⟨[], a, rest⟩
    else
      (find p rest).map fun focus => { focus with before := a :: focus.before }

section Find

variable {p : α → Bool} {l : List α} {focus : Focus α} {a b : α}

theorem mem_plug : b ∈ focus.plug ↔ b ∈ focus.before ∨ b = focus.entry ∨ b ∈ focus.after := by
  simp [Focus.plug]

theorem find_eq_some (h : find p l = some focus) : focus.plug = l ∧ p focus.entry = true := by
  induction l generalizing focus with
  | nil => simp [find] at h
  | cons a rest ih =>
    rw [find] at h
    split at h
    . next ha =>
      cases h
      exact ⟨rfl, ha⟩
    . rw [Option.map_eq_some_iff] at h
      rcases h with ⟨focus', hfind, rfl⟩
      rcases ih hfind with ⟨hplug, hp⟩
      refine ⟨?_, hp⟩
      simpa [Focus.plug] using hplug

theorem find_eq_none (h : find p l = none) : ∀ a ∈ l, p a = false := by
  induction l with
  | nil => simp
  | cons a rest ih =>
    rw [find] at h
    split at h
    . cases h
    . next ha =>
      rw [Option.map_eq_none_iff] at h
      intro b hb
      cases hb with
      | head => simpa using ha
      | tail _ hb => exact ih h b hb

end Find

/-- Every entry lies in the bucket of its key, and no two entries of a bucket have one key. -/
structure Placed (hash : κ → β) (key : α → κ) (chains : Chains β α) : Prop where
  bucket : ∀ b, ∀ a ∈ chains b, hash (key a) = b
  nodup : ∀ b, ((chains b).map key).Nodup

def AtMostOne (key : α → κ) (chains : Chains β α) : Prop :=
  ∀ (b b' : β) (i i' : Nat) (a a' : α), (chains b)[i]? = some a → (chains b')[i']? = some a' →
    key a = key a' → b = b' ∧ i = i'

namespace Placed

variable {hash : κ → β} {key : α → κ} {chains : Chains β α}

theorem empty : Placed hash key (fun _ => [] : Chains β α) := by
  constructor
  . intro b a ha
    cases ha
  . intro b
    exact List.nodup_nil

theorem atMostOne (h : Placed hash key chains) : AtMostOne key chains := by
  intro b b' i i' a a' ha ha' hkey
  have hb := h.bucket b a (List.mem_of_getElem? ha)
  have hb' := h.bucket b' a' (List.mem_of_getElem? ha')
  have heq : b = b' := by rw [← hb, ← hb', hkey]
  subst heq
  refine ⟨rfl, ?_⟩
  have hi : ((chains b).map key)[i]? = some (key a) := by simp [ha]
  have hi' : ((chains b).map key)[i']? = some (key a) := by simp [ha', hkey]
  have hlt := (List.getElem?_eq_some_iff.mp hi).1
  exact (List.getElem?_inj hlt (h.nodup b)).mp (hi.trans hi'.symm)

theorem sublist {chains' : Chains β α} (h : Placed hash key chains)
    (hsub : ∀ b, (chains' b).Sublist (chains b)) : Placed hash key chains' := by
  constructor
  . intro b a ha
    exact h.bucket b a ((hsub b).mem ha)
  . intro b
    exact (h.nodup b).sublist ((hsub b).map key)

variable [DecidableEq β]

theorem insert (h : Placed hash key chains) (a : α)
    (ha : ∀ x ∈ chains (hash (key a)), key x ≠ key a)
    : Placed hash key
        (Function.update chains (hash (key a)) (a :: chains (hash (key a)))) := by
  constructor
  . intro b x hx
    by_cases hb : b = hash (key a)
    . subst hb
      rw [Function.update_self, List.mem_cons] at hx
      cases hx with
      | inl hx => rw [hx]
      | inr hx => exact h.bucket _ x hx
    . rw [Function.update_of_ne hb] at hx
      exact h.bucket b x hx
  . intro b
    by_cases hb : b = hash (key a)
    . subst hb
      rw [Function.update_self, List.map_cons, List.nodup_cons]
      refine ⟨?_, h.nodup _⟩
      intro hmem
      rcases List.mem_map.mp hmem with ⟨x, hx, hkey⟩
      exact ha x hx hkey
    . rw [Function.update_of_ne hb]
      exact h.nodup b

theorem set {b : β} {focus : Focus α} {a : α} (h : Placed hash key chains)
    (hplug : focus.plug = chains b) (hkey : key a = key focus.entry)
    : Placed hash key (Function.update chains b (focus.set a).plug) := by
  have hkeys : (focus.set a).plug.map key = (chains b).map key := by
    rw [← hplug]
    simp [Focus.plug, Focus.set, hkey]
  constructor
  . intro b' x hx
    by_cases hb : b' = b
    . subst hb
      rw [Function.update_self] at hx
      have hmem : key x ∈ (chains b').map key := by
        rw [← hkeys]
        exact List.mem_map_of_mem hx
      rcases List.mem_map.mp hmem with ⟨y, hy, hxy⟩
      rw [← hxy]
      exact h.bucket b' y hy
    . rw [Function.update_of_ne hb] at hx
      exact h.bucket b' x hx
  . intro b'
    by_cases hb : b' = b
    . subst hb
      rw [Function.update_self, hkeys]
      exact h.nodup b'
    . rw [Function.update_of_ne hb]
      exact h.nodup b'

end Placed

section Total

variable [Fintype β] {weight : α → Nat} {chains : Chains β α}

def total (weight : α → Nat) (chains : Chains β α) : Nat := ∑ b, ((chains b).map weight).sum

theorem total_empty : total weight (fun _ => [] : Chains β α) = 0 := by
  simp [total]

variable [DecidableEq β]

theorem total_update (b : β) (l : List α)
    : total weight (Function.update chains b l) + ((chains b).map weight).sum
        =
      total weight chains + (l.map weight).sum := by
  have hrest (chains : Chains β α) : total weight chains = ((chains b).map weight).sum
      + ∑ b' ∈ Finset.univ.erase b, ((chains b').map weight).sum :=
    (Finset.add_sum_erase Finset.univ _ (Finset.mem_univ b)).symm
  have hsame : ∑ b' ∈ Finset.univ.erase b, ((Function.update chains b l b').map weight).sum
      = ∑ b' ∈ Finset.univ.erase b, ((chains b').map weight).sum := by
    apply Finset.sum_congr rfl
    intro b' hb'
    rw [Function.update_of_ne (Finset.ne_of_mem_erase hb')]
  rw [hrest (Function.update chains b l), hrest chains, hsame, Function.update_self]
  omega

end Total

end HashChains
