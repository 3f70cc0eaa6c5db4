import Mathlib

/-!
This module contains ordered trees whose nodes have keys, the insertion of paths into them and what can be
found in them afterwards.
-/

/-- A tree whose nodes have data and children in order. -/
inductive LabelTree (α : Type) where
  | node (data : α) (children : List (LabelTree α))

namespace LabelTree

variable {α κ : Type}

def data : LabelTree α → α
  | node data _ => data

def children : LabelTree α → List (LabelTree α)
  | node _ children => children

variable (key : α → κ)

/-- No two children of a node have the same key. -/
inductive Distinct : LabelTree α → Prop where
  | node (data : α) (children : List (LabelTree α)) (hnodup : (children.map fun t => key t.data).Nodup)
    (hchildren : ∀ t ∈ children, Distinct t) : Distinct (node data children)

def Descends (t : LabelTree α) (path : List (LabelTree α)) : Prop :=
  List.IsChain (fun a b => b ∈ a.children) (t :: path)

section Lists

variable {P : α → Prop} {as as' bs bs' : List α}

theorem append_inj_of_last (h : as ++ bs = as' ++ bs') (has : ∀ a ∈ as.getLast?, P a)
    (has' : ∀ a ∈ as'.getLast?, P a) (hbs : ∀ b ∈ bs, ¬P b) (hbs' : ∀ b ∈ bs', ¬P b) : as = as' ∧ bs = bs' := by
  have hnil {as bs cs : List α} (hlast : ∀ a ∈ (as ++ cs).getLast?, P a) (hcs : ∀ b ∈ cs ++ bs, ¬P b) : cs = [] := by
    rcases List.eq_nil_or_concat cs with rfl | ⟨cs, c, rfl⟩
    . rfl
    . rw [List.concat_eq_append] at hlast hcs
      exact absurd (hlast c (by simp)) (hcs c (by simp))
  rcases List.append_eq_append_iff.mp h with ⟨cs, rfl, rfl⟩ | ⟨cs, rfl, rfl⟩
  . cases hnil has' hbs
    exact ⟨(List.append_nil as).symm, rfl⟩
  . cases hnil has hbs'
    exact ⟨List.append_nil as', rfl⟩

end Lists

section Paths

variable {key} {t u : LabelTree α} {path path' : List (LabelTree α)}

theorem distinct_leaf (a : α) : Distinct key (node a []) := .node a [] List.nodup_nil nofun

theorem Distinct.nodup (h : Distinct key t) : (t.children.map fun t => key t.data).Nodup := by
  cases h with
  | node data children hnodup hchildren => exact hnodup

theorem Distinct.child (h : Distinct key t) (hu : u ∈ t.children) : Distinct key u := by
  cases h with
  | node data children hnodup hchildren => exact hchildren u hu

theorem descends_nil (t : LabelTree α) : Descends t [] := List.isChain_singleton t

theorem descends_cons : Descends t (u :: path) ↔ u ∈ t.children ∧ Descends u path := List.isChain_cons_cons

theorem descends_append
    : Descends t (path ++ path') ↔ Descends t path ∧ Descends (path.getLastD t) path' := by
  induction path generalizing t with
  | nil => exact (and_iff_right (descends_nil t)).symm
  | cons u path ih => rw [List.cons_append, descends_cons, descends_cons, ih, List.getLastD_cons, and_assoc]

end Paths

variable [DecidableEq κ]

def alter (a : α) (f : LabelTree α → LabelTree α) : List (LabelTree α) → List (LabelTree α)
  | [] => [f (node a [])]
  | t :: ts => if key t.data = key a then f t :: ts else t :: alter a f ts

def insert : List α → LabelTree α → LabelTree α
  | [], t => t
  | a :: path, t => node t.data (alter key a (insert path) t.children)

def descend : List κ → LabelTree α → Option (LabelTree α)
  | [], t => some t
  | k :: ks, t => (t.children.find? fun child => key child.data = k).bind (descend ks)

section Insert

variable {key} {a : α} {f : LabelTree α → LabelTree α} {t u : LabelTree α} {ts : List (LabelTree α)}
  {path : List α} {k : κ} {ks : List κ}

@[simp]
theorem data_insert : (insert key path t).data = t.data := by
  cases path with
  | nil => rfl
  | cons a path => rfl

theorem find_alter (hf : ∀ t, (f t).data = t.data)
    : (alter key a f ts).find? (fun t => key t.data = k)
        =
      if key a = k then some (f ((ts.find? fun t => key t.data = k).getD (node a [])))
      else ts.find? fun t => key t.data = k := by
  induction ts with
  | nil =>
    have ha : key (f (node a [])).data = key a := congrArg key (hf _)
    unfold alter
    by_cases hk : key a = k
    . simp [hk, ha]
    . simp [hk, ha]
  | cons t ts ih =>
    unfold alter
    by_cases ht : key t.data = key a
    . rw [if_pos ht]
      by_cases hk : key a = k
      . simp [hf, ht, hk]
      . simp [hf, ht, hk]
    . rw [if_neg ht, List.find?_cons, List.find?_cons, ih]
      by_cases hk : key a = k
      . have hne : ¬key t.data = k := fun h => ht (h.trans hk.symm)
        simp [hk, hne]
      . by_cases htk : key t.data = k
        . simp [hk, htk]
        . simp [hk, htk]

theorem descend_insert_cons
    : descend key (k :: ks) (insert key (a :: path) t)
        =
      if key a = k then
        descend key ks
          (insert key path ((t.children.find? fun child => key child.data = k).getD (node a [])))
      else descend key (k :: ks) t := by
  change ((alter key a (insert key path) t.children).find? _).bind _ = _
  rw [find_alter (fun t => data_insert)]
  by_cases hk : key a = k
  . rw [if_pos hk, if_pos hk]
    rfl
  . rw [if_neg hk, if_neg hk]
    rfl

theorem descend_insert (path : List α) (ks : List κ) (t : LabelTree α)
    : (descend key ks (insert key path t)).map data
        =
      ((descend key ks t).map data).or (if ks <+: path.map key then path[ks.length - 1]? else none) := by
  induction path generalizing ks t with
  | nil =>
    cases ks with
    | nil => rfl
    | cons k ks => simp [insert]
  | cons a path ih =>
    cases ks with
    | nil => rfl
    | cons k ks =>
      rw [descend_insert_cons, List.map_cons]
      simp only [List.cons_prefix_cons]
      by_cases hk : key a = k
      . rw [if_pos hk, ih]
        have hstep : descend key (k :: ks) t
            = (t.children.find? fun child => key child.data = k).bind (descend key ks) := rfl
        rw [hstep]
        cases hfind : t.children.find? fun child => key child.data = k with
        | some child =>
          cases ks with
          | nil => rfl
          | cons k' ks => simp [hk]
        | none =>
          cases ks with
          | nil => simp [descend, hk, data]
          | cons k' ks => simp [descend, children, hk]
      . have hne : ¬k = key a := fun h => hk h.symm
        rw [if_neg hk, if_neg (fun h => hne h.1), Option.or_none]

theorem descend_insertAll (paths : List (List α)) (hks : ks ≠ []) (root : α)
    : (descend key ks (paths.foldl (fun t path => insert key path t) (node root []))).map data
        =
      (paths.find? fun path => ks <+: path.map key).bind (·[ks.length - 1]?) := by
  induction paths using List.reverseRecOn with
  | nil =>
    cases ks with
    | nil => exact absurd rfl hks
    | cons k ks => rfl
  | append_singleton paths path ih =>
    rw [List.foldl_append, List.foldl_cons, List.foldl_nil, descend_insert, ih, List.find?_append]
    cases hfind : paths.find? fun path => ks <+: path.map key with
    | some first =>
      have hle : ks <+: first.map key := by simpa using List.find?_some hfind
      have hlt : ks.length - 1 < first.length := by
        have hlen := hle.length_le
        have hpos := List.length_pos_of_ne_nil hks
        rw [List.length_map] at hlen
        omega
      simp [List.getElem?_eq_getElem hlt]
    | none =>
      by_cases hle : ks <+: path.map key
      . simp [hle]
      . simp [hle]

end Insert

section Paths

variable {key} {a : α} {f : LabelTree α → LabelTree α} {t u : LabelTree α} {ts : List (LabelTree α)}
  {path path' : List (LabelTree α)} {ks : List κ}

theorem descend_append (ks ks' : List κ) (t : LabelTree α)
    : descend key (ks ++ ks') t = (descend key ks t).bind (descend key ks') := by
  induction ks generalizing t with
  | nil => rfl
  | cons k ks ih =>
    rw [List.cons_append, descend, descend, Option.bind_assoc]
    exact congrArg _ (funext ih)

theorem children_ne_of_descend {k : κ} (hu : descend key ks t = some u) (h : (descend key (ks ++ [k]) t).isSome)
    : u.children ≠ [] := by
  rw [descend_append, hu, Option.bind_some] at h
  intro hnil
  unfold descend at h
  rw [hnil] at h
  contradiction

theorem mem_alter (h : u ∈ alter key a f ts) : u ∈ ts ∨ ∃ t, (t ∈ ts ∨ t = node a []) ∧ u = f t := by
  induction ts with
  | nil => exact .inr ⟨node a [], .inr rfl, List.mem_singleton.mp h⟩
  | cons t ts ih =>
    unfold alter at h
    split at h
    . rcases List.mem_cons.mp h with rfl | h
      . exact .inr ⟨t, .inl List.mem_cons_self, rfl⟩
      . exact .inl (List.mem_cons_of_mem t h)
    . rcases List.mem_cons.mp h with rfl | h
      . exact .inl List.mem_cons_self
      . rcases ih h with h | ⟨t', ht', rfl⟩
        . exact .inl (List.mem_cons_of_mem t h)
        . exact .inr ⟨t', ht'.imp_left (List.mem_cons_of_mem t), rfl⟩

theorem keys_alter (hf : ∀ t, (f t).data = t.data)
    : (alter key a f ts).map (fun t => key t.data)
        =
      if key a ∈ ts.map (fun t => key t.data) then ts.map (fun t => key t.data)
      else ts.map (fun t => key t.data) ++ [key a] := by
  induction ts with
  | nil =>
    have ha : (f (node a [])).data = a := hf _
    simp [alter, ha]
  | cons t ts ih =>
    unfold alter
    by_cases ht : key t.data = key a
    . simp [hf, ht]
    . rw [if_neg ht, List.map_cons, ih]
      by_cases hmem : key a ∈ ts.map (fun t => key t.data)
      . rw [if_pos hmem, if_pos (by simpa using .inr (by simpa using hmem))]
        rfl
      . have hne : ¬key a = key t.data := fun h => ht h.symm
        rw [if_neg hmem, if_neg (by simpa [hne] using hmem)]
        rfl

theorem Distinct.insert (h : Distinct key t) (path : List α) : Distinct key (LabelTree.insert key path t) := by
  induction path generalizing t with
  | nil => exact h
  | cons a path ih =>
    refine .node _ _ ?_ ?_
    . rw [keys_alter (fun t => data_insert)]
      split
      . exact h.nodup
      . next hmem =>
        rw [List.nodup_append]
        refine ⟨h.nodup, List.nodup_singleton _, ?_⟩
        intro k hk k' hk' heq
        rw [List.mem_singleton.mp hk'] at heq
        exact hmem (heq ▸ hk)
    . intro u hu
      rcases mem_alter hu with hu | ⟨t', ht', rfl⟩
      . exact h.child hu
      . rcases ht' with ht' | rfl
        . exact ih (h.child ht')
        . exact ih (distinct_leaf a)

theorem distinct_insertAll (paths : List (List α)) (root : α)
    : Distinct key (paths.foldl (fun t path => LabelTree.insert key path t) (node root [])) := by
  induction paths using List.reverseRecOn with
  | nil => exact distinct_leaf root
  | append_singleton paths path ih =>
    rw [List.foldl_append]
    exact ih.insert path

theorem Distinct.find_child (h : Distinct key t) (hu : u ∈ t.children)
    : t.children.find? (fun child => key child.data = key u.data) = some u := by
  have hnodup := h.nodup
  generalize t.children = ts at hu hnodup
  induction ts with
  | nil => contradiction
  | cons c ts ih =>
    rw [List.map_cons, List.nodup_cons] at hnodup
    rw [List.find?_cons]
    rcases List.mem_cons.mp hu with rfl | hu
    . simp
    . have hne : ¬key c.data = key u.data := by
        intro heq
        exact hnodup.1 (heq ▸ List.mem_map_of_mem hu)
      simp only [hne, decide_false]
      exact ih hu hnodup.2

theorem Distinct.descend_keys (h : Distinct key t) (hpath : Descends t path)
    : descend key (path.map fun u => key u.data) t = some (path.getLastD t) := by
  induction path generalizing t with
  | nil => rfl
  | cons u path ih =>
    rcases descends_cons.mp hpath with ⟨hu, hrest⟩
    rw [List.map_cons, List.getLastD_cons]
    unfold descend
    rw [h.find_child hu, Option.bind_some]
    exact ih (h.child hu) hrest

theorem exists_descends (h : descend key ks t = some u)
    : ∃ path, Descends t path ∧ (path.map fun u => key u.data) = ks ∧ path.getLastD t = u := by
  induction ks generalizing t with
  | nil =>
    cases h
    exact ⟨[], descends_nil _, rfl, rfl⟩
  | cons k ks ih =>
    rcases Option.bind_eq_some_iff.mp h with ⟨child, hfind, hrest⟩
    rcases ih hrest with ⟨path, hpath, hkeys, hlast⟩
    refine ⟨child :: path, descends_cons.mpr ⟨List.mem_of_find?_eq_some hfind, hpath⟩, ?_, ?_⟩
    . have hk : key child.data = k := by simpa using List.find?_some hfind
      rw [List.map_cons, hk, hkeys]
    . rwa [List.getLastD_cons]

theorem Distinct.prefix_of_keys (h : Distinct key t) (hpath : Descends t path) (hpath' : Descends t path')
    (hkeys : (path.map fun u => key u.data) <+: path'.map fun u => key u.data) : path <+: path' := by
  induction path generalizing t path' with
  | nil => exact List.nil_prefix
  | cons u path ih =>
    cases path' with
    | nil => exact absurd hkeys (by simp)
    | cons u' path' =>
      rw [List.map_cons, List.map_cons, List.cons_prefix_cons] at hkeys
      rcases descends_cons.mp hpath with ⟨hu, hrest⟩
      rcases descends_cons.mp hpath' with ⟨hu', hrest'⟩
      have heq : u = u' := by
        have hfind := h.find_child hu
        rw [hkeys.1, h.find_child hu'] at hfind
        exact (Option.some.inj hfind).symm
      subst heq
      exact List.cons_prefix_cons.mpr ⟨rfl, ih (h.child hu) hrest hrest' hkeys.2⟩

end Paths

end LabelTree
