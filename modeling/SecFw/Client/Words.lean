import SecFw.Client.Token

/-!
This module contains the words that the nodes of the parse tree stand for. Each match function lets
exactly the begins of its words through and takes exactly the words as complete.
-/

namespace SecFw.Client

section Words

def Digits (w : List Char) : Prop := w ≠ [] ∧ ∀ c ∈ w, isdigit c

def HexDigits (w : List Char) : Prop := w ≠ [] ∧ ∀ c ∈ w, isxdigit c

def uintWords : Set (List Char) := { w | Digits w ∨ ∃ h, HexDigits h ∧ w = '0' :: 'x' :: h }

def intWords : Set (List Char) := { w | Digits w ∨ ∃ d, Digits d ∧ (w = '-' :: d ∨ w = '+' :: d) }

def hexWords : Set (List Char) := { w | ∃ h, HexDigits h ∧ w = '0' :: 'x' :: h }

def hexGroup (g : List Char) : Bool := g.length ≤ 2 && g.all isxdigit

def macaddrWords : Set (List Char) := groupWords ':' (hexGroup ·) 6

def decimal (w : List Char) : Nat := w.foldl (fun n c => 10 * n + (c.toNat - '0'.toNat)) 0

def octetGroup (g : List Char) : Bool := g.length ≤ 3 && g.all isdigit && decimal g ≤ 255

def ipv4addrWords : Set (List Char) := groupWords '.' (octetGroup ·) 4

def floatWords : Set (List Char) :=
  { w | ∃ s d, (s = [] ∨ s = ['+'] ∨ s = ['-']) ∧ Digits d
      ∧ (w = s ++ d ∨ ∃ e, (∀ c ∈ e, isdigit c) ∧ w = s ++ d ++ '.' :: e) }

def nodeWords (node : CparserNode) : Set (List Char) :=
  match node.type with
  | .ROOT | .END => ∅
  | .KEYWORD => { node.paramText }
  | .STRING | .FILE => Set.univ
  | .UINT | .UINT64 => uintWords
  | .INT | .INT64 => intWords
  | .HEX | .HEX64 => hexWords
  | .FLOAT => floatWords
  | .MACADDR => macaddrWords
  | .IPV4ADDR => ipv4addrWords
  | .LIST => ∅

end Words

section Numbers

variable {c : Char} {w rest : List Char}

theorem digits_cons : Digits (c :: w) ↔ isdigit c ∧ w.all isdigit := by
  simp [Digits]

theorem hexDigits_iff : HexDigits w ↔ w ≠ [] ∧ w.all isxdigit := by
  simp [HexDigits]

theorem hexDigits_zero : HexDigits ['0'] := hexDigits_iff.mpr ⟨List.cons_ne_nil _ _, rfl⟩

theorem digits_zero : Digits ['0'] := digits_cons.mpr ⟨rfl, rfl⟩

theorem ne_x_of_isdigit (h : isdigit c) : c ≠ 'x' := by
  rintro rfl
  revert h
  decide

theorem mem_uintWords_cons {c0 c1 : Char}
    : c0 :: c1 :: rest ∈ uintWords
        ↔
      if c1 = 'x' then c0 = '0' ∧ HexDigits rest else isdigit c0 ∧ isdigit c1 ∧ rest.all isdigit := by
  change (Digits (c0 :: c1 :: rest) ∨ _) ↔ _
  rw [digits_cons, List.all_cons, Bool.and_eq_true]
  split
  . next hx =>
    subst hx
    have hdigit : ¬isdigit 'x' := by decide
    simp [hdigit, and_comm]
  . next hx => simp [hx]

theorem cparserMatchUint_cons {c0 c1 : Char}
    : cparserMatchUint (c0 :: c1 :: rest)
        =
      if c1 = 'x' then
        if c0 ≠ '0' then none
        else if rest = [] then some false
        else if rest.all isxdigit then some true
        else none
      else if isdigit c0 ∧ isdigit c1 ∧ rest.all isdigit then some true
      else none := by
  have hzero : isdigit '0' := by decide
  unfold cparserMatchUint
  by_cases hx : c1 = 'x'
  . by_cases h0 : c0 = '0'
    . simp [hx, h0, hzero]
    . simp [hx, h0]
  . by_cases h0 : isdigit c0
    . by_cases h1 : isdigit c1
      . by_cases hnil : rest = []
        . simp [hx, h0, h1, hnil]
        . simp [hx, h0, h1, hnil]
      . simp [hx, h0, h1]
    . simp [hx, h0]

theorem all_of_append {p : Char → Bool} {a : Char} (h : (w ++ [a]).all p) : w.all p := by
  rw [List.all_append, Bool.and_eq_true] at h
  exact h.1

theorem cparserMatchUint_recognizes : Recognizes cparserMatchUint uintWords := by
  apply Recognizes.of_closed
  . intro w hw
    rcases w with _ | ⟨c0, _ | ⟨c1, rest⟩⟩
    . contradiction
    . change _ ↔ (Digits [c0] ∨ _)
      rw [digits_cons]
      simp [cparserMatchUint]
    . rw [cparserMatchUint_cons, mem_uintWords_cons, hexDigits_iff]
      split
      . by_cases h0 : c0 = '0'
        . by_cases hnil : rest = []
          . simp [h0, hnil]
          . simp [h0, hnil]
        . simp [h0]
      . simp
  . intro w hw hfalse
    rcases w with _ | ⟨c0, _ | ⟨c1, rest⟩⟩
    . contradiction
    . simp [cparserMatchUint] at hfalse
    . rw [cparserMatchUint_cons] at hfalse
      refine ⟨['0'], ?_⟩
      split at hfalse
      . next hx =>
        by_cases h0 : c0 = '0'
        . by_cases hnil : rest = []
          . rw [List.cons_append, List.cons_append, mem_uintWords_cons, if_pos hx, hnil]
            exact ⟨h0, hexDigits_zero⟩
          . simp [h0, hnil] at hfalse
        . simp [h0] at hfalse
      . simp at hfalse
  . intro w hw a hwa
    rcases w with _ | ⟨c0, _ | ⟨c1, rest⟩⟩
    . contradiction
    . rw [List.cons_append, List.nil_append, cparserMatchUint_cons] at hwa
      have h0 : isdigit c0 := by
        split at hwa
        . by_cases h0 : c0 = '0'
          . subst h0
            rfl
          . simp [h0] at hwa
        . by_cases h0 : isdigit c0
          . exact h0
          . simp [h0] at hwa
      simp [cparserMatchUint, h0]
    . rw [List.cons_append, List.cons_append, cparserMatchUint_cons] at hwa
      rw [cparserMatchUint_cons]
      split
      . next hx =>
        rw [if_pos hx] at hwa
        by_cases h0 : c0 = '0'
        . by_cases hnil : rest = []
          . simp [h0, hnil]
          . by_cases hall : (rest ++ [a]).all isxdigit
            . simp [h0, hnil, all_of_append hall]
            . simp only [h0, hall, List.append_eq_nil_iff, hnil] at hwa
              simp at hwa
        . simp [h0] at hwa
      . next hx =>
        rw [if_neg hx] at hwa
        by_cases hall : isdigit c0 ∧ isdigit c1 ∧ (rest ++ [a]).all isdigit
        . simp [hall.1, hall.2.1, all_of_append hall.2.2]
        . rw [if_neg hall] at hwa
          contradiction

theorem cparserMatchHex_recognizes : Recognizes cparserMatchHex hexWords := by
  have hmem (c0 c1 : Char) (rest : List Char)
      : c0 :: c1 :: rest ∈ hexWords ↔ c0 = '0' ∧ c1 = 'x' ∧ rest ≠ [] ∧ rest.all isxdigit := by
    change (∃ h, HexDigits h ∧ _) ↔ _
    rw [← hexDigits_iff]
    simp [and_left_comm, and_comm, and_assoc]
  apply Recognizes.of_closed
  . intro w hw
    rcases w with _ | ⟨c0, _ | ⟨c1, rest⟩⟩
    . contradiction
    . change _ ↔ ∃ h, HexDigits h ∧ _
      by_cases h0 : c0 = '0'
      . simp [cparserMatchHex, h0]
      . simp [cparserMatchHex, h0]
    . rw [hmem]
      by_cases h0 : c0 = '0'
      . by_cases hx : c1 = 'x'
        . by_cases hnil : rest = []
          . simp [cparserMatchHex, h0, hx, hnil]
          . simp [cparserMatchHex, h0, hx, hnil]
        . simp [cparserMatchHex, h0, hx]
      . simp [cparserMatchHex, h0]
  . intro w hw hfalse
    rcases w with _ | ⟨c0, _ | ⟨c1, rest⟩⟩
    . contradiction
    . have h0 : c0 = '0' := by
        by_contra h0
        simp [cparserMatchHex, h0] at hfalse
      rw [h0]
      exact ⟨['x', '0'], (hmem _ _ _).mpr ⟨rfl, rfl, List.cons_ne_nil _ _, rfl⟩⟩
    . have h0 : c0 = '0' := by
        by_contra h0
        simp [cparserMatchHex, h0] at hfalse
      have hx : c1 = 'x' := by
        by_contra hx
        simp [cparserMatchHex, h0, hx] at hfalse
      have hnil : rest = [] := by
        by_contra hnil
        simp [cparserMatchHex, h0, hx, hnil] at hfalse
      rw [h0, hx, hnil]
      exact ⟨['0'], (hmem _ _ _).mpr ⟨rfl, rfl, List.cons_ne_nil _ _, rfl⟩⟩
  . intro w hw a hwa
    rcases w with _ | ⟨c0, _ | ⟨c1, rest⟩⟩
    . contradiction
    . have h0 : c0 = '0' := by
        by_contra h0
        simp [cparserMatchHex, h0] at hwa
      simp [cparserMatchHex, h0]
    . have h0 : c0 = '0' := by
        by_contra h0
        simp [cparserMatchHex, h0] at hwa
      have hx : c1 = 'x' := by
        by_contra hx
        simp [cparserMatchHex, h0, hx] at hwa
      have hall : (rest ++ [a]).all isxdigit := by
        by_contra hall
        rw [List.cons_append, List.cons_append] at hwa
        simp only [cparserMatchHex, h0, hx, hall] at hwa
        simp at hwa
      have hrest := all_of_append hall
      by_cases hnil : rest = []
      . simp [cparserMatchHex, h0, hx, hnil]
      . simp [cparserMatchHex, h0, hx, hnil, hrest]

theorem cparserMatchInt_cons {c0 : Char}
    : cparserMatchInt (c0 :: rest)
        =
      if isdigit c0 then if rest.all isdigit then some true else none
      else if c0 = '-' ∨ c0 = '+' then
        if rest = [] then some false else if rest.all isdigit then some true else none
      else none := by
  have hminus : isdigit '-' = false := rfl
  have hplus : isdigit '+' = false := rfl
  unfold cparserMatchInt
  by_cases h0 : isdigit c0
  . by_cases hnil : rest = []
    . simp [h0, hnil]
    . simp [h0, hnil]
  . by_cases hm : c0 = '-'
    . simp [hm, hminus]
    . by_cases hp : c0 = '+'
      . simp [hp, hplus]
      . simp [h0, hm, hp]

theorem mem_intWords_cons {c0 : Char}
    : c0 :: rest ∈ intWords
        ↔
      if isdigit c0 then rest.all isdigit = true
      else (c0 = '-' ∨ c0 = '+') ∧ Digits rest := by
  change (Digits (c0 :: rest) ∨ ∃ d, Digits d ∧ (c0 :: rest = '-' :: d ∨ c0 :: rest = '+' :: d)) ↔ _
  rw [digits_cons]
  split
  . next h0 =>
    have hm : c0 ≠ '-' := by
      rintro rfl
      exact absurd h0 (by decide)
    have hp : c0 ≠ '+' := by
      rintro rfl
      exact absurd h0 (by decide)
    simp [h0, hm, hp]
  . next h0 =>
    simp only [h0, Bool.false_eq_true, false_and, false_or, List.cons.injEq]
    constructor
    . rintro ⟨d, hd, ⟨rfl, rfl⟩ | ⟨rfl, rfl⟩⟩
      . exact ⟨Or.inl rfl, hd⟩
      . exact ⟨Or.inr rfl, hd⟩
    . rintro ⟨h, hd⟩
      exact ⟨rest, hd, h.imp (⟨·, rfl⟩) (⟨·, rfl⟩)⟩

theorem cparserMatchInt_recognizes : Recognizes cparserMatchInt intWords := by
  apply Recognizes.of_closed
  . intro w hw
    rcases w with _ | ⟨c0, rest⟩
    . contradiction
    . rw [cparserMatchInt_cons, mem_intWords_cons]
      split
      . simp
      . cases rest with
        | nil => simp [Digits]
        | cons c1 rest => simp [digits_cons]
  . intro w hw hfalse
    rcases w with _ | ⟨c0, rest⟩
    . contradiction
    . rw [cparserMatchInt_cons] at hfalse
      split at hfalse
      . simp at hfalse
      . next h0 =>
        split at hfalse
        . next hsign =>
          have hnil : rest = [] := by
            by_contra hnil
            simp [hnil] at hfalse
          refine ⟨['0'], ?_⟩
          rw [List.cons_append, hnil, List.nil_append, mem_intWords_cons, if_neg h0]
          exact ⟨hsign, digits_zero⟩
        . contradiction
  . intro w hw a hwa
    rcases w with _ | ⟨c0, rest⟩
    . contradiction
    . rw [List.cons_append, cparserMatchInt_cons] at hwa
      rw [cparserMatchInt_cons]
      have hall : (rest ++ [a]).all isdigit := by
        by_contra hall
        simp only [hall, List.append_eq_nil_iff] at hwa
        simp at hwa
      rw [all_of_append hall]
      split
      . simp
      . next h0 =>
        rw [if_neg h0] at hwa
        split
        . split
          . simp
          . simp
        . next hsign =>
          rw [if_neg hsign] at hwa
          contradiction

theorem cparserMatchKeyword_eq (param token : List Char)
    : cparserMatchKeyword param token
        =
      if token <+: param then some (decide (token.length = param.length)) else none := by
  unfold cparserMatchKeyword
  dsimp only
  split
  . next hlt =>
    rw [if_neg]
    intro hprefix
    exact Nat.not_lt.mpr hprefix.length_le hlt
  . next hle =>
    simp only [strncmp_length]

theorem cparserMatchKeyword_recognizes (param : List Char)
    : Recognizes (cparserMatchKeyword param) { param } := by
  constructor
  case complete =>
    intro w hw
    rw [cparserMatchKeyword_eq, Set.mem_singleton_iff]
    split
    . next hprefix =>
      rw [Option.some.injEq, decide_eq_true_iff]
      constructor
      . intro hlen
        exact hprefix.eq_of_length hlen
      . intro heq
        rw [heq]
    . next hprefix =>
      constructor
      . intro hnone
        contradiction
      . rintro rfl
        exact absurd (List.prefix_refl _) hprefix
  case viable =>
    intro w hw
    rw [cparserMatchKeyword_eq]
    split
    . next hprefix =>
      rcases hprefix with ⟨v, hv⟩
      simp only [ne_eq, reduceCtorEq, not_false_eq_true, Set.mem_singleton_iff, true_iff]
      exact ⟨v, hv⟩
    . next hprefix =>
      simp only [ne_eq, not_true_eq_false, Set.mem_singleton_iff, false_iff]
      rintro ⟨v, hv⟩
      exact hprefix ⟨v, hv⟩

end Numbers

section Addresses

variable {c c1 c2 : Char} {w g : List Char} {k : Nat}

theorem hexGroup_shape : GroupShape ':' hexGroup := by
  constructor
  case exists_one => exact ⟨'0', rfl⟩
  case sep_notMem =>
    intro g hg hmem
    unfold hexGroup at hg
    rw [Bool.and_eq_true, List.all_eq_true] at hg
    exact absurd (hg.2 ':' hmem) (by decide)
  case of_append =>
    intro g g' hg
    unfold hexGroup at hg ⊢
    rw [Bool.and_eq_true, decide_eq_true_iff, List.all_append, Bool.and_eq_true, List.length_append] at hg
    rw [Bool.and_eq_true, decide_eq_true_iff]
    exact ⟨Nat.le_trans (Nat.le_add_right _ _) hg.1, hg.2.1⟩

theorem hexGroup_append : hexGroup (g ++ [c]) ↔ g.length + 1 ≤ 2 ∧ g.all isxdigit ∧ isxdigit c := by
  simp [hexGroup]

theorem matchMacaddrLoop_eq (hg : hexGroup g) (hk : k ≤ 5)
    : matchMacaddrLoop g.length k w = (groupScanner ':' hexGroup).scan ⟨g, 5 - k⟩ w := by
  induction w generalizing g k with
  | nil =>
    rw [scan_group_nil, matchMacaddrLoop, Option.some.injEq, decide_eq_decide, ne_eq,
      ← List.length_eq_zero_iff]
    dsimp only
    omega
  | cons c w ih =>
    have hcolon : isxdigit ':' = false := rfl
    have hlen := hg
    unfold hexGroup at hlen
    rw [Bool.and_eq_true, decide_eq_true_iff] at hlen
    unfold matchMacaddrLoop
    by_cases hsep : c = ':'
    . subst hsep
      by_cases hstuck : g = [] ∨ k = 5
      . rw [scan_group_sep_none (hstuck.imp_right fun hk => by rw [hk])]
        rcases hstuck with hnil | hlast
        . simp [hnil, hcolon]
        . simp [hlast, hcolon]
      . rw [not_or] at hstuck
        have hpos : g.length ≠ 0 := by simp [hstuck.1]
        have hle : k + 1 ≤ 5 := by omega
        have hmore := ih (g := []) rfl hle
        rw [scan_group_sep hstuck.1 (by dsimp only; omega), Nat.sub_sub, ← hmore]
        simp [hpos, Nat.not_lt.mpr hle]
    . by_cases hok : hexGroup (g ++ [c])
      . rw [scan_group_cons hsep hok, ← ih hok hk, List.length_append, List.length_singleton]
        rw [hexGroup_append] at hok
        have hcases : g.length = 0 ∨ g.length = 1 := by omega
        rcases hcases with h0 | h1
        . simp [h0, hok.2.2]
        . simp [h1, hok.2.2, hsep]
      . rw [scan_group_cons_none hsep hok]
        rw [hexGroup_append] at hok
        by_cases hx : isxdigit c
        . have htwo : g.length = 2 := by
            by_contra htwo
            exact hok ⟨by omega, hlen.2, hx⟩
          simp [htwo, hsep]
        . simp [hx, hsep]

theorem cparserMatchMacaddr_recognizes : Recognizes cparserMatchMacaddr macaddrWords := by
  have heq : cparserMatchMacaddr = (groupScanner ':' hexGroup).scan ⟨[], 5⟩ := by
    funext w
    exact matchMacaddrLoop_eq (g := []) rfl (by decide)
  rw [heq]
  exact groupScanner_recognizes hexGroup_shape 5

theorem isdigit_iff : isdigit c ↔ 48 ≤ c.toNat ∧ c.toNat ≤ 57 := by
  rw [isdigit, Bool.and_eq_true, decide_eq_true_iff, decide_eq_true_iff, Char.le_def, Char.le_def,
    UInt32.le_iff_toNat_le, UInt32.le_iff_toNat_le]
  rfl

theorem decimal_append (w : List Char) (c : Char)
    : decimal (w ++ [c]) = 10 * decimal w + (c.toNat - 48) := by
  simp [decimal]

theorem octetGroup_append
    : octetGroup (g ++ [c])
        ↔
      g.length + 1 ≤ 3 ∧ g.all isdigit ∧ isdigit c ∧ 10 * decimal g + (c.toNat - 48) ≤ 255 := by
  simp [octetGroup, decimal_append, and_assoc]

theorem octetGroup_shape : GroupShape '.' octetGroup := by
  constructor
  case exists_one => exact ⟨'0', rfl⟩
  case sep_notMem =>
    intro g hg hmem
    unfold octetGroup at hg
    rw [Bool.and_eq_true, Bool.and_eq_true, List.all_eq_true] at hg
    exact absurd (hg.1.2 '.' hmem) (by decide)
  case of_append =>
    intro g g' hg
    induction g' using List.reverseRecOn with
    | nil => rwa [List.append_nil] at hg
    | append_singleton g' c ih =>
      rw [← List.append_assoc, octetGroup_append] at hg
      apply ih
      unfold octetGroup
      rw [Bool.and_eq_true, Bool.and_eq_true, decide_eq_true_iff, decide_eq_true_iff]
      exact ⟨⟨by omega, hg.2.1⟩, by omega⟩

theorem strncmp_255 (h2 : isdigit c2) (h1 : isdigit c1) (h : isdigit c)
    : 0 < strncmp [c2, c1, c] ['2', '5', '5'] 3
        ↔
      255 < 10 * (10 * (c2.toNat - 48) + (c1.toNat - 48)) + (c.toNat - 48) := by
  rw [isdigit_iff] at h2 h1 h
  have heq (a b : Char) : a = b ↔ a.toNat = b.toNat := Char.toNat_inj.symm
  have hlt (a b : Char) : a < b ↔ a.toNat < b.toNat := by
    rw [Char.lt_def, UInt32.lt_iff_toNat_lt]
    rfl
  have htwo : '2'.toNat = 50 := rfl
  have hfive : '5'.toNat = 53 := rfl
  simp only [strncmp, heq, hlt, htwo, hfive]
  split
  . split
    . split
      . omega
      . split
        . omega
        . omega
    . split
      . omega
      . omega
  . split
    . omega
    . omega

theorem matchIpv4addrLoop_eq (hg : octetGroup g) (hk : k ≤ 3) (hone : g.length = 1 → g = [c1])
    (htwo : g.length = 2 → g = [c2, c1])
    : matchIpv4addrLoop g.length k c2 c1 w = (groupScanner '.' octetGroup).scan ⟨g, 3 - k⟩ w := by
  induction w generalizing g k c2 c1 with
  | nil =>
    rw [scan_group_nil, matchIpv4addrLoop, Option.some.injEq, decide_eq_decide, ne_eq,
      ← List.length_eq_zero_iff]
    dsimp only
    omega
  | cons c w ih =>
    have hdot : isdigit '.' = false := rfl
    have hlen := hg
    unfold octetGroup at hlen
    rw [Bool.and_eq_true, Bool.and_eq_true, decide_eq_true_iff, decide_eq_true_iff] at hlen
    unfold matchIpv4addrLoop
    by_cases hsep : c = '.'
    . subst hsep
      by_cases hstuck : g = [] ∨ k = 3
      . rw [scan_group_sep_none (hstuck.imp_right fun hk => by rw [hk])]
        rcases hstuck with hnil | hlast
        . simp [hnil, hdot]
        . simp [hlast, hdot]
      . rw [not_or] at hstuck
        have hpos : g.length ≠ 0 := by simp [hstuck.1]
        have hle : k + 1 ≤ 3 := by omega
        have hmore : matchIpv4addrLoop ([] : List Char).length (k + 1) c1 '.' w
            = (groupScanner '.' octetGroup).scan ⟨[], 3 - (k + 1)⟩ w := ih rfl hle nofun nofun
        rw [scan_group_sep hstuck.1 (by dsimp only; omega), Nat.sub_sub, ← hmore]
        simp [hpos, Nat.not_lt.mpr hle]
    . by_cases hok : octetGroup (g ++ [c])
      . have hmore : matchIpv4addrLoop (g ++ [c]).length k c1 c w
            = (groupScanner '.' octetGroup).scan ⟨g ++ [c], 3 - k⟩ w := ih hok hk
          (by simp +contextual) (by
            intro hlen2
            rw [List.length_append, List.length_singleton] at hlen2
            rw [hone (by omega)]
            rfl)
        rw [scan_group_cons hsep hok, ← hmore, List.length_append, List.length_singleton]
        rw [octetGroup_append] at hok
        have hcases : g.length = 0 ∨ g.length = 1 ∨ g.length = 2 := by omega
        rcases hcases with h0 | h1 | h2
        . simp [h0, hok.2.2.1]
        . simp [h1, hok.2.2.1, hsep]
        . have hg2 := htwo h2
          rw [hg2] at hok
          simp only [List.all_cons, List.all_nil, Bool.and_true, Bool.and_eq_true] at hok
          have hcmp : ¬ 0 < strncmp [c2, c1, c] ['2', '5', '5'] 3 := by
            rw [strncmp_255 hok.2.1.1 hok.2.1.2 hok.2.2.1, Nat.not_lt]
            simpa [decimal] using hok.2.2.2
          simp [h2, hok.2.2.1, hsep, hcmp]
      . rw [scan_group_cons_none hsep hok]
        rw [octetGroup_append] at hok
        by_cases hx : isdigit c
        . have hc := isdigit_iff.mp hx
          have hcases : g.length = 0 ∨ g.length = 1 ∨ g.length = 2 ∨ g.length = 3 := by omega
          rcases hcases with h0 | h1 | h2 | h3
          . rw [List.length_eq_zero_iff] at h0
            refine absurd ⟨?_, ?_, hx, ?_⟩ hok
            . simp [h0]
            . simp [h0]
            . simp [h0, decimal]
              omega
          . have hg1 := hone h1
            rw [hg1] at hok hlen
            simp only [List.all_cons, List.all_nil, Bool.and_true] at hok hlen
            have hc1 := isdigit_iff.mp hlen.1.2
            refine absurd ⟨?_, hlen.1.2, hx, ?_⟩ hok
            . simp
            . simp [decimal]
              omega
          . have hg2 := htwo h2
            rw [hg2] at hok hlen
            simp only [List.all_cons, List.all_nil, Bool.and_true, Bool.and_eq_true] at hok hlen
            have hcmp : 0 < strncmp [c2, c1, c] ['2', '5', '5'] 3 := by
              rw [strncmp_255 hlen.1.2.1 hlen.1.2.2 hx]
              by_contra hle
              refine hok ⟨by simp, hlen.1.2, hx, ?_⟩
              simpa [decimal] using hle
            simp [h2, hsep, hx, hcmp]
          . simp [h3, hsep]
        . by_cases h3 : g.length = 3
          . simp [h3, hsep]
          . simp [hx, hsep, h3]

theorem cparserMatchIpv4addr_recognizes : Recognizes cparserMatchIpv4addr ipv4addrWords := by
  have heq : cparserMatchIpv4addr = (groupScanner '.' octetGroup).scan ⟨[], 3⟩ := by
    funext w
    exact matchIpv4addrLoop_eq (g := []) rfl (by decide) nofun nofun
  rw [heq]
  exact groupScanner_recognizes octetGroup_shape 3

end Addresses

section Float

variable {c a : Char} {w rest v : List Char}

theorem matchFloatLoop_true : matchFloatLoop true w = some true ↔ ∀ c ∈ w, isdigit c := by
  induction w with
  | nil => simp [matchFloatLoop]
  | cons c w ih =>
    have hdot : isdigit '.' = false := rfl
    unfold matchFloatLoop
    rw [List.forall_mem_cons]
    split
    . next hc => simp [hc, hdot]
    . split
      . next hd => simp [ih, hd]
      . next hd => simp [hd]

def PointDigits (w : List Char) : Prop :=
  ∃ d, (∀ c ∈ d, isdigit c) ∧ (w = d ∨ ∃ e, (∀ c ∈ e, isdigit c) ∧ w = d ++ '.' :: e)

theorem pointDigits_cons (hc : isdigit c) : PointDigits (c :: w) ↔ PointDigits w := by
  have hne : c ≠ '.' := by
    rintro rfl
    exact absurd hc (by decide)
  constructor
  . rintro ⟨d, hd, rfl | ⟨e, he, heq⟩⟩
    . exact ⟨w, (List.forall_mem_cons.mp hd).2, Or.inl rfl⟩
    . cases d with
      | nil =>
        rw [List.nil_append, List.cons.injEq] at heq
        exact absurd heq.1 hne
      | cons b d =>
        rw [List.cons_append, List.cons.injEq] at heq
        exact ⟨d, (List.forall_mem_cons.mp hd).2, Or.inr ⟨e, he, heq.2⟩⟩
  . rintro ⟨d, hd, hw⟩
    refine ⟨c :: d, List.forall_mem_cons.mpr ⟨hc, hd⟩, ?_⟩
    rcases hw with rfl | ⟨e, he, rfl⟩
    . exact Or.inl rfl
    . exact Or.inr ⟨e, he, rfl⟩

theorem matchFloatLoop_false : matchFloatLoop false w = some true ↔ PointDigits w := by
  induction w with
  | nil =>
    simp only [matchFloatLoop, true_iff]
    exact ⟨[], by simp, Or.inl rfl⟩
  | cons c w ih =>
    unfold matchFloatLoop
    split
    . next hc =>
      rw [if_neg Bool.false_ne_true, matchFloatLoop_true, hc]
      constructor
      . intro hw
        exact ⟨[], by simp, Or.inr ⟨w, hw, rfl⟩⟩
      . have hdot : isdigit '.' = false := rfl
        rintro ⟨d, hd, hw⟩
        cases d with
        | nil =>
          rcases hw with hw | ⟨e, he, hw⟩
          . exact absurd hw (List.cons_ne_nil _ _)
          . rw [List.nil_append, List.cons.injEq] at hw
            rwa [hw.2]
        | cons b d =>
          have hb := (List.forall_mem_cons.mp hd).1
          rcases hw with hw | ⟨e, he, hw⟩
          . rw [List.cons.injEq] at hw
            rw [← hw.1, hdot] at hb
            contradiction
          . rw [List.cons_append, List.cons.injEq] at hw
            rw [← hw.1, hdot] at hb
            contradiction
    . split
      . next hd => rw [pointDigits_cons hd, ih]
      . next hdot hd =>
        constructor
        . intro hnone
          contradiction
        . rintro ⟨d, hall, hw⟩
          cases d with
          | nil =>
            rcases hw with hw | ⟨e, he, hw⟩
            . exact absurd hw (List.cons_ne_nil _ _)
            . rw [List.nil_append, List.cons.injEq] at hw
              exact absurd hw.1 hdot
          | cons b d =>
            have hb := (List.forall_mem_cons.mp hall).1
            rcases hw with hw | ⟨e, he, hw⟩
            . rw [List.cons.injEq] at hw
              rw [← hw.1] at hb
              exact absurd hb hd
            . rw [List.cons_append, List.cons.injEq] at hw
              rw [← hw.1] at hb
              exact absurd hb hd

theorem mem_floatWords
    : w ∈ floatWords
        ↔
      ∃ s c rest, (s = [] ∨ s = ['+'] ∨ s = ['-']) ∧ isdigit c ∧ PointDigits rest
        ∧ w = s ++ c :: rest := by
  constructor
  . rintro ⟨s, d, hs, hd, hw⟩
    cases d with
    | nil => exact absurd rfl hd.1
    | cons c d =>
      rcases List.forall_mem_cons.mp hd.2 with ⟨hc, hall⟩
      rcases hw with rfl | ⟨e, he, rfl⟩
      . exact ⟨s, c, d, hs, hc, ⟨d, hall, Or.inl rfl⟩, rfl⟩
      . refine ⟨s, c, d ++ '.' :: e, hs, hc, ⟨d, hall, Or.inr ⟨e, he, rfl⟩⟩, ?_⟩
        rw [List.append_assoc, List.cons_append]
  . rintro ⟨s, c, rest, hs, hc, ⟨d, hd, hw⟩, rfl⟩
    refine ⟨s, c :: d, hs, ⟨List.cons_ne_nil _ _, List.forall_mem_cons.mpr ⟨hc, hd⟩⟩, ?_⟩
    rcases hw with rfl | ⟨e, he, rfl⟩
    . exact Or.inl rfl
    . refine Or.inr ⟨e, he, ?_⟩
      rw [List.append_assoc, List.cons_append]

theorem cparserMatchFloat_cons (hplus : c ≠ '+') (hminus : c ≠ '-')
    : cparserMatchFloat (c :: w)
        =
      if c = '.' then if w.length = 1 then some false else none
      else if isdigit c then matchFloatLoop false w
      else none := by
  unfold cparserMatchFloat
  by_cases hdot : c = '.'
  . simp [hdot, matchFloatLoop]
  . by_cases hd : isdigit c
    . simp [hplus, hminus, hdot, hd, matchFloatLoop]
    . simp [hplus, hminus, hdot, hd]

theorem cparserMatchFloat_sign {s : Char} (hs : s = '+' ∨ s = '-')
    : cparserMatchFloat (s :: c :: w)
        =
      if c = '.' then if w = [] then some false else none
      else if isdigit c then matchFloatLoop false w
      else none := by
  unfold cparserMatchFloat
  by_cases hdot : c = '.'
  . simp [hs, hdot, matchFloatLoop]
  . by_cases hd : isdigit c
    . simp [hs, hdot, hd, matchFloatLoop]
    . simp [hs, hdot, hd]

theorem mem_floatWords_cons (hplus : c ≠ '+') (hminus : c ≠ '-')
    : c :: w ∈ floatWords ↔ isdigit c ∧ PointDigits w := by
  rw [mem_floatWords]
  constructor
  . rintro ⟨s, b, rest, rfl | rfl | rfl, hb, hrest, hw⟩
    . rw [List.nil_append, List.cons.injEq] at hw
      rw [hw.1, hw.2]
      exact ⟨hb, hrest⟩
    . exact absurd (List.cons.inj hw).1 hplus
    . exact absurd (List.cons.inj hw).1 hminus
  . rintro ⟨hc, hw⟩
    exact ⟨[], c, w, Or.inl rfl, hc, hw, rfl⟩

theorem mem_floatWords_sign {s : Char} (hs : s = '+' ∨ s = '-')
    : s :: w ∈ floatWords ↔ ∃ c rest, w = c :: rest ∧ isdigit c ∧ PointDigits rest := by
  have hsign : isdigit s = false := by
    rcases hs with rfl | rfl
    . rfl
    . rfl
  rw [mem_floatWords]
  constructor
  . rintro ⟨t, b, rest, rfl | rfl | rfl, hb, hrest, hw⟩
    . rw [List.nil_append, List.cons.injEq] at hw
      rw [← hw.1, hsign] at hb
      contradiction
    . exact ⟨b, rest, (List.cons.inj hw).2, hb, hrest⟩
    . exact ⟨b, rest, (List.cons.inj hw).2, hb, hrest⟩
  . rintro ⟨c, rest, rfl, hc, hrest⟩
    refine ⟨[s], c, rest, Or.inr ?_, hc, hrest, rfl⟩
    exact hs.imp (fun h => by rw [h]) (fun h => by rw [h])

theorem cparserMatchFloat_complete (hw : w ≠ []) : cparserMatchFloat w = some true ↔ w ∈ floatWords := by
  rcases w with _ | ⟨c, w⟩
  . contradiction
  by_cases hs : c = '+' ∨ c = '-'
  . rw [mem_floatWords_sign hs]
    cases w with
    | nil => simp [cparserMatchFloat, hs]
    | cons b w =>
      rw [cparserMatchFloat_sign hs]
      by_cases hdot : b = '.'
      . have hd : isdigit '.' = false := rfl
        by_cases hnil : w = []
        . simp [hdot, hnil, hd]
        . simp [hdot, hnil, hd]
      . by_cases hd : isdigit b
        . simp [hdot, hd, matchFloatLoop_false]
        . simp [hdot, hd]
  . rw [not_or] at hs
    rw [mem_floatWords_cons hs.1 hs.2, cparserMatchFloat_cons hs.1 hs.2]
    by_cases hdot : c = '.'
    . have hd : isdigit '.' = false := rfl
      by_cases hone : w.length = 1
      . simp [hdot, hone, hd]
      . simp [hdot, hone, hd]
    . by_cases hd : isdigit c
      . simp [hdot, hd, matchFloatLoop_false]
      . simp [hdot, hd]

theorem PointDigits.of_append (h : PointDigits (w ++ [a])) : PointDigits w := by
  rcases h with ⟨d, hd, hw | ⟨e, he, hw⟩⟩
  . refine ⟨w, ?_, Or.inl rfl⟩
    intro c hc
    rw [← hw] at hd
    exact hd c (List.mem_append_left _ hc)
  . rcases List.eq_nil_or_concat e with rfl | ⟨e, b, rfl⟩
    . have heq := List.append_inj' hw rfl
      exact ⟨d, hd, Or.inl heq.1⟩
    . rw [List.concat_eq_append] at he hw
      rw [← List.cons_append, ← List.append_assoc] at hw
      have heq := List.append_inj' hw rfl
      refine ⟨d, hd, Or.inr ⟨e, ?_, heq.1⟩⟩
      intro c hc
      exact he c (List.mem_append_left _ hc)

theorem PointDigits.of_append_list (h : PointDigits (w ++ v)) : PointDigits w := by
  induction v using List.reverseRecOn with
  | nil => rwa [List.append_nil] at h
  | append_singleton v a ih =>
    rw [← List.append_assoc] at h
    exact ih h.of_append

theorem cparserMatchFloat_append (hw : w ≠ []) (h : w ++ v ∈ floatWords) : cparserMatchFloat w ≠ none := by
  have hdot : isdigit '.' = false := rfl
  rcases w with _ | ⟨c, w⟩
  . contradiction
  by_cases hs : c = '+' ∨ c = '-'
  . cases w with
    | nil => simp [cparserMatchFloat, hs]
    | cons b w =>
      rw [List.cons_append, mem_floatWords_sign hs] at h
      rcases h with ⟨b', rest, heq, hb, hrest⟩
      rw [List.cons_append, List.cons.injEq] at heq
      rw [← heq.1] at hb
      rw [← heq.2] at hrest
      have hne : b ≠ '.' := by
        rintro rfl
        rw [hdot] at hb
        contradiction
      rw [cparserMatchFloat_sign hs, if_neg hne, if_pos hb, matchFloatLoop_false.mpr hrest.of_append_list]
      simp
  . rw [not_or] at hs
    rw [List.cons_append, mem_floatWords_cons hs.1 hs.2] at h
    have hne : c ≠ '.' := by
      rintro rfl
      rw [hdot] at h
      exact absurd h.1 Bool.false_ne_true
    rw [cparserMatchFloat_cons hs.1 hs.2, if_neg hne, if_pos h.1,
      matchFloatLoop_false.mpr h.2.of_append_list]
    simp

end Float

section Nodes

variable {node : CparserNode} {token w v : List Char} {keywords : List (List Char)}

def abbreviated (keywords : List (List Char)) (token : List Char) : List (List Char) :=
  keywords.filter (token <+: ·)

theorem cparserMatchList_eq (keywords : List (List Char)) (token : List Char)
    : cparserMatchList keywords token
        =
      if abbreviated keywords token = [] then none
      else some (decide ((abbreviated keywords token).length = 1)) := by
  unfold cparserMatchList abbreviated
  simp only [strncmp_length, List.length_eq_zero_iff]

theorem anyWord_recognizes : Recognizes (fun _ => some true : Matcher Char) Set.univ := by
  constructor
  . intro w hw
    simp
  . intro w hw
    simp

theorem noWord_recognizes : Recognizes (fun _ => none : Matcher Char) ∅ := by
  constructor
  . intro w hw
    simp
  . intro w hw
    simp

theorem cparserMatchFnTbl_recognizes (node : CparserNode) (hfloat : node.type ≠ .FLOAT)
    (hlist : node.type ≠ .LIST) : Recognizes (cparserMatchFnTbl node) (nodeWords node) := by
  unfold cparserMatchFnTbl nodeWords
  cases htype : node.type with
  | ROOT => exact noWord_recognizes
  | END => exact noWord_recognizes
  | KEYWORD => exact cparserMatchKeyword_recognizes _
  | STRING => exact anyWord_recognizes
  | UINT => exact cparserMatchUint_recognizes
  | UINT64 => exact cparserMatchUint_recognizes
  | INT => exact cparserMatchInt_recognizes
  | INT64 => exact cparserMatchInt_recognizes
  | HEX => exact cparserMatchHex_recognizes
  | HEX64 => exact cparserMatchHex_recognizes
  | FLOAT => exact absurd htype hfloat
  | MACADDR => exact cparserMatchMacaddr_recognizes
  | IPV4ADDR => exact cparserMatchIpv4addr_recognizes
  | FILE => exact anyWord_recognizes
  | LIST => exact absurd htype hlist

theorem cparserMatchFnTbl_append (hw : w ≠ []) (h : cparserMatchFnTbl node (w ++ v) = some true)
    : cparserMatchFnTbl node w ≠ none := by
  have hwv : w ++ v ≠ [] := by simp [hw]
  by_cases hfloat : node.type = .FLOAT
  . unfold cparserMatchFnTbl at h ⊢
    rw [hfloat] at h ⊢
    exact cparserMatchFloat_append hw ((cparserMatchFloat_complete hwv).mp h)
  by_cases hlist : node.type = .LIST
  . unfold cparserMatchFnTbl at h ⊢
    rw [hlist] at h ⊢
    dsimp only at h ⊢
    rw [cparserMatchList_eq] at h ⊢
    rw [if_neg]
    . simp
    intro hnil
    have hnone : abbreviated node.paramList (w ++ v) = [] := by
      unfold abbreviated at hnil ⊢
      rw [List.filter_eq_nil_iff] at hnil ⊢
      intro keyword hmem hprefix
      rw [decide_eq_true_iff] at hprefix
      apply hnil keyword hmem
      rw [decide_eq_true_iff]
      exact (List.prefix_append w v).trans hprefix
    rw [if_pos hnone] at h
    contradiction
  . apply (cparserMatchFnTbl_recognizes node hfloat hlist).of_append hw
    rw [h]
    simp

end Nodes

end SecFw.Client
