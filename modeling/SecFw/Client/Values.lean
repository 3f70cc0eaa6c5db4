import SecFw.Client.Commands
import SecFw.Numerals.Basic

/-!
This module contains the functions that get the value of a token for an action function. On the words of
a node no assertion fails, and a number that fits the type of the node is got. For one that does not fit
a number with the same remainder may be got: 4294967296 is got as 0.
-/

namespace SecFw.Client

inductive Value where
  | string (s : List Char)
  | uint32 (n : Nat)
  | uint64 (n : Nat)
  | int32 (n : Int)
  | int64 (n : Int)
  | double (text : List Char)
  | macaddr (octet : List Nat)
  deriving DecidableEq, Repr

abbrev Got (α : Type) := Option (Option α)

def getUintLoop (bits old : Nat) : List Char → Got Nat
  | [] => some (some old)
  | c :: rest =>
    if isdigit c then
      let d := c.toNat - '0'.toNat
      let new := (old * 10 + d) % 2 ^ bits
      if (new + 2 ^ bits - d) % 2 ^ bits / 10 ≠ old then some none else getUintLoop bits new rest
    else
      none

def cparserGetUintInternal (token : List Char) : Got Nat := getUintLoop 32 0 token

def cparserGetUint64Internal (token : List Char) : Got Nat := getUintLoop 64 0 token

def xdigit (c : Char) : Option Nat :=
  if '0' ≤ c ∧ c ≤ '9' then some (c.toNat - '0'.toNat)
  else if 'a' ≤ c ∧ c ≤ 'f' then some (c.toNat - 'a'.toNat + 10)
  else if 'A' ≤ c ∧ c ≤ 'F' then some (c.toNat - 'A'.toNat + 10)
  else none

def getHexLoop (bits old : Nat) : List Char → Got Nat
  | [] => some (some old)
  | c :: rest =>
    match xdigit c with
    | none => none
    | some d =>
      let new := (old <<< 4 + d) % 2 ^ bits
      if ((new + 2 ^ bits - d) % 2 ^ bits) >>> 4 ≠ old then some none else getHexLoop bits new rest

def getHex (bits : Nat) (buf : List Char) : Got Nat :=
  -- `cparser_get_hex` for numbers of `bits` bits
  if buf = [] then some none
  else if 2 < buf.length ∧ buf.getD 0 NUL = '0' ∧ buf.getD 1 NUL = 'x' then getHexLoop bits 0 (buf.drop 2)
  else none

def cparserGetHex (buf : List Char) : Got Nat := getHex 32 buf

def cparserGetHex64 (buf : List Char) : Got Nat := getHex 64 buf

def cparserGetUint (buf : List Char) : Got Nat :=
  if buf = [] then some none
  else if 1 < buf.length ∧ buf.getD 1 NUL = 'x' then cparserGetHex buf
  else cparserGetUintInternal buf

def cparserGetUint64 (buf : List Char) : Got Nat :=
  if buf = [] then some none
  else if 1 < buf.length ∧ buf.getD 1 NUL = 'x' then cparserGetHex64 buf
  else cparserGetUint64Internal buf

def signInt (bits : Nat) (negative : Bool) : Got Nat → Got Int
  | none => none
  | some none => some none
  | some (some tmp) =>
    if negative then
      if tmp > 2 ^ (bits - 1) then some none else some (some (-tmp))
    else
      if tmp > 2 ^ (bits - 1) - 1 then some none else some (some tmp)

def getInt (bits : Nat) (buf : List Char) : Got Int :=
  -- `cparser_get_int` for numbers of `bits` bits
  if buf = [] then
    some none
  else
    let negative := buf.getD 0 NUL == '-'
    let init_pos := if negative || buf.getD 0 NUL == '+' then 1 else 0
    signInt bits negative (getUintLoop bits 0 (buf.drop init_pos))

def cparserGetInt (buf : List Char) : Got Int := getInt 32 buf

def cparserGetInt64 (buf : List Char) : Got Int := getInt 64 buf

abbrev ULONG_MAX : Nat := 2 ^ 64 - 1

def scanLu (text : List Char) : Option (Nat × List Char) :=
  -- `%lu` of `sscanf` on a text without white space and sign: the number and the rest
  let digits := text.takeWhile isdigit
  if digits = [] then none else some (min (decimal digits) ULONG_MAX, text.dropWhile isdigit)

def hexadecimal (w : List Char) : Nat := w.foldl (fun n c => 16 * n + (xdigit c).getD 0) 0

def scanLx (text : List Char) : Option (Nat × List Char) :=
  -- `%lx` of `sscanf` on a text without white space, sign and `0x`
  let digits := text.takeWhile isxdigit
  if digits = [] then none else some (min (hexadecimal digits) ULONG_MAX, text.dropWhile isxdigit)

def scanGroups (scan : List Char → Option (Nat × List Char)) (sep : Char) : Nat → List Char → Option (List Nat)
  -- `n` conversions of `sscanf` with a separator between them
  | 0, _ => some []
  | 1, text => (scan text).map fun (v, _) => [v]
  | n + 2, text =>
    match scan text with
    | some (v, c :: rest) => if c = sep then (scanGroups scan sep (n + 1) rest).map (v :: ·) else none
    | _ => none

def cparserGetMacaddr (buf : List Char) : Got (List Nat) :=
  if buf = [] then some none
  else
    match scanGroups scanLx ':' 6 buf with
    | some octet => if octet.any (· > 255) then some none else some (some octet)
    | none => some none

def cparserGetIpv4addr (buf : List Char) : Got Nat :=
  if buf = [] then some none
  else
    match scanGroups scanLu '.' 4 buf with
    | some [a, b, c, d] =>
      if a > 255 ∨ b > 255 ∨ c > 255 ∨ d > 255 then some none
      else some (some (a <<< 24 ||| b <<< 16 ||| c <<< 8 ||| d))
    | _ => some none

def cparserGetString (buf : List Char) : Got (List Char) := if buf = [] then some none else some (some buf)

def cparserGetFloat (buf : List Char) : Got (List Char) := if buf = [] then some none else some (some buf)

def cparserGetFile (is_reg : List Char → Bool) (buf : List Char) : Got (List Char) :=
  -- `is_reg` tells which paths are regular files
  if buf = [] then some none
  else if is_reg buf then some (some buf)
  else some none

def cparserGetList (token : CparserToken) : Got (List Char) :=
  match token.node with
  | none => some none
  | some node =>
    if node.type ≠ .LIST then
      none
    else
      some (node.paramList.find? fun keyword =>
        strncmp token.buf keyword (min keyword.length token.buf.length) = 0)

def cparserGetFnTbl (is_reg : List Char → Bool) (type : NodeType) (token : CparserToken) : Got Value :=
  -- there is no function for nodes without a value
  match type with
  | .ROOT | .END | .KEYWORD => none
  | .STRING => (cparserGetString token.buf).map (·.map .string)
  | .UINT => (cparserGetUint token.buf).map (·.map .uint32)
  | .UINT64 => (cparserGetUint64 token.buf).map (·.map .uint64)
  | .INT => (cparserGetInt token.buf).map (·.map .int32)
  | .INT64 => (cparserGetInt64 token.buf).map (·.map .int64)
  | .HEX => (cparserGetHex token.buf).map (·.map .uint32)
  | .HEX64 => (cparserGetHex64 token.buf).map (·.map .uint64)
  | .FLOAT => (cparserGetFloat token.buf).map (·.map .double)
  | .MACADDR => (cparserGetMacaddr token.buf).map (·.map .macaddr)
  | .IPV4ADDR => (cparserGetIpv4addr token.buf).map (·.map .uint32)
  | .FILE => (cparserGetFile is_reg token.buf).map (·.map .string)
  | .LIST => (cparserGetList token).map (·.map .string)

section Loops

variable {bits old n : Nat} {c : Char} {w : List Char}

def digit (c : Char) : Option Nat := if isdigit c then some (c.toNat - '0'.toNat) else none

theorem getUintLoop_eq : getUintLoop bits old w = Numerals.checked 10 (2 ^ bits) digit old w := by
  induction w generalizing old with
  | nil => rfl
  | cons c w ih =>
    rw [getUintLoop, Numerals.checked]
    by_cases hc : isdigit c
    . rw [digit, if_pos hc, if_pos hc]
      dsimp only
      rw [ih]
    . rw [digit, if_neg hc, if_neg hc]

theorem getHexLoop_eq : getHexLoop bits old w = Numerals.checked 16 (2 ^ bits) xdigit old w := by
  induction w generalizing old with
  | nil => rfl
  | cons c w ih =>
    unfold getHexLoop Numerals.checked
    cases xdigit c with
    | none => rfl
    | some d =>
      dsimp only
      rw [Nat.shiftLeft_eq, Nat.shiftRight_eq_div_pow, ih]

theorem digit_digits (hw : ∀ c ∈ w, isdigit c) : Numerals.Digits 10 digit w := by
  intro c hc
  have hdigit := hw c hc
  refine ⟨c.toNat - '0'.toNat, ?_, if_pos hdigit⟩
  have hle := (isdigit_iff.mp hdigit).2
  change c.toNat - 48 < 10
  omega

theorem char_le_iff {a b : Char} : a ≤ b ↔ a.toNat ≤ b.toNat := by
  rw [Char.le_def, UInt32.le_iff_toNat_le]
  rfl

theorem xdigit_digits (hw : ∀ c ∈ w, isxdigit c) : Numerals.Digits 16 xdigit w := by
  intro c hc
  have hdigit := hw c hc
  simp only [isxdigit, isdigit, Bool.or_eq_true, Bool.and_eq_true, decide_eq_true_eq] at hdigit
  unfold xdigit
  simp only [char_le_iff] at hdigit ⊢
  by_cases hdec : '0'.toNat ≤ c.toNat ∧ c.toNat ≤ '9'.toNat
  . rw [if_pos hdec]
    refine ⟨_, ?_, rfl⟩
    change 48 ≤ c.toNat ∧ c.toNat ≤ 57 at hdec
    change c.toNat - 48 < 16
    omega
  rw [if_neg hdec]
  by_cases hlower : 'a'.toNat ≤ c.toNat ∧ c.toNat ≤ 'f'.toNat
  . rw [if_pos hlower]
    refine ⟨_, ?_, rfl⟩
    change 97 ≤ c.toNat ∧ c.toNat ≤ 102 at hlower
    change c.toNat - 97 + 10 < 16
    omega
  rw [if_neg hlower]
  have hupper : 'A'.toNat ≤ c.toNat ∧ c.toNat ≤ 'F'.toNat := by
    rcases hdigit with (h | h) | h
    . exact absurd h hdec
    . exact absurd h hlower
    . exact h
  rw [if_pos hupper]
  refine ⟨_, ?_, rfl⟩
  change 65 ≤ c.toNat ∧ c.toNat ≤ 70 at hupper
  change c.toNat - 65 + 10 < 16
  omega

theorem decimal_eq (hw : ∀ c ∈ w, isdigit c) : decimal w = Numerals.value 10 digit 0 w := by
  unfold decimal Numerals.value
  apply List.foldl_ext
  intro n c hc
  rw [digit, if_pos (hw c hc), Option.getD_some]

end Loops

section Groups

variable {scan : List Char → Option (Nat × List Char)} {val : List Char → Nat} {sep : Char} {ok : List Char → Prop}
  {g rest : List Char} {gs : List (List Char)}

def Converts (scan : List Char → Option (Nat × List Char)) (sep : Char) (val : List Char → Nat)
    (ok : List Char → Prop) : Prop :=
  ∀ g rest, g ≠ [] → ok g → (rest = [] ∨ ∃ tail, rest = sep :: tail) → scan (g ++ rest) = some (val g, rest)

theorem scanGroups_separated (hscan : Converts scan sep val ok) (hne : gs ≠ [])
    (hgs : ∀ g ∈ gs, g ≠ [] ∧ ok g) : scanGroups scan sep gs.length (separated sep gs) = some (gs.map val) := by
  induction gs with
  | nil => exact absurd rfl hne
  | cons g gs ih =>
    have hg := hgs g List.mem_cons_self
    cases gs with
    | nil =>
      change (scan (g ++ [])).map _ = _
      rw [hscan g [] hg.1 hg.2 (.inl rfl)]
      rfl
    | cons g' gs =>
      have hconv := hscan g (sep :: separated sep (g' :: gs)) hg.1 hg.2 (.inr ⟨_, rfl⟩)
      have ih := ih (List.cons_ne_nil g' gs) (fun g hmem => hgs g (List.mem_cons_of_mem _ hmem))
      change (match scan (g ++ sep :: separated sep (g' :: gs)) with
        | some (v, c :: rest) => if c = sep then (scanGroups scan sep (gs.length + 1) rest).map (v :: ·) else none
        | _ => none) = _
      rw [hconv]
      dsimp only
      rw [if_pos rfl, ← List.length_cons (a := g'), ih]
      rfl

theorem takeWhile_digits {p : Char → Bool} (hg : g.all p) (hsep : p sep = false)
    (hrest : rest = [] ∨ ∃ tail, rest = sep :: tail)
    : (g ++ rest).takeWhile p = g ∧ (g ++ rest).dropWhile p = rest := by
  have hall : ∀ c ∈ g, p c = true := List.all_eq_true.mp hg
  rw [List.takeWhile_append_of_pos hall, List.dropWhile_append_of_pos hall]
  rcases hrest with rfl | ⟨tail, rfl⟩
  . simp
  . simp [hsep]

end Groups

section Numbers

variable {bits n : Nat} {w : List Char} {got : Got Nat}

structure Reads (m : Nat) (got : Got Nat) (n : Nat) : Prop where
  defined : got ≠ none
  exact : n < m → got = some (some n)
  wraps : ∀ v, got = some (some v) → v = n % m

theorem reads_uint (hbits : 4 ≤ bits) (hw : ∀ c ∈ w, isdigit c)
    : Reads (2 ^ bits) (getUintLoop bits 0 w) (decimal w) := by
  have hpow : 2 ^ 4 ≤ 2 ^ bits := Nat.pow_le_pow_right (by decide) hbits
  have hdigits : Numerals.Digits (2 ^ bits) digit w := by
    intro c hc
    rcases digit_digits hw c hc with ⟨d, hd, heq⟩
    exact ⟨d, by omega, heq⟩
  rw [getUintLoop_eq, decimal_eq hw]
  constructor
  case defined => exact Numerals.checked_ne_none (by decide) hdigits
  case exact => exact Numerals.checked_of_lt (by decide) hdigits
  case wraps =>
    intro v hv
    exact ((Numerals.checked_eq_some_iff (by decide) hdigits (by omega)).mp hv).1.symm

theorem getHexLoop_exact (hbits : 4 ≤ bits) (hw : ∀ c ∈ w, isxdigit c)
    : getHexLoop bits 0 w = some (if hexadecimal w < 2 ^ bits then some (hexadecimal w) else none) := by
  have hpow : 2 ^ 4 ≤ 2 ^ bits := Nat.pow_le_pow_right (by decide) hbits
  rw [getHexLoop_eq]
  exact Numerals.checked_of_dvd (by decide) (pow_dvd_pow 2 hbits) (xdigit_digits hw) (by omega)

theorem reads_hexLoop (hbits : 4 ≤ bits) (hw : ∀ c ∈ w, isxdigit c)
    : Reads (2 ^ bits) (getHexLoop bits 0 w) (hexadecimal w) := by
  rw [getHexLoop_exact hbits hw]
  constructor
  case defined => exact nofun
  case exact =>
    intro h
    rw [if_pos h]
  case wraps =>
    intro v hv
    rw [Option.some_inj] at hv
    split at hv
    . next h =>
      cases hv
      exact (Nat.mod_eq_of_lt h).symm
    . contradiction

theorem reads_hex (hbits : 4 ≤ bits) {h : List Char} (hh : HexDigits h)
    : Reads (2 ^ bits) (getHex bits ('0' :: 'x' :: h)) (hexadecimal h) := by
  have hlen : 2 < ('0' :: 'x' :: h).length := by
    have := List.length_pos_of_ne_nil hh.1
    simp
    omega
  unfold getHex
  rw [if_neg (List.cons_ne_nil _ _), if_pos ⟨hlen, rfl, rfl⟩]
  exact reads_hexLoop hbits hh.2

def uintNumber (w : List Char) : Nat := if w.getD 1 NUL = 'x' then hexadecimal (w.drop 2) else decimal w

theorem second_ne_x (hw : ∀ c ∈ w, isdigit c) : w.getD 1 NUL ≠ 'x' := by
  rw [List.getD_eq_getElem?_getD]
  cases hsecond : w[1]? with
  | none => exact fun h => absurd h (by decide)
  | some c => exact ne_x_of_isdigit (hw c (List.mem_of_getElem? hsecond))

theorem reads_uintWords (hbits : 4 ≤ bits) (hw : w ∈ uintWords)
    : Reads (2 ^ bits)
        (if w = [] then some none
          else if 1 < w.length ∧ w.getD 1 NUL = 'x' then getHex bits w
          else getUintLoop bits 0 w)
        (uintNumber w) := by
  rcases hw with hw | ⟨h, hh, rfl⟩
  . have hne := second_ne_x hw.2
    rw [if_neg hw.1, if_neg (fun hx => hne hx.2), uintNumber, if_neg hne]
    exact reads_uint hbits hw.2
  . rw [if_neg (List.cons_ne_nil _ _), if_pos ⟨by simp, rfl⟩]
    exact reads_hex hbits hh

def intNumber (w : List Char) : Int :=
  if w.getD 0 NUL = '-' then -(decimal (w.drop 1) : Int)
  else if w.getD 0 NUL = '+' then decimal (w.drop 1)
  else decimal w

structure ReadsInt (bits : Nat) (got : Got Int) (n : Int) : Prop where
  defined : got ≠ none
  exact : -2 ^ (bits - 1) ≤ n → n < 2 ^ (bits - 1) → got = some (some n)
  wraps : ∀ v, got = some (some v) → v ≡ n [ZMOD 2 ^ bits]

theorem natAbs_lt_pow (hbits : 4 ≤ bits) {n : Nat} (h : n ≤ 2 ^ (bits - 1)) : n < 2 ^ bits := by
  have hpow : 2 ^ bits = 2 * 2 ^ (bits - 1) := by
    rw [← Nat.pow_succ', Nat.succ_eq_add_one, Nat.sub_add_cancel (by omega)]
  have hpos : 0 < 2 ^ (bits - 1) := Nat.two_pow_pos _
  omega

theorem signInt_eq_none {negative : Bool} {got : Got Nat} : signInt bits negative got = none ↔ got = none := by
  cases got with
  | none => simp [signInt]
  | some res =>
    cases res with
    | none => simp [signInt]
    | some tmp =>
      rw [signInt]
      repeat' split
      all_goals simp

theorem readsInt_sign (hbits : 4 ≤ bits) (negative : Bool) {n : Nat} (h : Reads (2 ^ bits) got n)
    : ReadsInt bits (signInt bits negative got) (if negative then -(n : Int) else n) := by
  have hpos : 0 < 2 ^ (bits - 1) := Nat.two_pow_pos _
  have hcast : ((2 ^ (bits - 1) : Nat) : Int) = 2 ^ (bits - 1) := by push_cast; rfl
  constructor
  case defined =>
    exact fun hnone => h.defined (signInt_eq_none.mp hnone)
  case exact =>
    intro hlow hhigh
    cases negative with
    | true =>
      rw [if_pos rfl] at hlow ⊢
      rw [h.exact (natAbs_lt_pow hbits (by omega)), signInt, if_pos rfl, if_neg (by omega)]
    | false =>
      rw [if_neg (by decide)] at hhigh ⊢
      rw [h.exact (natAbs_lt_pow hbits (by omega)), signInt, if_neg (by decide), if_neg (by omega)]
  case wraps =>
    intro v hv
    cases got with
    | none => contradiction
    | some res =>
      cases res with
      | none =>
        rw [signInt] at hv
        nomatch hv
      | some tmp =>
        have hmod : (tmp : Int) ≡ n [ZMOD 2 ^ bits] := by
          rw [h.wraps tmp rfl]
          push_cast
          exact Int.mod_modEq _ _
        rw [signInt] at hv
        cases negative with
        | true =>
          rw [if_pos rfl] at hv ⊢
          split at hv
          . nomatch hv
          . cases hv
            exact hmod.neg
        | false =>
          rw [if_neg (by decide)] at hv ⊢
          split at hv
          . nomatch hv
          . cases hv
            exact hmod

theorem readsInt_intWords (hbits : 4 ≤ bits) (hw : w ∈ intWords) : ReadsInt bits (getInt bits w) (intNumber w) := by
  rcases hw with hw | ⟨d, hd, rfl | rfl⟩
  . cases w with
    | nil => exact absurd rfl hw.1
    | cons c w =>
      have hc := isdigit_iff.mp (hw.2 c List.mem_cons_self)
      have hminus : c ≠ '-' := by
        rintro rfl
        exact absurd hc.1 (by decide)
      have hplus : c ≠ '+' := by
        rintro rfl
        exact absurd hc.1 (by decide)
      have hsign := readsInt_sign hbits false (reads_uint hbits hw.2)
      simpa [getInt, intNumber, hminus, hplus, beq_false_of_ne hminus] using hsign
  . simpa [getInt, intNumber] using readsInt_sign hbits true (reads_uint hbits hd.2)
  . simpa [getInt, intNumber] using readsInt_sign hbits false (reads_uint hbits hd.2)

end Numbers

section Addresses

variable {sep : Char} {ok : List Char → Prop} {w : List Char} {gs : List (List Char)}

theorem separated_eq_intercalate (gs : List (List Char)) : separated sep gs = [sep].intercalate gs := by
  cases gs with
  | nil => rfl
  | cons g gs =>
    induction gs generalizing g with
    | nil => simp [separated]
    | cons g' gs ih =>
      rw [List.intercalate_cons_cons, ← ih]
      simp [separated]

theorem splitOn_separated (sep : Char) (hne : gs ≠ []) (hgs : ∀ g ∈ gs, sep ∉ g) : (separated sep gs).splitOn sep = gs := by
  rw [separated_eq_intercalate, List.splitOn_intercalate sep hgs hne]

theorem converts_scanLu : Converts scanLu '.' decimal (octetGroup ·) := by
  intro g rest hne hg hrest
  unfold octetGroup at hg
  rw [Bool.and_eq_true, Bool.and_eq_true, decide_eq_true_iff, decide_eq_true_iff] at hg
  rcases takeWhile_digits hg.1.2 (by decide : isdigit '.' = false) hrest with ⟨htake, hdrop⟩
  unfold scanLu
  dsimp only
  rw [htake, hdrop, if_neg hne, Nat.min_eq_left (Nat.le_trans hg.2 (by decide))]

theorem hexadecimal_le (hw : hexGroup w) : hexadecimal w ≤ 255 := by
  unfold hexGroup at hw
  rw [Bool.and_eq_true, decide_eq_true_iff, List.all_eq_true] at hw
  have hdigits := xdigit_digits hw.2
  unfold hexadecimal
  match w with
  | [] => decide
  | [a] =>
    rcases hdigits a (by simp) with ⟨d, hd, ha⟩
    simp [ha]
    omega
  | [a, b] =>
    rcases hdigits a (by simp) with ⟨d, hd, ha⟩
    rcases hdigits b (by simp) with ⟨e, he, hb⟩
    simp [ha, hb]
    omega
  | a :: b :: c :: w =>
    have hlen := hw.1
    simp at hlen

theorem converts_scanLx : Converts scanLx ':' hexadecimal (hexGroup ·) := by
  intro g rest hne hg hrest
  have hle := hexadecimal_le hg
  unfold hexGroup at hg
  rw [Bool.and_eq_true] at hg
  rcases takeWhile_digits hg.2 (by decide : isxdigit ':' = false) hrest with ⟨htake, hdrop⟩
  unfold scanLx
  dsimp only
  rw [htake, hdrop, if_neg hne, Nat.min_eq_left (Nat.le_trans hle (by decide))]

def ipv4Number (w : List Char) : Nat := ((w.splitOn '.').map decimal).foldl (fun n d => 256 * n + d) 0

def macOctets (w : List Char) : List Nat := (w.splitOn ':').map hexadecimal

theorem octets_or {a b c d : Nat} (hb : b ≤ 255) (hc : c ≤ 255) (hd : d ≤ 255)
    : a <<< 24 ||| b <<< 16 ||| c <<< 8 ||| d = 256 * (256 * (256 * (256 * 0 + a) + b) + c) + d := by
  have h1 : a <<< 24 ||| b <<< 16 = (a <<< 8 + b) <<< 16 := by
    rw [← Nat.shiftLeft_add_eq_or_of_lt (by rw [Nat.shiftLeft_eq]; omega)]
    simp only [Nat.shiftLeft_eq]
    omega
  have h2 : (a <<< 8 + b) <<< 16 ||| c <<< 8 = ((a <<< 8 + b) <<< 8 + c) <<< 8 := by
    rw [← Nat.shiftLeft_add_eq_or_of_lt (by rw [Nat.shiftLeft_eq]; omega)]
    simp only [Nat.shiftLeft_eq]
    omega
  rw [h1, h2, ← Nat.shiftLeft_add_eq_or_of_lt (by omega)]
  simp only [Nat.shiftLeft_eq]
  omega

theorem octetGroup_le {g : List Char} (hg : octetGroup g) : decimal g ≤ 255 := by
  unfold octetGroup at hg
  rw [Bool.and_eq_true, decide_eq_true_iff] at hg
  exact hg.2

theorem cparserGetIpv4addr_eq (hw : w ∈ ipv4addrWords)
    : cparserGetIpv4addr w = some (some (ipv4Number w)) ∧ ipv4Number w < 2 ^ 32 := by
  rcases hw with ⟨gs, hlen, hgs, rfl⟩
  have hne : gs ≠ [] := by
    rintro rfl
    simp at hlen
  have hscan := scanGroups_separated converts_scanLu hne hgs
  have hsplit := splitOn_separated '.' hne (fun g hg => octetGroup_shape.sep_notMem g (hgs g hg).2)
  have hword : separated '.' gs ≠ [] := by
    intro hnil
    rw [hnil] at hscan
    rw [hlen] at hscan
    nomatch hscan
  unfold cparserGetIpv4addr ipv4Number
  rw [if_neg hword, hsplit]
  rw [hlen] at hscan
  rw [hscan]
  match gs with
  | [a, b, c, d] =>
    have ha := octetGroup_le (hgs a (by simp)).2
    have hb := octetGroup_le (hgs b (by simp)).2
    have hc := octetGroup_le (hgs c (by simp)).2
    have hd := octetGroup_le (hgs d (by simp)).2
    simp only [List.map_cons, List.map_nil, List.foldl_cons, List.foldl_nil]
    rw [if_neg (by omega), octets_or hb hc hd]
    exact ⟨rfl, by omega⟩

theorem cparserGetMacaddr_eq (hw : w ∈ macaddrWords) : cparserGetMacaddr w = some (some (macOctets w)) := by
  rcases hw with ⟨gs, hlen, hgs, rfl⟩
  have hne : gs ≠ [] := by
    rintro rfl
    simp at hlen
  have hscan := scanGroups_separated converts_scanLx hne hgs
  have hsplit := splitOn_separated ':' hne (fun g hg => hexGroup_shape.sep_notMem g (hgs g hg).2)
  rw [hlen] at hscan
  have hword : separated ':' gs ≠ [] := by
    intro hnil
    rw [hnil] at hscan
    nomatch hscan
  have hoctets : ¬(gs.map hexadecimal).any (· > 255) = true := by
    rw [List.any_eq_true]
    rintro ⟨n, hmem, hn⟩
    rcases List.mem_map.mp hmem with ⟨g, hg, rfl⟩
    have hle := hexadecimal_le (hgs g hg).2
    rw [decide_eq_true_iff] at hn
    omega
  unfold cparserGetMacaddr macOctets
  rw [if_neg hword, hscan, hsplit]
  dsimp only
  rw [if_neg hoctets]

end Addresses

section Get

variable {is_reg : List Char → Bool} {node : CparserNode} {token : CparserToken} {w keyword : List Char} {n : Int}

def wordNumber (type : NodeType) (w : List Char) : Option Int :=
  match type with
  | .UINT | .UINT64 => some (uintNumber w)
  | .INT | .INT64 => some (intNumber w)
  | .HEX | .HEX64 => some (hexadecimal (w.drop 2))
  | .IPV4ADDR => some (ipv4Number w)
  | _ => none

def Value.number : Value → Option Int
  | .uint32 n | .uint64 n => some n
  | .int32 n | .int64 n => some n
  | _ => none

def numberBits : NodeType → Nat
  | .UINT64 | .INT64 | .HEX64 => 64
  | _ => 32

def Fits (type : NodeType) (n : Int) : Prop :=
  match type with
  | .INT | .INT64 => -2 ^ (numberBits type - 1) ≤ n ∧ n < 2 ^ (numberBits type - 1)
  | _ => 0 ≤ n ∧ n < 2 ^ numberBits type

/-- A number as it is got from a word that means `n`. -/
structure NumberGot (type : NodeType) (got : Got Value) (n : Int) : Prop where
  defined : got ≠ none
  exact : Fits type n → ∃ v, got = some (some v) ∧ v.number = some n
  wraps : ∀ v, got = some (some v) → ∃ k, v.number = some k ∧ k ≡ n [ZMOD 2 ^ numberBits type]

theorem Reads.numberGot {got : Got Nat} {type : NodeType} {k : Nat} {f : Nat → Value}
    (h : Reads (2 ^ numberBits type) got k) (hf : ∀ k, (f k).number = some (k : Int))
    (hfits : Fits type k → k < 2 ^ numberBits type) : NumberGot type (got.map (·.map f)) k := by
  constructor
  case defined => exact fun hnone => h.defined (Option.map_eq_none_iff.mp hnone)
  case exact =>
    intro hk
    rw [h.exact (hfits hk)]
    exact ⟨f k, rfl, hf k⟩
  case wraps =>
    intro v hv
    rcases Option.map_eq_some_iff.mp hv with ⟨res, hres, hmap⟩
    rcases Option.map_eq_some_iff.mp hmap with ⟨k', rfl, rfl⟩
    refine ⟨_, hf k', ?_⟩
    rw [h.wraps k' hres]
    push_cast
    exact Int.mod_modEq _ _

theorem ReadsInt.numberGot {got : Got Int} {type : NodeType} {f : Int → Value}
    (h : ReadsInt (numberBits type) got n) (hf : ∀ k, (f k).number = some k)
    (hfits : Fits type n → -2 ^ (numberBits type - 1) ≤ n ∧ n < 2 ^ (numberBits type - 1))
    : NumberGot type (got.map (·.map f)) n := by
  constructor
  case defined => exact fun hnone => h.defined (Option.map_eq_none_iff.mp hnone)
  case exact =>
    intro hn
    rw [h.exact (hfits hn).1 (hfits hn).2]
    exact ⟨f n, rfl, hf n⟩
  case wraps =>
    intro v hv
    rcases Option.map_eq_some_iff.mp hv with ⟨res, hres, hmap⟩
    rcases Option.map_eq_some_iff.mp hmap with ⟨k', rfl, rfl⟩
    exact ⟨k', hf k', h.wraps k' hres⟩

theorem cparserGetFnTbl_number (hw : w ∈ nodeWords node) (htoken : token.buf = w)
    (hnumber : wordNumber node.type w = some n)
    : NumberGot node.type (cparserGetFnTbl is_reg node.type token) n := by
  have fits_natural {type : NodeType} {k : Nat} (htype : type ≠ .INT ∧ type ≠ .INT64) (h : Fits type k)
      : k < 2 ^ numberBits type := by
    unfold Fits at h
    split at h
    . exact absurd rfl htype.1
    . exact absurd rfl htype.2
    . exact_mod_cast h.2
  unfold nodeWords at hw
  unfold cparserGetFnTbl
  rw [htoken]
  cases htype : node.type with
  | UINT =>
    rw [htype] at hw hnumber
    cases hnumber
    exact (reads_uintWords (by decide) hw).numberGot (fun _ => rfl) (fits_natural (by decide))
  | UINT64 =>
    rw [htype] at hw hnumber
    cases hnumber
    exact (reads_uintWords (by decide) hw).numberGot (fun _ => rfl) (fits_natural (by decide))
  | INT =>
    rw [htype] at hw hnumber
    cases hnumber
    exact (readsInt_intWords (by decide) hw).numberGot (fun _ => rfl) id
  | INT64 =>
    rw [htype] at hw hnumber
    cases hnumber
    exact (readsInt_intWords (by decide) hw).numberGot (fun _ => rfl) id
  | HEX =>
    rw [htype] at hw hnumber
    cases hnumber
    rcases hw with ⟨h, hh, rfl⟩
    exact (reads_hex (by decide) hh).numberGot (fun _ => rfl) (fits_natural (by decide))
  | HEX64 =>
    rw [htype] at hw hnumber
    cases hnumber
    rcases hw with ⟨h, hh, rfl⟩
    exact (reads_hex (by decide) hh).numberGot (fun _ => rfl) (fits_natural (by decide))
  | IPV4ADDR =>
    rw [htype] at hw hnumber
    cases hnumber
    rcases cparserGetIpv4addr_eq hw with ⟨heq, hlt⟩
    have hreads : Reads (2 ^ numberBits .IPV4ADDR) (cparserGetIpv4addr w) (ipv4Number w) := by
      rw [heq]
      refine ⟨nofun, fun _ => rfl, fun v hv => ?_⟩
      cases hv
      exact (Nat.mod_eq_of_lt hlt).symm
    exact hreads.numberGot (fun _ => rfl) (fits_natural (by decide))
  | _ =>
    rw [htype] at hnumber
    contradiction

theorem cparserGetList_eq (hnode : token.node = some node) (htype : node.type = .LIST)
    (habbr : abbreviated node.paramList token.buf = [keyword])
    (hfirst : ∀ kw ∈ node.paramList, kw <+: token.buf → kw = keyword)
    : cparserGetList token = some (some keyword) := by
  have hmem : keyword ∈ abbreviated node.paramList token.buf := by
    rw [habbr]
    exact List.mem_singleton_self keyword
  have hkeyword := List.mem_filter.mp hmem
  have hcompares (kw : List Char) : strncmp token.buf kw (min kw.length token.buf.length) = 0
      ↔ kw <+: token.buf ∨ token.buf <+: kw := by
    rw [strncmp_eq_zero]
    rcases Nat.le_total kw.length token.buf.length with hle | hle
    . rw [Nat.min_eq_left hle, List.take_length]
      constructor
      . exact fun h => .inl (List.prefix_iff_eq_take.mpr h.symm)
      . rintro (h | h)
        . exact (List.prefix_iff_eq_take.mp h).symm
        . have heq := h.eq_of_length (Nat.le_antisymm h.length_le hle)
          rw [heq, List.take_length]
    . rw [Nat.min_eq_right hle, List.take_length]
      constructor
      . exact fun h => .inr (List.prefix_iff_eq_take.mpr h)
      . rintro (h | h)
        . have heq := h.eq_of_length (Nat.le_antisymm h.length_le hle)
          rw [heq, List.take_length]
        . exact List.prefix_iff_eq_take.mp h
  unfold cparserGetList
  rw [hnode]
  dsimp only
  rw [if_neg (not_not.mpr htype)]
  congr 1
  cases hfind : node.paramList.find? _ with
  | none =>
    have hnone := List.find?_eq_none.mp hfind keyword hkeyword.1
    rw [decide_eq_true_iff, hcompares] at hnone
    exact absurd (.inr (of_decide_eq_true hkeyword.2)) hnone
  | some kw =>
    have hcomp := List.find?_some hfind
    have hkw := List.mem_of_find?_eq_some hfind
    rw [decide_eq_true_iff, hcompares] at hcomp
    rcases hcomp with h | h
    . rw [hfirst kw hkw h]
    . have hmem : kw ∈ abbreviated node.paramList token.buf := List.mem_filter.mpr ⟨hkw, decide_eq_true h⟩
      rw [habbr, List.mem_singleton] at hmem
      rw [hmem]

theorem cparserGetFnTbl_list (hnode : token.node = some node) (htype : node.type = .LIST)
    (hmatch : cparserMatchFnTbl node token.buf = some true)
    (hkeywords : ∀ a ∈ node.paramList, ∀ b ∈ node.paramList, a <+: b → a = b)
    : ∃ keyword, abbreviated node.paramList token.buf = [keyword]
        ∧ cparserGetFnTbl is_reg node.type token = some (some (.string keyword)) := by
  have hone : (abbreviated node.paramList token.buf).length = 1 := by
    have hlist : cparserMatchList node.paramList token.buf = some true := by
      rw [← hmatch, cparserMatchFnTbl, htype]
    rw [cparserMatchList_eq] at hlist
    split at hlist
    . cases hlist
    . exact of_decide_eq_true (Option.some.inj hlist)
  rcases List.length_eq_one_iff.mp hone with ⟨keyword, habbr⟩
  have hmem : keyword ∈ abbreviated node.paramList token.buf := habbr ▸ List.mem_singleton_self keyword
  have hkeyword := List.mem_filter.mp hmem
  refine ⟨keyword, habbr, ?_⟩
  have hget := cparserGetList_eq hnode htype habbr fun kw hkw hbegin =>
    hkeywords kw hkw keyword hkeyword.1 (hbegin.trans (of_decide_eq_true hkeyword.2))
  rw [htype]
  simp [cparserGetFnTbl, hget]

/-- On a complete token no assertion of the function that gets its value fails. -/
theorem cparserGetFnTbl_defined (hw : token.buf ≠ []) (hnode : token.node = some node)
    (hparam : node.type ≠ .KEYWORD) (hmatch : cparserMatchFnTbl node token.buf = some true)
    : cparserGetFnTbl is_reg node.type token ≠ none := by
  have hwords (hfloat : node.type ≠ .FLOAT) (hlist : node.type ≠ .LIST) : token.buf ∈ nodeWords node :=
    ((cparserMatchFnTbl_recognizes node hfloat hlist).complete token.buf hw).mp hmatch
  have hnumber {n : Int} (hfloat : node.type ≠ .FLOAT) (hlist : node.type ≠ .LIST)
      (h : wordNumber node.type token.buf = some n) : cparserGetFnTbl is_reg node.type token ≠ none :=
    (cparserGetFnTbl_number (hwords hfloat hlist) rfl h).defined
  cases htype : node.type with
  | ROOT => simp [cparserMatchFnTbl, htype] at hmatch
  | END => simp [cparserMatchFnTbl, htype] at hmatch
  | KEYWORD => exact absurd htype hparam
  | STRING => simp [cparserGetFnTbl, cparserGetString, hw]
  | FLOAT => simp [cparserGetFnTbl, cparserGetFloat, hw]
  | FILE =>
    unfold cparserGetFnTbl cparserGetFile
    dsimp only
    rw [if_neg hw]
    split
    . exact Option.some_ne_none _
    . exact Option.some_ne_none _
  | MACADDR =>
    have hword := hwords (by rw [htype]; decide) (by rw [htype]; decide)
    unfold nodeWords at hword
    rw [htype] at hword
    simp [cparserGetFnTbl, cparserGetMacaddr_eq hword]
  | LIST => simp [cparserGetFnTbl, cparserGetList, hnode, htype]
  | UINT | UINT64 | INT | INT64 | HEX | HEX64 | IPV4ADDR =>
    rw [← htype]
    exact hnumber (by rw [htype]; decide) (by rw [htype]; decide) (by rw [htype]; rfl)

theorem cparserGetFnTbl_defined_uint
    : cparserGetFnTbl (fun _ => false) .UINT
        { blankToken with buf := ['4', '2'], node := some (.mk .UINT [] (.text ['n']) none []) } ≠ none :=
  @cparserGetFnTbl_defined (fun _ => false) (.mk .UINT [] (.text ['n']) none [])
    { blankToken with buf := ['4', '2'], node := some (.mk .UINT [] (.text ['n']) none []) }
    (List.cons_ne_nil _ _) rfl (by decide) (by decide)

/--
The functions of a node agree on its words: the match function takes exactly these as complete and lets exactly
their begins through, and a word that means a number gives this number when it fits the type of the node.
-/
theorem match_get_agree (is_reg : List Char → Bool) (node : CparserNode) (hfloat : node.type ≠ .FLOAT)
    (hlist : node.type ≠ .LIST) (w : List Char) (hw : w ≠ [])
    : (cparserMatchFnTbl node w = some true ↔ w ∈ nodeWords node)
        ∧ (cparserMatchFnTbl node w ≠ none ↔ ∃ v, w ++ v ∈ nodeWords node)
        ∧ ∀ token n, cparserMatchFnTbl node w = some true → token.buf = w → wordNumber node.type w = some n →
          NumberGot node.type (cparserGetFnTbl is_reg node.type token) n := by
  have hmatch := cparserMatchFnTbl_recognizes node hfloat hlist
  refine ⟨hmatch.complete w hw, hmatch.viable w hw, ?_⟩
  intro token n hcomplete htoken hnumber
  exact cparserGetFnTbl_number ((hmatch.complete w hw).mp hcomplete) htoken hnumber

theorem match_get_agree_uint
    : (cparserMatchFnTbl (.mk .UINT [] (.text ['n']) none []) ['4', '2'] = some true
          ↔ ['4', '2'] ∈ nodeWords (.mk .UINT [] (.text ['n']) none []))
        ∧ (cparserMatchFnTbl (.mk .UINT [] (.text ['n']) none []) ['4', '2'] ≠ none
          ↔ ∃ v, ['4', '2'] ++ v ∈ nodeWords (.mk .UINT [] (.text ['n']) none []))
        ∧ NumberGot .UINT
            (cparserGetFnTbl (fun _ => false) .UINT { blankToken with buf := ['4', '2'] }) 42 := by
  rcases match_get_agree (fun _ => false) (.mk .UINT [] (.text ['n']) none []) (by decide) (by decide)
    ['4', '2'] (by decide) with ⟨hcomplete, hviable, hgot⟩
  exact ⟨hcomplete, hviable, hgot { blankToken with buf := ['4', '2'] } 42 (by decide) rfl (by decide)⟩

end Get

end SecFw.Client
