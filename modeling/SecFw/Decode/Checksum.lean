import SecFw.Decode.Tiling
import SecFw.OnesComplement.Basic

/-!
This module contains the checksum of an IPv4 header with every addition that the code makes, and the
proof that a header with its checksum adds up to `0xFFFF`.
-/

namespace SecFw.Decode

def addBelow (bound a b : Nat) : Option Nat := if a + b < bound then some (a + b) else none

def addHalves (csum : UInt32) (halves : List UInt16) : Option UInt32 := do
  -- `csum += pkt[i] + pkt[j] + ..`, the halfwords are added up as `int`
  let sum ← halves.foldlM (fun acc half => addBelow (2 ^ 31) acc half.toNat) 0
  let csum ← addBelow (2 ^ 32) csum.toNat sum
  some (UInt32.ofNat csum)

def addOptions (csum : UInt32) (pkt : Nat → UInt16) (hlen : UInt16) : Option UInt32 :=
  if hlen = 0 then
    some csum
  else if hlen = 4 then
    addHalves csum [pkt 0, pkt 1]
  else if hlen = 8 then
    addHalves csum [pkt 0, pkt 1, pkt 2, pkt 3]
  else if hlen = 12 then
    addHalves csum [pkt 0, pkt 1, pkt 2, pkt 3, pkt 4, pkt 5]
  else if hlen = 16 then
    addHalves csum [pkt 0, pkt 1, pkt 2, pkt 3, pkt 4, pkt 5, pkt 6, pkt 7]
  else if hlen = 20 then
    addHalves csum [pkt 0, pkt 1, pkt 2, pkt 3, pkt 4, pkt 5, pkt 6, pkt 7, pkt 8, pkt 9]
  else if hlen = 24 then
    addHalves csum [pkt 0, pkt 1, pkt 2, pkt 3, pkt 4, pkt 5, pkt 6, pkt 7, pkt 8, pkt 9, pkt 10,
      pkt 11]
  else if hlen = 28 then
    addHalves csum [pkt 0, pkt 1, pkt 2, pkt 3, pkt 4, pkt 5, pkt 6, pkt 7, pkt 8, pkt 9, pkt 10,
      pkt 11, pkt 12, pkt 13]
  else if hlen = 32 then
    addHalves csum [pkt 0, pkt 1, pkt 2, pkt 3, pkt 4, pkt 5, pkt 6, pkt 7, pkt 8, pkt 9, pkt 10,
      pkt 11, pkt 12, pkt 13, pkt 14, pkt 15]
  else if hlen = 36 then
    addHalves csum [pkt 0, pkt 1, pkt 2, pkt 3, pkt 4, pkt 5, pkt 6, pkt 7, pkt 8, pkt 9, pkt 10,
      pkt 11, pkt 12, pkt 13, pkt 14, pkt 15, pkt 16, pkt 17]
  else if hlen = 40 then
    addHalves csum [pkt 0, pkt 1, pkt 2, pkt 3, pkt 4, pkt 5, pkt 6, pkt 7, pkt 8, pkt 9, pkt 10,
      pkt 11, pkt 12, pkt 13, pkt 14, pkt 15, pkt 16, pkt 17, pkt 18, pkt 19]
  else
    some csum

def foldCarry (csum : UInt32) : Option UInt16 := do
  let csum ← addBelow (2 ^ 32) (csum >>> 16).toNat (csum &&& 0x0000FFFF).toNat
  let csum := UInt32.ofNat csum
  let csum ← addBelow (2 ^ 32) csum.toNat (csum >>> 16).toNat
  some (~~~(UInt32.ofNat csum)).toUInt16

def complement (csum : UInt32) : UInt16 :=
  let csum := (csum >>> 16) + (csum &&& 0x0000FFFF)
  let csum := csum + (csum >>> 16)
  (~~~csum).toUInt16

def ipv4CalculateChecksum (pkt : Nat → UInt16) (hlen : UInt16) : Option UInt16 := do
  -- without a result when a sum does not fit into its type
  let csum := (pkt 0).toUInt32
  let csum ← addHalves csum [pkt 1, pkt 2, pkt 3, pkt 4, pkt 6, pkt 7, pkt 8, pkt 9]
  let hlen := hlen - 20
  let csum ← addOptions csum (fun k => pkt (10 + k)) hlen
  foldCarry csum

section Sum

variable {csum : UInt32} {halves : List UInt16}

theorem sum_halves_le (halves : List UInt16)
    : (halves.map UInt16.toNat).sum ≤ halves.length * 65535 := by
  induction halves with
  | nil => simp
  | cons half halves ih =>
    have hhalf := half.toNat_lt
    rw [List.map_cons, List.sum_cons, List.length_cons]
    omega

theorem foldlM_addBelow {bound acc : Nat} (h : acc + (halves.map UInt16.toNat).sum < bound)
    : halves.foldlM (fun acc half => addBelow bound acc half.toNat) acc
        =
      some (acc + (halves.map UInt16.toNat).sum) := by
  induction halves generalizing acc with
  | nil => rfl
  | cons half halves ih =>
    rw [List.map_cons, List.sum_cons] at h
    rw [List.foldlM_cons, addBelow, if_pos (by omega), Option.bind_eq_bind, Option.bind_some,
      ih (by omega), List.map_cons, List.sum_cons, Nat.add_assoc]

theorem addHalves_eq (csum : UInt32) (halves : List UInt16) (hlen : halves.length ≤ 20)
    (hcsum : csum.toNat ≤ 9 * 65535)
    : ∃ csum', addHalves csum halves = some csum'
        ∧ csum'.toNat = csum.toNat + (halves.map UInt16.toNat).sum := by
  have hle := sum_halves_le halves
  have hmul := Nat.mul_le_mul_right 65535 hlen
  refine ⟨UInt32.ofNat (csum.toNat + (halves.map UInt16.toNat).sum), ?_, ?_⟩
  . unfold addHalves
    rw [foldlM_addBelow (by omega), Option.bind_eq_bind, Option.bind_some, Nat.zero_add, addBelow,
      if_pos (by omega), Option.bind_some]
  . rw [UInt32.toNat_ofNat_of_lt']
    simp only [UInt32.size]
    omega

theorem addOptions_eq (csum : UInt32) (pkt : Nat → UInt16) {words : Nat} (hmin : 5 ≤ words)
    (hmax : words ≤ 15)
    : addOptions csum pkt (UInt16.ofNat (4 * words) - 20)
        =
      addHalves csum ((List.range (2 * (words - 5))).map pkt) := by
  interval_cases words
  case «5» =>
    have hcsum : csum.toNat + 0 < 2 ^ 32 := csum.toNat_lt
    have hempty : addHalves csum [] = some csum := by
      rw [addHalves, List.foldlM_nil, Option.pure_def, Option.bind_eq_bind, Option.bind_some, addBelow,
        if_pos hcsum, Option.bind_some, Nat.add_zero, UInt32.ofNat_toNat]
    exact hempty.symm
  all_goals rfl

theorem foldCarry_eq (csum : UInt32) (hcsum : csum.toNat ≤ 29 * 65535)
    : foldCarry csum = some (complement csum)
        ∧ (complement csum).toNat + OnesComplement.fold 16 (OnesComplement.fold 16 csum.toNat)
          = 65535 := by
  have hhigh (n : UInt32) : (n >>> 16).toNat = n.toNat / 2 ^ 16 := by
    rw [UInt32.toNat_shiftRight, Nat.shiftRight_eq_div_pow]
    rfl
  have hlow (n : UInt32) : (n &&& 0x0000FFFF).toNat = n.toNat % 2 ^ 16 := by
    rw [UInt32.toNat_and]
    exact Nat.and_two_pow_sub_one_eq_mod n.toNat 16
  have hone : (csum >>> 16).toNat + (csum &&& 0x0000FFFF).toNat < 2 ^ 32 := by
    rw [hhigh, hlow]
    omega
  have hofNat (a b : UInt32) : UInt32.ofNat (a.toNat + b.toNat) = a + b := by
    rw [UInt32.ofNat_add, UInt32.ofNat_toNat, UInt32.ofNat_toNat]
  have honce : ((csum >>> 16) + (csum &&& 0x0000FFFF)).toNat = OnesComplement.fold 16 csum.toNat := by
    rw [UInt32.toNat_add, Nat.mod_eq_of_lt hone, hhigh, hlow, OnesComplement.fold]
  have hle : OnesComplement.fold 16 csum.toNat ≤ 28 + 65535 := by
    unfold OnesComplement.fold
    omega
  unfold foldCarry complement
  rw [addBelow, if_pos hone, Option.bind_eq_bind, Option.bind_some, hofNat]
  dsimp only
  generalize (csum >>> 16) + (csum &&& 0x0000FFFF) = once at honce
  have htwo : once.toNat + (once >>> 16).toNat < 2 ^ 32 := by
    rw [hhigh, honce]
    omega
  constructor
  . rw [addBelow, if_pos htwo, Option.bind_some, hofNat]
  . rw [UInt32.toNat_toUInt16, UInt32.toNat_not, UInt32.toNat_add, Nat.mod_eq_of_lt htwo, hhigh, honce]
    generalize OnesComplement.fold 16 csum.toNat = n at hle
    simp only [OnesComplement.fold, UInt32.size]
    omega

end Sum

section Header

variable {pkt : Nat → UInt16} {words : Nat}

def otherHalves (pkt : Nat → UInt16) (words : Nat) : List UInt16 :=
  ([0, 1, 2, 3, 4, 6, 7, 8, 9] ++ (List.range (2 * (words - 5))).map fun k => 10 + k).map pkt

theorem ipv4CalculateChecksum_eq (pkt : Nat → UInt16) (hmin : 5 ≤ words) (hmax : words ≤ 15)
    : ∃ csum, ipv4CalculateChecksum pkt (UInt16.ofNat (4 * words)) = foldCarry csum
        ∧ csum.toNat = ((otherHalves pkt words).map UInt16.toNat).sum := by
  have hfirst : (pkt 0).toUInt32.toNat = (pkt 0).toNat := UInt16.toNat_toUInt32 _
  have hhalf := (pkt 0).toNat_lt
  rcases addHalves_eq (pkt 0).toUInt32
    [pkt 1, pkt 2, pkt 3, pkt 4, pkt 6, pkt 7, pkt 8, pkt 9] (by simp) (by omega) with
    ⟨csum1, hadd1, hcsum1⟩
  have hsum1 := sum_halves_le [pkt 1, pkt 2, pkt 3, pkt 4, pkt 6, pkt 7, pkt 8, pkt 9]
  simp only [List.length_cons, List.length_nil] at hsum1
  have hlen : ((List.range (2 * (words - 5))).map fun k => pkt (10 + k)).length ≤ 20 := by
    rw [List.length_map, List.length_range]
    omega
  rcases addHalves_eq csum1 _ hlen (by omega) with ⟨csum2, hadd2, hcsum2⟩
  refine ⟨csum2, ?_, ?_⟩
  . unfold ipv4CalculateChecksum
    dsimp only
    rw [hadd1, Option.bind_eq_bind, Option.bind_some, addOptions_eq _ _ hmin hmax, hadd2,
      Option.bind_some]
  . rw [hcsum2, hcsum1, hfirst]
    simp only [otherHalves, List.map_append, List.sum_append, List.map_cons, List.map_nil,
      List.sum_cons, List.sum_nil, List.map_map, Function.comp_def]

theorem sum_otherHalves_le (pkt : Nat → UInt16) (hmax : words ≤ 15)
    : ((otherHalves pkt words).map UInt16.toNat).sum ≤ 29 * 65535 := by
  have hle := sum_halves_le (otherHalves pkt words)
  have hlen : (otherHalves pkt words).length ≤ 29 := by
    simp only [otherHalves, List.length_map, List.length_append, List.length_cons, List.length_nil,
      List.length_range]
    omega
  exact Nat.le_trans hle (Nat.mul_le_mul_right 65535 hlen)

theorem toNat_sum_toUInt32 {halves : List UInt16} (h : (halves.map UInt16.toNat).sum < 2 ^ 32)
    : ((halves.map UInt16.toUInt32).sum).toNat = (halves.map UInt16.toNat).sum := by
  induction halves with
  | nil => rfl
  | cons half halves ih =>
    rw [List.map_cons, List.sum_cons] at h
    rw [List.map_cons, List.sum_cons, List.map_cons, List.sum_cons, UInt32.toNat_add, ih (by omega),
      UInt16.toNat_toUInt32, Nat.mod_eq_of_lt h]

theorem ipv4CalculateChecksum_compact (pkt : Nat → UInt16) (hmin : 5 ≤ words)
    (hmax : words ≤ 15)
    : ipv4CalculateChecksum pkt (UInt16.ofNat (4 * words))
        =
      some (headerChecksum pkt (UInt16.ofNat (4 * words))) := by
  rcases ipv4CalculateChecksum_eq pkt hmin hmax with ⟨csum, hunrolled, hcsum⟩
  have hle := sum_otherHalves_le pkt hmax
  have hoptions : (UInt16.ofNat (4 * words) - 20) % 4 = 0 ∧ UInt16.ofNat (4 * words) - 20 ≤ 40
      ∧ (UInt16.ofNat (4 * words) - 20).toNat / 2 = 2 * (words - 5) := by
    interval_cases words <;> decide
  have hsplit : ((otherHalves pkt words).map UInt16.toNat).sum
      = ((((List.range' 0 5).map pkt).map UInt16.toNat).sum
        + (((List.range' 6 4).map pkt).map UInt16.toNat).sum)
        + (((List.range' 10 (2 * (words - 5))).map pkt).map UInt16.toNat).sum := by
    rw [otherHalves, List.range'_eq_map_range (s := 10)]
    simp only [List.map_append, List.sum_append, List.map_cons, List.map_nil, List.sum_cons,
      List.sum_nil, List.range'_succ, List.range'_zero, Nat.reduceAdd]
    omega
  have htoNat (first count : Nat) (h : (((List.range' first count).map pkt).map UInt16.toNat).sum < 2 ^ 32)
      : (headerChecksum.sum pkt first count).toNat
        = (((List.range' first count).map pkt).map UInt16.toNat).sum := by
    rw [← toNat_sum_toUInt32 h, headerChecksum.sum, List.map_map]
    rfl
  have hcompact : headerChecksum pkt (UInt16.ofNat (4 * words)) = complement csum := by
    unfold headerChecksum complement
    dsimp only
    rw [if_pos ⟨hoptions.1, hoptions.2.1⟩, hoptions.2.2]
    have hsum : headerChecksum.sum pkt 0 5 + headerChecksum.sum pkt 6 4
        + headerChecksum.sum pkt 10 (2 * (words - 5)) = csum := by
      apply UInt32.toNat_inj.mp
      rw [hcsum, hsplit, UInt32.toNat_add, UInt32.toNat_add, htoNat 0 5 (by omega),
        htoNat 6 4 (by omega), htoNat 10 _ (by omega)]
      omega
    rw [hsum]
  rw [hunrolled, hcompact]
  exact (foldCarry_eq _ (by omega)).1

end Header

section Stored

variable {p : Mbuf} {words : Nat}

def headerHalves (p : Mbuf) (words : Nat) : List UInt16 :=
  (List.range (2 * words)).map fun k => p.ipHalf (2 * k)

theorem sum_headerHalves (p : Mbuf) (hmin : 5 ≤ words)
    : ((headerHalves p words).map UInt16.toNat).sum
        =
      ((otherHalves (fun k => p.ipHalf (2 * k)) words).map UInt16.toNat).sum + (p.ipHalf 10).toNat := by
  have hsplit : 2 * words = 10 + 2 * (words - 5) := by omega
  have hrange : List.range (2 * words)
      = [0, 1, 2, 3, 4, 5, 6, 7, 8, 9] ++ (List.range (2 * (words - 5))).map (10 + ·) := by
    rw [hsplit, List.range_add]
    rfl
  rw [headerHalves, hrange, otherHalves]
  simp only [List.map_append, List.sum_append, List.map_cons, List.map_nil, List.sum_cons,
    List.sum_nil, List.map_map, Function.comp_def, Nat.reduceMul]
  omega

theorem otherHalves_setChecksum (csum : UInt16)
    (hfits : p.networkOffset + 4 * words ≤ p.pkt.length) (hmin : 5 ≤ words)
    : otherHalves (fun k => (p.IPV4_SET_IPCSUM csum).ipHalf (2 * k)) words
        =
      otherHalves (fun k => p.ipHalf (2 * k)) words := by
  apply List.map_congr_left
  intro k hk
  have hne : k ≠ 5 := by
    simp only [List.mem_append, List.mem_cons, List.not_mem_nil, List.mem_map, or_false] at hk
    omega
  apply Mbuf.ipHalf_setIpHalf_of_ne
  . omega
  . omega

theorem sum_setChecksum {csum : UInt16} (hfits : p.networkOffset + 4 * words ≤ p.pkt.length)
    (hmin : 5 ≤ words)
    (hcsum : csum.toNat + OnesComplement.fold 16 (OnesComplement.fold 16
      ((otherHalves (fun k => p.ipHalf (2 * k)) words).map UInt16.toNat).sum) = 65535)
    : OnesComplement.sum 16 ((headerHalves (p.IPV4_SET_IPCSUM csum) words).map UInt16.toNat)
        =
      0xFFFF := by
  have hwords : ∀ a ∈ (headerHalves (p.IPV4_SET_IPCSUM csum) words).map UInt16.toNat, a < 2 ^ 16 := by
    intro a ha
    rcases List.mem_map.mp ha with ⟨half, -, rfl⟩
    exact half.toNat_lt
  have hstored : (p.IPV4_SET_IPCSUM csum).ipHalf 10 = csum := by
    apply Mbuf.ipHalf_setIpHalf
    omega
  apply (OnesComplement.sum_eq_max_iff (by decide) hwords).mpr
  rw [sum_headerHalves _ hmin, otherHalves_setChecksum csum hfits hmin, hstored]
  generalize ((otherHalves (fun k => p.ipHalf (2 * k)) words).map UInt16.toNat).sum = n at hcsum
  constructor
  . have hfold := (OnesComplement.fold_modEq 16 (OnesComplement.fold 16 n)).trans
      (OnesComplement.fold_modEq 16 n)
    have hmod := hfold.symm.add_right csum.toNat
    rw [Nat.add_comm (OnesComplement.fold _ _), hcsum] at hmod
    exact Nat.modEq_zero_iff_dvd.mp hmod
  . intro hzero
    have hn : n = 0 := Nat.eq_zero_of_add_eq_zero_right hzero
    rw [OnesComplement.fold_eq_zero.mpr (OnesComplement.fold_eq_zero.mpr hn)] at hcsum
    omega

/-- A header with its checksum adds up to `0xFFFF`, whatever it contains. -/
theorem checksum_valid (p : Mbuf) (words : Nat) (hmin : 5 ≤ words) (hmax : words ≤ 15)
    (hfits : p.networkOffset + 4 * words ≤ p.pkt.length)
    : ∃ csum, ipv4CalculateChecksum (fun k => p.ipHalf (2 * k)) (UInt16.ofNat (4 * words))
          = some csum
        ∧ OnesComplement.sum 16 ((headerHalves (p.IPV4_SET_IPCSUM csum) words).map UInt16.toNat)
          = 0xFFFF := by
  rcases ipv4CalculateChecksum_eq (fun k => p.ipHalf (2 * k)) hmin hmax with
    ⟨sum, hunrolled, hsum⟩
  have hle := sum_otherHalves_le (fun k => p.ipHalf (2 * k)) hmax
  rcases foldCarry_eq sum (by omega) with ⟨hfold, hvalue⟩
  refine ⟨complement sum, hunrolled.trans hfold, ?_⟩
  rw [hsum] at hvalue
  exact sum_setChecksum hfits hmin hvalue

def staleFrame : List UInt8 :=
  List.replicate 14 0
    ++ [0x46, 0, 0, 40, 0x12, 0x34, 0x20, 0, 64, 17, 0xAB, 0xCD, 10, 0, 0, 1, 10, 0, 0, 2, 1, 1, 1, 0]
    ++ List.replicate 16 7

def stalePacket : Mbuf := { octRxProcessWork staleFrame 0x1000 0 with network_header := 0x100E }

theorem checksum_valid_stalePacket
    : 5 ≤ 6 ∧ 6 ≤ 15 ∧ stalePacket.networkOffset + 4 * 6 ≤ stalePacket.pkt.length
        ∧ ∃ csum, ipv4CalculateChecksum (fun k => stalePacket.ipHalf (2 * k))
            (UInt16.ofNat (4 * 6)) = some csum
          ∧ OnesComplement.sum 16
              ((headerHalves (stalePacket.IPV4_SET_IPCSUM csum) 6).map UInt16.toNat) = 0xFFFF :=
  ⟨by decide, by decide, by decide, checksum_valid stalePacket 6 (by decide) (by decide) (by decide)⟩

theorem sum_finishHeader (reasm_mb : Mbuf) (len : Int) (hmin : 5 ≤ words) (hmax : words ≤ 15)
    (hfits : reasm_mb.networkOffset + 4 * words ≤ reasm_mb.pkt.length)
    : OnesComplement.sum 16 ((headerHalves (finishHeader reasm_mb len (4 * words)) words).map UInt16.toNat)
        =
      0xFFFF := by
  unfold finishHeader
  dsimp only
  have hlen : (((reasm_mb.IPV4_SET_IPLEN (UInt16.ofInt len)).setIpHalf 6 0).pkt).length
      = reasm_mb.pkt.length := by
    rw [Mbuf.length_pkt_setIpHalf, Mbuf.IPV4_SET_IPLEN, Mbuf.length_pkt_setIpHalf]
    . omega
    . rw [Mbuf.IPV4_SET_IPLEN, Mbuf.length_pkt_setIpHalf, Mbuf.networkOffset_setIpHalf]
      . omega
      . omega
  generalize hp : (reasm_mb.IPV4_SET_IPLEN (UInt16.ofInt len)).setIpHalf 6 0 = p at hlen
  have hoffset : p.networkOffset = reasm_mb.networkOffset := by
    rw [← hp, Mbuf.networkOffset_setIpHalf, Mbuf.IPV4_SET_IPLEN, Mbuf.networkOffset_setIpHalf]
  rcases ipv4CalculateChecksum_eq (fun k => p.ipHalf (2 * k)) hmin hmax with
    ⟨sum, hunrolled, hsum⟩
  have hle := sum_otherHalves_le (fun k => p.ipHalf (2 * k)) hmax
  rcases foldCarry_eq sum (by omega) with ⟨hfold, hvalue⟩
  have hcompact := ipv4CalculateChecksum_compact (fun k => p.ipHalf (2 * k)) hmin hmax
  rw [hunrolled, hfold, Option.some.injEq] at hcompact
  rw [← hcompact]
  rw [hsum] at hvalue
  exact sum_setChecksum (by omega) hmin hvalue

theorem exists_words (m : Mbuf) : ∃ words ≤ 15, m.IPV4_GET_HLEN = 4 * words := by
  refine ⟨(m.ipByte 0 &&& 0x0f).toNat, ?_, ?_⟩
  . rw [toNat_lowBits]
    omega
  . rw [Mbuf.IPV4_GET_HLEN, Nat.shiftLeft_eq, Nat.mul_comm]

theorem Gathered.sum_header {fcb : Fcb} {head gathered r : Mbuf} {rest : List Mbuf}
    (h : Gathered fcb head rest gathered r) (hhead : AsDecoded head)
    : ∃ words, r.IPV4_GET_HLEN = 4 * words
        ∧ OnesComplement.sum 16 ((headerHalves r words).map UInt16.toNat) = 0xFFFF := by
  rcases exists_words head with ⟨words, hmax, hwords⟩
  have hmin := hhead.hlen
  have htotal := hhead.pkt_totallen
  have hpkt := hhead.pkt
  have hpos := hhead.frag_len
  have hfits : gathered.networkOffset + 4 * words ≤ gathered.pkt.length := by
    rw [h.networkOffset, h.pkt, List.length_append]
    omega
  have heq := h.eq
  rw [hwords] at heq
  refine ⟨words, ?_, heq ▸ sum_finishHeader _ _ (by omega) hmax hfits⟩
  rcases finishHeader_spec (((4 * words : Nat) : Int) + fcb.total_fraglen) (4 * words)
    (show gathered.networkOffset + 20 ≤ gathered.pkt.length by omega) with ⟨hwrite, -⟩
  rw [heq, hwrite.hlen_eq, h.hlen, hwords]

end Stored

end SecFw.Decode
