import SecFw.Acl.LoadRule
import SecFw.Prefixes.Basic

/-!
This module contains the proof that the range of a rule is the prefix that its address and its mask
stand for.
-/

namespace SecFw.Acl

/-- The addresses have the same `mask` highest bits. -/
def SamePrefix (mask : Nat) (a b : UInt32) : Prop :=
  ∀ i, i < mask → a.toNat.testBit (31 - i) = b.toNat.testBit (31 - i)

theorem samePrefix_iff {mask : Nat} (h : mask ≤ 32) (a b : UInt32)
    : SamePrefix mask a b ↔ Prefixes.Same (32 - mask) a.toNat b.toNat := by
  constructor
  . intro hsame i hi
    by_cases hlt : i < 32
    . have hbit := hsame (31 - i) (by omega)
      rwa [show 31 - (31 - i) = i by omega] at hbit
    . have hpow : 2 ^ 32 ≤ 2 ^ i := Nat.pow_le_pow_right (by decide) (Nat.le_of_not_lt hlt)
      rw [Nat.testBit_lt_two_pow (Nat.lt_of_lt_of_le a.toNat_lt hpow),
        Nat.testBit_lt_two_pow (Nat.lt_of_lt_of_le b.toNat_lt hpow)]
  . intro hsame i hi
    apply hsame
    omega

section Octets

variable {ptrange xs ys : List UInt32} {o v k masklit1 masklit2 : UInt32}

theorem toNat_packOctets (hlen : ptrange.length ≤ 4) (hptrange : ∀ o ∈ ptrange, o.toNat < 2 ^ 8)
    : (packOctets ptrange).toNat = Prefixes.ofDigits 8 (ptrange.map UInt32.toNat) := by
  induction ptrange using List.reverseRecOn with
  | nil => rfl
  | append_singleton ptrange o ih =>
    rw [List.length_append, List.length_singleton] at hlen
    have hrest := ih (by omega) fun o ho => hptrange o (List.mem_append_left _ ho)
    have ho := hptrange o (by simp)
    have hdigits : ∀ d ∈ ptrange.map UInt32.toNat, d < 2 ^ 8 := by
      intro d hd
      rcases List.mem_map.mp hd with ⟨o, ho, rfl⟩
      exact hptrange o (List.mem_append_left _ ho)
    have hlt := Prefixes.ofDigits_lt hdigits
    have hpow : 2 ^ ((ptrange.map UInt32.toNat).length * 8) ≤ 2 ^ 24 := by
      apply Nat.pow_le_pow_right (by decide)
      rw [List.length_map]
      omega
    have hshift : ((packOctets ptrange) <<< (8 : UInt32)).toNat
        = Prefixes.ofDigits 8 (ptrange.map UInt32.toNat) * 2 ^ 8 := by
      have hbits : (8 : UInt32).toNat % 32 = 8 := rfl
      rw [UInt32.toNat_shiftLeft, hrest, hbits, Nat.shiftLeft_eq]
      apply Nat.mod_eq_of_lt
      omega
    have hconcat : packOctets (ptrange ++ [o]) = (packOctets ptrange <<< 8) + o := by
      rw [packOctets, packOctets, List.foldl_concat]
    rw [hconcat, List.map_append, List.map_singleton, Prefixes.ofDigits_concat, UInt32.toNat_add,
      hshift]
    apply Nat.mod_eq_of_lt
    omega

theorem toNat_masklit3 (hk : k.toNat < 32) : ((1 <<< k) - 1 : UInt32).toNat = 2 ^ k.toNat - 1 := by
  have hpow : 2 ^ k.toNat < 2 ^ 32 := Nat.pow_lt_pow_right (by decide) hk
  have hpos : 0 < 2 ^ k.toNat := Nat.two_pow_pos _
  have hshift : (1 <<< k : UInt32).toNat = 2 ^ k.toNat := by
    rw [UInt32.toNat_shiftLeft, Nat.mod_eq_of_lt hk, Nat.shiftLeft_eq, UInt32.toNat_one, Nat.one_mul,
      Nat.mod_eq_of_lt hpow]
  rw [UInt32.toNat_sub, hshift, UInt32.toNat_one]
  omega

theorem toNat_and_masklit3 (hk : k.toNat < 32)
    : (o &&& ~~~((1 <<< k) - 1)).toNat = Prefixes.first k.toNat o.toNat := by
  rw [UInt32.toNat_and, UInt32.toNat_not, toNat_masklit3 hk]
  exact Prefixes.and_not_mask hk.le o.toNat_lt

theorem toNat_or_masklit3 (hk : k.toNat < 32)
    : ((o &&& ~~~((1 <<< k) - 1)) ||| ((1 <<< k) - 1)).toNat = Prefixes.last k.toNat o.toNat := by
  rw [UInt32.toNat_or, toNat_and_masklit3 hk, toNat_masklit3 hk, Prefixes.first_or_mask]

theorem setOctets_append (hlen : xs.length + ys.length = 4) (v : UInt32)
    : setOctets (xs ++ ys) v ys.length = some (xs ++ List.replicate ys.length v) := by
  induction ys generalizing xs with
  | nil => rfl
  | cons y ys ih =>
    rw [List.length_cons] at hlen
    have hlen' : (xs ++ [y]).length + ys.length = 4 := by
      rw [List.length_append, List.length_singleton]
      omega
    have hrest := ih hlen'
    have hpos : 3 - ys.length = xs.length := by omega
    rw [List.append_assoc, List.singleton_append] at hrest
    rw [List.length_cons, setOctets, hrest, Option.bind_eq_bind, Option.bind_some, if_pos (by omega),
      hpos, List.append_assoc, List.set_append_right _ _ (Nat.le_refl _), Nat.sub_self]
    rfl

theorem setOctets_behind (hlen : xs.length + ys.length = 3) (v : UInt32)
    : setOctets (xs ++ o :: ys) v ys.length = some (xs ++ o :: List.replicate ys.length v) := by
  have hlen' : (xs ++ [o]).length + ys.length = 4 := by
    rw [List.length_append, List.length_singleton]
    omega
  have hset := setOctets_append hlen' v
  rwa [List.append_assoc, List.append_assoc] at hset

theorem maskOctet_append (hlen : xs.length + ys.length = 3) (hmasklit1 : masklit1.toNat = ys.length)
    {f : UInt32 → UInt32} (hf : masklit2 = 0 → f o = o)
    : maskOctet (xs ++ o :: ys) masklit1 masklit2 f = some (xs ++ f o :: ys) := by
  unfold maskOctet
  have hpos : 3 - masklit1.toNat = xs.length := by omega
  split
  . rw [if_pos (by omega), hpos, List.modify]
    have hmodify := List.modifyTailIdx_add (List.modifyHead f) 0 xs (o :: ys)
    rw [Nat.add_zero] at hmodify
    rw [hmodify]
    rfl
  . next hzero =>
    rw [hf (not_not.mp hzero)]

end Octets

section Range

variable {ipnet ipmask : UInt32}

def octets (ipnet : UInt32) : List UInt32 :=
  [ipnet >>> 24, (ipnet >>> 16) &&& 0x00FF, (ipnet >>> 8) &&& 0x0000FF, ipnet &&& 0x000000FF]

theorem toNat_octets (ipnet : UInt32)
    : (octets ipnet).map UInt32.toNat
        =
      [ipnet.toNat / 2 ^ 24, ipnet.toNat / 2 ^ 16 % 2 ^ 8, ipnet.toNat / 2 ^ 8 % 2 ^ 8,
        ipnet.toNat % 2 ^ 8] := by
  have hmask (n : Nat) : n &&& 255 = n % 2 ^ 8 := Nat.and_two_pow_sub_one_eq_mod n 8
  simp [octets, UInt32.toNat_shiftRight, UInt32.toNat_and, Nat.shiftRight_eq_div_pow, hmask]

theorem octets_lt : ∀ o ∈ octets ipnet, o.toNat < 2 ^ 8 := by
  intro o ho
  have hmem := List.mem_map_of_mem (f := UInt32.toNat) ho
  have hlt := ipnet.toNat_lt
  rw [toNat_octets] at hmem
  simp only [List.mem_cons, List.not_mem_nil, or_false] at hmem
  omega

theorem ofDigits_octets (ipnet : UInt32)
    : Prefixes.ofDigits 8 ((octets ipnet).map UInt32.toNat) = ipnet.toNat := by
  rw [toNat_octets]
  simp only [Prefixes.ofDigits, List.foldl_cons, List.foldl_nil]
  omega

theorem toNat_masklit (hmask : ipmask.toNat ≤ 32)
    : ((32 - ipmask) / 8).toNat = (32 - ipmask.toNat) / 8
        ∧ ((32 - ipmask) % 8).toNat = (32 - ipmask.toNat) % 8 := by
  have hsub : (32 - ipmask).toNat = 32 - ipmask.toNat := by
    apply UInt32.toNat_sub_of_le
    rw [UInt32.le_iff_toNat_le]
    exact hmask
  rw [UInt32.toNat_div, UInt32.toNat_mod, hsub]
  exact ⟨rfl, rfl⟩

theorem readIPRange_append {xs ys : List UInt32} {o : UInt32} (hoctets : octets ipnet = xs ++ o :: ys)
    (hmask : ipmask.toNat ≤ 32) (hys : (32 - ipmask.toNat) / 8 = ys.length)
    : readIPRange ipnet ipmask
        =
      let masklit3 := (1 <<< ((32 - ipmask) % 8)) - 1
      some (packOctets (xs ++ (o &&& ~~~masklit3) :: List.replicate ys.length 0),
        packOctets (xs ++ ((o &&& ~~~masklit3) ||| masklit3) :: List.replicate ys.length 255)) := by
  have hlen := congrArg List.length hoctets
  simp only [octets, List.length_cons, List.length_nil, List.length_append] at hlen
  have hmasklit1 : ((32 - ipmask) / 8).toNat = ys.length := by rw [(toNat_masklit hmask).1, hys]
  have hzero (h : (32 - ipmask) % 8 = 0) : (1 <<< ((32 - ipmask) % 8) : UInt32) - 1 = 0 := by
    rw [h]
    rfl
  have hsum : xs.length + ys.length = 3 := by omega
  have hmask' (f : UInt32 → UInt32) (v o : UInt32) (hf : (32 - ipmask) % 8 = 0 → f o = o)
      : maskOctet (xs ++ o :: List.replicate ys.length v) ((32 - ipmask) / 8) ((32 - ipmask) % 8) f
        = some (xs ++ f o :: List.replicate ys.length v) := by
    apply maskOctet_append
    . rw [List.length_replicate]
      exact hsum
    . rw [List.length_replicate]
      exact hmasklit1
    . exact hf
  have hsum' : xs.length + (List.replicate ys.length (0 : UInt32)).length = 3 := by
    rw [List.length_replicate]
    exact hsum
  have hend (o : UInt32) := setOctets_behind (o := o) hsum' 255
  simp only [List.length_replicate] at hend
  unfold readIPRange
  rw [← octets, hoctets]
  dsimp only
  rw [hmasklit1, setOctets_behind hsum, Option.bind_eq_bind, Option.bind_some,
    hmask' (fun octet => octet &&& _) 0 o (by intro h; simp [hzero h]), Option.bind_some, hend,
    Option.bind_some, hmask' (fun octet => octet ||| _) 255 _ (by intro h; simp [hzero h]),
    Option.bind_some]

theorem readIPRange_zero (ipnet : UInt32) : readIPRange ipnet 0 = some (0, 0xFFFFFFFF) := rfl

theorem exists_octets_split (ipnet : UInt32) {n : Nat} (hn : n ≤ 3)
    : ∃ xs o ys, octets ipnet = xs ++ o :: ys ∧ n = ys.length ∧ xs.length + ys.length = 3 := by
  have hlen : (octets ipnet).length = 4 := rfl
  have hpos : 3 - n < (octets ipnet).length := by omega
  refine ⟨_, _, _, (List.take_append_drop (3 - n) _).symm.trans
    (congrArg _ (List.drop_eq_getElem_cons hpos)), ?_, ?_⟩
  . rw [List.length_drop]
    omega
  . rw [List.length_take, List.length_drop]
    omega

theorem toNat_packOctets_replicate {n : Nat} (hlen : xs.length + n = 3)
    (hxs : ∀ o ∈ xs, o.toNat < 2 ^ 8) (ho : o.toNat < 2 ^ 8) (hv : v.toNat < 2 ^ 8)
    : (packOctets (xs ++ o :: List.replicate n v)).toNat
        =
      Prefixes.ofDigits 8 (xs.map UInt32.toNat ++ o.toNat :: List.replicate n v.toNat) := by
  rw [toNat_packOctets]
  . rw [List.map_append, List.map_cons, List.map_replicate]
  . rw [List.length_append, List.length_cons, List.length_replicate]
    omega
  . intro o' ho'
    rw [List.mem_append, List.mem_cons, List.mem_replicate] at ho'
    rcases ho' with hmem | rfl | ⟨-, rfl⟩
    . exact hxs o' hmem
    . exact ho
    . exact hv

theorem toNat_readIPRange (ipnet : UInt32) (hmask : ipmask.toNat ≤ 32)
    : ∃ start last, readIPRange ipnet ipmask = some (start, last)
        ∧ start.toNat = Prefixes.first (32 - ipmask.toNat) ipnet.toNat
        ∧ last.toNat = Prefixes.last (32 - ipmask.toNat) ipnet.toNat := by
  by_cases hzero : ipmask.toNat = 0
  . have hmask : ipmask = 0 := UInt32.toNat_inj.mp hzero
    subst hmask
    have hlt := Nat.div_eq_of_lt ipnet.toNat_lt
    refine ⟨_, _, readIPRange_zero ipnet, ?_, ?_⟩
    . rw [Prefixes.first, UInt32.toNat_zero, Nat.sub_zero, hlt, Nat.zero_mul]
    . rw [Prefixes.last, UInt32.toNat_zero, Nat.sub_zero, hlt, Nat.zero_mul, Nat.zero_add]
      rfl
  . have hdiv : (32 - ipmask.toNat) / 8 ≤ 3 := by omega
    rcases exists_octets_split ipnet hdiv with ⟨xs, o, ys, hoctets, hys, hlen⟩
    have hlt (o' : UInt32) (ho' : o' ∈ xs ++ o :: ys) : o'.toNat < 2 ^ 8 :=
      octets_lt o' (hoctets ▸ ho')
    have hk : ((32 - ipmask) % 8).toNat < 8 := by
      rw [(toNat_masklit hmask).2]
      omega
    have hdigits : ys.length * 8 + ((32 - ipmask) % 8).toNat = 32 - ipmask.toNat := by
      rw [(toNat_masklit hmask).2]
      omega
    have hipnet := ofDigits_octets ipnet
    rw [hoctets, List.map_append, List.map_cons] at hipnet
    have hxs : ∀ o' ∈ xs, o'.toNat < 2 ^ 8 := fun o' ho' => hlt o' (List.mem_append_left _ ho')
    have ho := hlt o (by simp)
    have hys' : ∀ d ∈ ys.map UInt32.toNat, d < 2 ^ 8 := by
      intro d hd
      rcases List.mem_map.mp hd with ⟨o', ho', rfl⟩
      exact hlt o' (by simp [ho'])
    refine ⟨_, _, readIPRange_append hoctets hmask hys, ?_, ?_⟩
    . rw [toNat_packOctets_replicate hlen hxs ?_ (by decide), toNat_and_masklit3 (by omega),
        ← hdigits, ← hipnet]
      . have hfirst := Prefixes.first_ofDigits (xs.map UInt32.toNat) o.toNat hk.le hys'
        rw [List.length_map] at hfirst
        exact hfirst.symm
      . rw [toNat_and_masklit3 (by omega)]
        exact Nat.lt_of_le_of_lt (Nat.div_mul_le_self _ _) ho
    . rw [toNat_packOctets_replicate hlen hxs ?_ (by decide), toNat_or_masklit3 (by omega),
        ← hdigits, ← hipnet]
      . have hlast := Prefixes.last_ofDigits (xs.map UInt32.toNat) o.toNat hk.le hys'
        rw [List.length_map] at hlast
        exact hlast.symm
      . rw [toNat_or_masklit3 (by omega)]
        exact Prefixes.last_lt hk.le ho

end Range

/-- The range of an address and a mask is the prefix of the address. -/
theorem readIPRange_prefix (ipnet ipmask : UInt32) (hmask : ipmask.toNat ≤ 32)
    : ∃ start last, readIPRange ipnet ipmask = some (start, last)
        ∧ ∀ a, start ≤ a ∧ a ≤ last ↔ SamePrefix ipmask.toNat a ipnet := by
  rcases toNat_readIPRange ipnet hmask with ⟨start, last, hrange, hstart, hlast⟩
  refine ⟨start, last, hrange, ?_⟩
  intro a
  rw [samePrefix_iff hmask, ← Prefixes.mem_block_iff, UInt32.le_iff_toNat_le, UInt32.le_iff_toNat_le,
    hstart, hlast]

theorem readIPRange_prefix_net
    : (12 : UInt32).toNat ≤ 32
      ∧ ∃ start last, readIPRange 0xAC100000 12 = some (start, last)
        ∧ ∀ a, start ≤ a ∧ a ≤ last ↔ SamePrefix 12 a 0xAC100000 :=
  ⟨by decide, readIPRange_prefix 0xAC100000 12 (by decide)⟩

end SecFw.Acl
