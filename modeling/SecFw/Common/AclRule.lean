import SecFw.Bytes.Basic
import SecFw.Slots.Basic

/-!
This module contains the rule list in shared memory, it is written by the management plane and
loaded by the data plane.
-/

namespace SecFw

structure RCP_BLOCK_ACL_RULE_TUPLE where
  smac : Vector UInt8 6
  dmac : Vector UInt8 6
  sip : UInt32
  sip_mask : UInt32
  dip : UInt32
  dip_mask : UInt32
  sport_start : UInt16
  sport_end : UInt16
  dport_start : UInt16
  dport_end : UInt16
  protocol_start : UInt8
  protocol_end : UInt8
  action : UInt16
  deriving DecidableEq, Repr

abbrev RULE_ENTRY_MAX : Nat := 100000

inductive EntryStatus where
  | RULE_ENTRY_STATUS_FREE
  | RULE_ENTRY_STATUS_USED
  deriving DecidableEq, Repr

inductive BuildStatus where
  | RULE_BUILD_UNCOMMIT
  | RULE_BUILD_COMMIT
  deriving DecidableEq, Repr

structure RuleEntry where
  -- `rule_entry_t`, the tuple of a free entry is whatever was left in it
  entry_status : EntryStatus
  rule_tuple : RCP_BLOCK_ACL_RULE_TUPLE
  deriving DecidableEq, Repr

structure RuleList where
  rule_entry_free : Int
  build_status : BuildStatus
  rule_entry : Vector RuleEntry RULE_ENTRY_MAX

namespace RCP_BLOCK_ACL_RULE_TUPLE

open Bytes

def toBytes (t : RCP_BLOCK_ACL_RULE_TUPLE) : List UInt8 :=
  t.smac.toList ++ t.dmac.toList
    ++ bigEndian 4 t.sip.toNat ++ bigEndian 4 t.sip_mask.toNat
    ++ bigEndian 4 t.dip.toNat ++ bigEndian 4 t.dip_mask.toNat
    ++ bigEndian 2 t.sport_start.toNat ++ bigEndian 2 t.sport_end.toNat
    ++ bigEndian 2 t.dport_start.toNat ++ bigEndian 2 t.dport_end.toNat
    ++ [t.protocol_start] ++ [t.protocol_end] ++ bigEndian 2 t.action.toNat

theorem length_toBytes (t : RCP_BLOCK_ACL_RULE_TUPLE) : t.toBytes.length = 40 := by
  simp [toBytes]

theorem toBytes_injective {a b : RCP_BLOCK_ACL_RULE_TUPLE} (h : a.toBytes = b.toBytes) : a = b := by
  have word32 {m n : UInt32} (h : bigEndian 4 m.toNat = bigEndian 4 n.toNat) : m = n :=
    UInt32.toNat_inj.mp (bigEndian_injective m.toNat_lt n.toNat_lt h)
  have word16 {m n : UInt16} (h : bigEndian 2 m.toNat = bigEndian 2 n.toNat) : m = n :=
    UInt16.toNat_inj.mp (bigEndian_injective m.toNat_lt n.toNat_lt h)
  simp only [toBytes] at h
  rcases List.append_inj' h (by simp) with ⟨h, haction⟩
  rcases List.append_inj' h (by simp) with ⟨h, hprotocolEnd⟩
  rcases List.append_inj' h (by simp) with ⟨h, hprotocolStart⟩
  rcases List.append_inj' h (by simp) with ⟨h, hdportEnd⟩
  rcases List.append_inj' h (by simp) with ⟨h, hdportStart⟩
  rcases List.append_inj' h (by simp) with ⟨h, hsportEnd⟩
  rcases List.append_inj' h (by simp) with ⟨h, hsportStart⟩
  rcases List.append_inj' h (by simp) with ⟨h, hdipMask⟩
  rcases List.append_inj' h (by simp) with ⟨h, hdip⟩
  rcases List.append_inj' h (by simp) with ⟨h, hsipMask⟩
  rcases List.append_inj' h (by simp) with ⟨h, hsip⟩
  rcases List.append_inj' h (by simp) with ⟨hsmac, hdmac⟩
  cases a
  cases b
  simp only [mk.injEq]
  refine ⟨Vector.toList_inj.mp hsmac, Vector.toList_inj.mp hdmac, word32 hsip, word32 hsipMask,
    word32 hdip, word32 hdipMask, word16 hsportStart, word16 hsportEnd, word16 hdportStart,
    word16 hdportEnd, ?_, ?_, word16 haction⟩
  . simpa using hprotocolStart
  . simpa using hprotocolEnd

def ofBytes (bs : List UInt8) : RCP_BLOCK_ACL_RULE_TUPLE where
  smac := vector 6 bs 0
  dmac := vector 6 bs 6
  sip := UInt32.ofNat (field bs 12 4)
  sip_mask := UInt32.ofNat (field bs 16 4)
  dip := UInt32.ofNat (field bs 20 4)
  dip_mask := UInt32.ofNat (field bs 24 4)
  sport_start := UInt16.ofNat (field bs 28 2)
  sport_end := UInt16.ofNat (field bs 30 2)
  dport_start := UInt16.ofNat (field bs 32 2)
  dport_end := UInt16.ofNat (field bs 34 2)
  protocol_start := bs.getD 36 0
  protocol_end := bs.getD 37 0
  action := UInt16.ofNat (field bs 38 2)

theorem singleton_getD {bs : List UInt8} {pos : Nat} (h : pos < bs.length)
    : [bs.getD pos 0] = (bs.drop pos).take 1 := by
  rw [List.drop_eq_getElem_cons h, List.take_succ_cons, List.take_zero, List.getD_eq_getElem _ _ h]

theorem toBytes_ofBytes {bs : List UInt8} (h : 40 ≤ bs.length) : (ofBytes bs).toBytes = bs.take 40 := by
  have hend : bs.take 40 ++ bs.drop 40 = bs := List.take_append_drop 40 bs
  suffices happend : (ofBytes bs).toBytes ++ bs.drop 40 = bs.take 40 ++ bs.drop 40 from
    List.append_cancel_right happend
  rw [hend, toBytes, ofBytes]
  simp only [toList_vector (by omega : 0 + 6 ≤ bs.length), toList_vector (by omega : 6 + 6 ≤ bs.length),
    bigEndian_uint32_field (by omega : 12 + 4 ≤ bs.length),
    bigEndian_uint32_field (by omega : 16 + 4 ≤ bs.length),
    bigEndian_uint32_field (by omega : 20 + 4 ≤ bs.length),
    bigEndian_uint32_field (by omega : 24 + 4 ≤ bs.length),
    bigEndian_uint16_field (by omega : 28 + 2 ≤ bs.length),
    bigEndian_uint16_field (by omega : 30 + 2 ≤ bs.length),
    bigEndian_uint16_field (by omega : 32 + 2 ≤ bs.length),
    bigEndian_uint16_field (by omega : 34 + 2 ≤ bs.length),
    singleton_getD (by omega : 36 < bs.length), singleton_getD (by omega : 37 < bs.length),
    bigEndian_uint16_field (by omega : 38 + 2 ≤ bs.length), List.append_assoc]
  rw [take_append_drop_drop bs 38 2, take_append_drop_drop bs 37 1, take_append_drop_drop bs 36 1,
    take_append_drop_drop bs 34 2, take_append_drop_drop bs 32 2, take_append_drop_drop bs 30 2,
    take_append_drop_drop bs 28 2, take_append_drop_drop bs 24 4, take_append_drop_drop bs 20 4,
    take_append_drop_drop bs 16 4, take_append_drop_drop bs 12 4, take_append_drop_drop bs 6 6,
    take_append_drop_drop bs 0 6, List.drop_zero]

theorem ofBytes_toBytes (t : RCP_BLOCK_ACL_RULE_TUPLE) (rest : List UInt8)
    : ofBytes (t.toBytes ++ rest) = t := by
  apply toBytes_injective
  have hlen := length_toBytes t
  rw [toBytes_ofBytes (by rw [List.length_append]; omega), ← hlen, List.take_left]

end RCP_BLOCK_ACL_RULE_TUPLE

open EntryStatus

def zeroTuple : RCP_BLOCK_ACL_RULE_TUPLE :=
  ⟨.replicate 6 0, .replicate 6 0, 0, 0, 0, 0, 0, 0, 0, 0, 0, 0, 0⟩

namespace RuleList

def slots (rule_list : RuleList) : Slots (Fin RULE_ENTRY_MAX) RCP_BLOCK_ACL_RULE_TUPLE := fun i =>
  match rule_list.rule_entry[i].entry_status with
  | RULE_ENTRY_STATUS_FREE => none
  | RULE_ENTRY_STATUS_USED => some rule_list.rule_entry[i].rule_tuple

variable {rule_list : RuleList} {rule : RCP_BLOCK_ACL_RULE_TUPLE} {i : Fin RULE_ENTRY_MAX}

theorem slots_eq_none
    : rule_list.slots i = none ↔ rule_list.rule_entry[i].entry_status = RULE_ENTRY_STATUS_FREE := by
  simp only [slots]
  split <;> simp_all

theorem slots_eq_some
    : rule_list.slots i = some rule
        ↔ rule_list.rule_entry[i].entry_status ≠ RULE_ENTRY_STATUS_FREE
          ∧ rule_list.rule_entry[i].rule_tuple = rule := by
  simp only [slots]
  split <;> simp_all

end RuleList

end SecFw
