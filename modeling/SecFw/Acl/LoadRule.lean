import SecFw.Acl.Basic
import SecFw.Common.AclRule
import SecFw.Heap.Basic

/-!
This module contains the loader of the classifier, which turns the rule list into a rule set. The
ranges of a rule are pointers to buffers, so the loader works on a heap.
-/

namespace SecFw.Acl

abbrev RangePtrs : Type := Fin DIM → Fin 2 → Ptr

def rangeSlots : List (Fin DIM × Fin 2) := (List.finRange DIM).flatMap fun d => [(d, 0), (d, 1)]

def rangeWords (d : Fin DIM) : Nat := [16, 16, 8, 8, 4, 4, 4, 8, 4, 4, 4].getD d 0 / 4

def rangeFree (heap : Heap UInt32) (dim : RangePtrs) : Heap UInt32 :=
  rangeSlots.foldl (fun heap s => heap.free (dim s.1 s.2)) heap

def allocSlots (avail : Nat → Bool) (heap : Heap UInt32) (dim : RangePtrs)
    : List (Fin DIM × Fin 2) → Heap UInt32 × RangePtrs
  | [] => (heap, dim)
  | (d, j) :: slots =>
    let (p, heap) := heap.malloc (avail heap.next) (rangeWords d)
    allocSlots avail heap (Function.update dim d (Function.update (dim d) j p)) slots

def rangeAlloc (avail : Nat → Bool) (heap : Heap UInt32) : Heap UInt32 × RangePtrs :=
  -- when one buffer is missing the others are given back
  let (heap, dim) := allocSlots avail heap (fun _ _ => none) rangeSlots
  if ∃ d j, dim d j = none then
    (rangeFree heap dim, fun _ _ => none)
  else
    (heap, dim)

def setOctets (ptrange : List UInt32) (v : UInt32) : Nat → Option (List UInt32)
  | 0 => some ptrange
  | n + 1 => do
    let ptrange ← setOctets ptrange v n
    if n ≤ 3 then some (ptrange.set (3 - n) v) else none

def maskOctet (ptrange : List UInt32) (masklit1 masklit2 : UInt32) (f : UInt32 → UInt32)
    : Option (List UInt32) :=
  if masklit2 ≠ 0 then
    if masklit1.toNat ≤ 3 then some (ptrange.modify (3 - masklit1.toNat) f) else none
  else
    some ptrange

def packOctets (ptrange : List UInt32) : UInt32 :=
  ptrange.foldl (fun acc octet => (acc <<< 8) + octet) 0

def readIPRange (ipnet ipmask : UInt32) : Option (UInt32 × UInt32) := do
  -- `none` is a write in front of the array
  let trange := [ipnet >>> 24, (ipnet >>> 16) &&& 0x00FF, (ipnet >>> 8) &&& 0x0000FF,
    ipnet &&& 0x000000FF]
  let mask := 32 - ipmask
  let masklit1 := mask / 8
  let masklit2 := mask % 8
  let masklit3 := (1 <<< masklit2) - 1
  let ptrange ← setOctets trange 0 masklit1.toNat
  let ptrange ← maskOctet ptrange masklit1 masklit2 fun octet => octet &&& ~~~masklit3
  let first := packOctets ptrange
  let ptrange ← setOctets ptrange 255 masklit1.toNat
  let ptrange ← maskOctet ptrange masklit1 masklit2 fun octet => octet ||| masklit3
  some (first, packOctets ptrange)

def macHigh (mac : Vector UInt8 6) : UInt32 :=
  mac[0].toUInt32 * (256 : UInt32) + mac[1].toUInt32

def macLow (mac : Vector UInt8 6) : UInt32 :=
  mac[2].toUInt32 * (16777216 : UInt32) + mac[3].toUInt32 * (65536 : UInt32)
    + mac[4].toUInt32 * (256 : UInt32) + mac[5].toUInt32

def entryWrites (t : RCP_BLOCK_ACL_RULE_TUPLE) : Option (List ((Fin DIM × Fin 2) × UInt32)) := do
  let (sipFirst, sipLast) ← readIPRange t.sip t.sip_mask
  let (dipFirst, dipLast) ← readIPRange t.dip t.dip_mask
  some [
    ((0, 0), macHigh t.smac),
    ((0, 1), macLow t.smac),
    ((1, 0), macHigh t.dmac),
    ((1, 1), macLow t.dmac),
    ((4, 0), t.sport_start.toUInt32),
    ((4, 1), t.sport_end.toUInt32),
    ((5, 0), t.dport_start.toUInt32),
    ((5, 1), t.dport_end.toUInt32),
    ((8, 0), t.protocol_start.toUInt32),
    ((8, 1), t.protocol_end.toUInt32),
    ((9, 0), sipFirst),
    ((9, 1), sipLast),
    ((10, 0), dipFirst),
    ((10, 1), dipLast)]

def storeWrites (heap : Heap UInt32) (dim : RangePtrs) (writes : List ((Fin DIM × Fin 2) × UInt32))
    : Option (Heap UInt32) :=
  -- `none` is a write through NULL
  writes.foldlM (fun heap w => heap.store (dim w.1.1 w.1.2) 0 w.2) heap

structure Filter where
  action : UInt32
  id : UInt32
  rule_id : UInt32
  dim : RangePtrs

def loadEntries (rule_list : RuleList) (dim : RangePtrs)
    : List (Fin RULE_ENTRY_MAX) → Heap UInt32 × List Filter → Option (Heap UInt32 × List Filter)
  | [], acc => some acc
  | i :: is, (heap, filtArr) =>
    if (getElem rule_list.rule_entry i i.isLt).entry_status = .RULE_ENTRY_STATUS_FREE then
      loadEntries rule_list dim is (heap, filtArr)
    else do
      let rule_tuple := (getElem rule_list.rule_entry i i.isLt).rule_tuple
      let writes ← entryWrites rule_tuple
      let heap ← storeWrites heap dim writes
      let tempfilt := {
        action := rule_tuple.action.toUInt32
        id := UInt32.ofNat i
        rule_id := UInt32.ofNat i
        dim := dim
      }
      loadEntries rule_list dim is (heap, filtArr ++ [tempfilt])

structure LoadedRule where
  pri : UInt32
  action : UInt32
  id : UInt32
  rule_id : UInt32
  range : RangePtrs

def loadFilter : Filter × Nat → LoadedRule
  | (filt, i) => ⟨UInt32.ofNat i, filt.action, filt.id, filt.rule_id, filt.dim⟩

def lastRule (pri : Nat) : LoadedRule := ⟨UInt32.ofNat pri, 0, 0, 0, fun _ _ => none⟩

structure LoadState where
  heap : Heap UInt32
  ruleset : List LoadedRule
  dim : RangePtrs

def fillRuleset (avail : Nat → Bool) (rule_list : RuleList) (heap : Heap UInt32) (dim : RangePtrs)
    : Option LoadState := do
  let (heap, filtArr) ← loadEntries rule_list dim (List.finRange RULE_ENTRY_MAX) (heap, [])
  let (ruleList, heap) := heap.malloc (avail heap.next) 0
  if ruleList = none then
    none
  else
    let rules := filtArr.zipIdx.map loadFilter
    if rules.length + 1 < RULE_ENTRY_MAX then
      some ⟨heap, rules ++ [lastRule rules.length], dim⟩
    else
      some ⟨rangeFree heap (lastRule rules.length).range, rules, dim⟩

def loadRuleFill (avail : Nat → Bool) (rule_list : RuleList) : Option LoadState :=
  -- `load_rule` up to the call of `BuildHSTree`. Of the blocks for `filtset` and `ruleList` only
  -- the allocation is kept. `none` when the function returns early or goes wrong
  let (filtset, heap) := Heap.empty.malloc (avail 0) 0
  if filtset = none then
    none
  else
    let alloc := rangeAlloc avail heap
    fillRuleset avail rule_list alloc.1 alloc.2

def loadRuleFinish (st : LoadState) : LoadState :=
  -- `load_rule` after `BuildHSTree` has returned, it returns nothing but `HS_SUCCESS`
  { st with heap := rangeFree st.heap st.dim, dim := fun _ _ => none }

end SecFw.Acl
