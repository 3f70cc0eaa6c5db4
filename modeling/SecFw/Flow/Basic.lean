import SecFw.Common.Mbuf

/-!
This module contains the items of the flow table, the hash function that places them and the
comparison with a packet.
-/

namespace SecFw.Flow

abbrev FLOW_BUCKET_NUM : Nat := 65536

def FLOW_BUCKET_MASK : UInt32 := 0xFFFF

abbrev Bucket : Type := Fin FLOW_BUCKET_NUM

structure flow_item_t (Core : Type) where
  -- `flow_item_t`, `sip` and `dip` are the fields of its `ipv4`
  item_lock : Option Core
  cycle : UInt64
  use_cnt : Int
  sip : UInt32
  dip : UInt32
  sport : UInt16
  dport : UInt16
  protocol : UInt16
  deriving DecidableEq, Repr

def tluHash (u1 u2 : UInt32) : UInt32 :=
  let a := u2 + 0x9e3779b9
  let b := u1 + 0x9e3779b9
  let c := 0
  let a := a - b; let a := a - c; let a := a ^^^ (c >>> 13)
  let b := b - c; let b := b - a; let b := b ^^^ (a <<< 8)
  let c := c - a; let c := c - b; let c := c ^^^ (b >>> 13)
  let a := a - b; let a := a - c; let a := a ^^^ (c >>> 12)
  let b := b - c; let b := b - a; let b := b ^^^ (a <<< 16)
  let c := c - a; let c := c - b; let c := c ^^^ (b >>> 5)
  let a := a - b; let a := a - c; let a := a ^^^ (c >>> 3)
  let b := b - c; let b := b - a; let b := b ^^^ (a <<< 10)
  let c := c - a; let c := c - b; let c := c ^^^ (b >>> 15)
  c

def flowHashfn (ucPro : UInt8) (ulSrcIp ulDstIp : UInt32) (usSrcPort usDstPort : UInt16) : UInt32 :=
  let s_hash := tluHash ulSrcIp usSrcPort.toUInt32
  let d_hash := tluHash ulDstIp usDstPort.toUInt32
  let p_hash := tluHash ucPro.toUInt32 0
  s_hash ^^^ d_hash ^^^ p_hash

theorem flowHashfn_comm (ucPro : UInt8) (ip ip' : UInt32) (port port' : UInt16)
    : flowHashfn ucPro ip' ip port' port = flowHashfn ucPro ip ip' port port' := by
  unfold flowHashfn
  generalize tluHash ip port.toUInt32 = h
  generalize tluHash ip' port'.toUInt32 = h'
  exact congrArg (· ^^^ _) (UInt32.xor_comm h' h)

theorem toNat_and_mask_lt (h : UInt32) : (h &&& FLOW_BUCKET_MASK).toNat < FLOW_BUCKET_NUM := by
  rw [UInt32.toNat_and]
  exact Nat.lt_of_le_of_lt Nat.and_le_right (by decide)

def flowhashfn (saddr daddr : UInt32) (sport dport : UInt16) (prot : UInt8) : Bucket :=
  ⟨(flowHashfn prot saddr daddr sport dport &&& FLOW_BUCKET_MASK).toNat, toNat_and_mask_lt _⟩

def flowMatch (f : flow_item_t Core) (mbuf : Mbuf) : Prop :=
  (f.sip = mbuf.sip
    ∧ f.dip = mbuf.dip
    ∧ f.sport = mbuf.sport
    ∧ f.dport = mbuf.dport
    ∧ f.protocol = mbuf.proto.toUInt16)
  ∨ (f.sip = mbuf.dip
    ∧ f.dip = mbuf.sip
    ∧ f.sport = mbuf.dport
    ∧ f.dport = mbuf.sport
    ∧ f.protocol = mbuf.proto.toUInt16)

instance (f : flow_item_t Core) (mbuf : Mbuf) : Decidable (flowMatch f mbuf) :=
  inferInstanceAs (Decidable (_ ∨ _))

def flowFind (item : Item → flow_item_t Core) (chain : List Item) (mbuf : Mbuf) : Option Item :=
  chain.find? fun f => flowMatch (item f) mbuf

def flowTimeOut (FLOW_MAX_TIMEOUT : UInt64) (f : flow_item_t Core) (current_cycle : UInt64) : Bool :=
  if f.use_cnt > 0 then
    false
  else
    current_cycle > f.cycle && current_cycle - f.cycle > FLOW_MAX_TIMEOUT

def newItem (mbuf : Mbuf) (cycle : UInt64) : flow_item_t Core where
  item_lock := none
  cycle := cycle
  use_cnt := 0
  sip := mbuf.sip
  dip := mbuf.dip
  sport := mbuf.sport
  dport := mbuf.dport
  protocol := mbuf.proto.toUInt16

def atomicAdd32 (n incr : Int) : Int := (n + incr).bmod (2 ^ 32)

@[ext]
structure Tuple where
  sip : UInt32
  dip : UInt32
  sport : UInt16
  dport : UInt16
  protocol : UInt16
  deriving DecidableEq, Repr

namespace Tuple

variable {t u : Tuple}

def swap (t : Tuple) : Tuple := ⟨t.dip, t.sip, t.dport, t.sport, t.protocol⟩

/-- The 5-tuples describe the same connection. -/
def SameConnection (t u : Tuple) : Prop := t = u ∨ t = u.swap

def connection (t : Tuple) : Sym2 (UInt32 × UInt16) × UInt16 :=
  (s((t.sip, t.sport), (t.dip, t.dport)), t.protocol)

def bucket (t : Tuple) : Bucket := flowhashfn t.sip t.dip t.sport t.dport t.protocol.toUInt8

theorem connection_eq_iff : t.connection = u.connection ↔ t.SameConnection u := by
  simp only [connection, SameConnection, swap, Prod.mk.injEq, Sym2.eq_iff, Tuple.ext_iff]
  tauto

theorem bucket_swap (t : Tuple) : t.swap.bucket = t.bucket := by
  simp only [bucket, swap, flowhashfn, flowHashfn_comm]

theorem bucket_eq_of_connection_eq (h : t.connection = u.connection) : t.bucket = u.bucket := by
  cases connection_eq_iff.mp h with
  | inl heq => rw [heq]
  | inr heq => rw [heq, bucket_swap]

end Tuple

def flow_item_t.tuple (f : flow_item_t Core) : Tuple := ⟨f.sip, f.dip, f.sport, f.dport, f.protocol⟩

def tupleOf (mbuf : Mbuf) : Tuple :=
  ⟨mbuf.sip, mbuf.dip, mbuf.sport, mbuf.dport, mbuf.proto.toUInt16⟩

section Lemmas

variable {Core Item : Type} {f : flow_item_t Core} {mbuf : Mbuf} {cycle : UInt64}

theorem bucket_tupleOf (mbuf : Mbuf)
    : (tupleOf mbuf).bucket = flowhashfn mbuf.sip mbuf.dip mbuf.sport mbuf.dport mbuf.proto := by
  simp [tupleOf, Tuple.bucket]

@[simp]
theorem tuple_newItem : (newItem mbuf cycle : flow_item_t Core).tuple = tupleOf mbuf := rfl

theorem flowMatch_iff : flowMatch f mbuf ↔ f.tuple.connection = (tupleOf mbuf).connection := by
  rw [Tuple.connection_eq_iff]
  simp only [flowMatch, Tuple.SameConnection, Tuple.swap, flow_item_t.tuple, tupleOf,
    Tuple.mk.injEq]

theorem flowFind_eq_some {item : Item → flow_item_t Core} {chain : List Item} {g : Item}
    (h : flowFind item chain mbuf = some g) : g ∈ chain ∧ flowMatch (item g) mbuf := by
  have hmatch := List.find?_some h
  exact ⟨List.mem_of_find?_eq_some h, by simpa using hmatch⟩

theorem flowFind_eq_none {item : Item → flow_item_t Core} {chain : List Item}
    (h : flowFind item chain mbuf = none) : ∀ g ∈ chain, ¬flowMatch (item g) mbuf := by
  intro g hg
  simpa using List.find?_eq_none.mp h g hg

theorem use_cnt_of_flowTimeOut {FLOW_MAX_TIMEOUT current_cycle : UInt64}
    (h : flowTimeOut FLOW_MAX_TIMEOUT f current_cycle = true) : f.use_cnt ≤ 0 := by
  rw [flowTimeOut] at h
  split at h
  . simp at h
  . omega

theorem atomicAdd32_of_bounds {n incr : Int} (hlow : -2 ^ 31 ≤ n + incr) (hhigh : n + incr < 2 ^ 31)
    : atomicAdd32 n incr = n + incr := by
  rw [atomicAdd32, Int.bmod_eq_of_le] <;> omega

end Lemmas

end SecFw.Flow
