import SecFw.Srv.Trans
import SecFw.Slots.Basic

/-!
This module contains the table of sockets of the management plane: the set for `select`, the entries
of `sock_map`, the greatest descriptor and the number of clients. `sock_map` has three more entries
than the set.
-/

namespace SecFw.Srv

abbrev SOCK_MAX : Nat := 1027

abbrev FD_SETSIZE : Nat := 1024

inductive SockType where
  | TCP_SERVER
  | TCP_CLIENT
  | UDP_CLIENT
  | UDP_SERVER
  deriving DecidableEq

inductive SockStatus where
  | INVALID
  | INITIALIZED
  | CONNETED
  | OPERATIONAL
  deriving DecidableEq

structure SockaddrIn where
  sin_family : UInt16
  sin_port : UInt16
  sin_addr : UInt32
  deriving DecidableEq

structure SockMap where
  -- `SOCK_MAP` without the fields that only its `memset` writes
  status : SockStatus
  conn_num : Int32
  account_id : Int32
  addr : SockaddrIn
  sock_type : SockType
  deriving DecidableEq

abbrev FdSet : Type := Fin FD_SETSIZE → Bool

structure SockTable where
  rfds : FdSet
  maxfd : Int
  listenfd : Int
  sock_map : Fin SOCK_MAX → SockMap
  g_client_connect_num : Int

def place (n : Nat) (fd : Int) : Option (Fin n) :=
  if h : 0 ≤ fd ∧ fd.toNat < n then some ⟨fd.toNat, h.2⟩ else none

def SockMap.zero : SockMap := ⟨.INITIALIZED, 0, 0, ⟨0, 0, 0⟩, .TCP_SERVER⟩

def SockTable.static : SockTable where
  rfds := fun _ => false
  maxfd := 0
  listenfd := -1
  sock_map := fun _ => .zero
  g_client_connect_num := 0

def sockMapInit (t : SockTable) : SockTable :=
  { t with sock_map := fun i => { t.sock_map i with
      status := .INVALID
      conn_num := 0
      account_id := -1
      addr := ⟨0, 0, 0⟩ } }

def addFd (t : SockTable) (sock_type : SockType) (fd : Int) (addr : Option SockaddrIn)
    : Option SockTable := do
  let i ← place SOCK_MAX fd
  let m := { t.sock_map i with sock_type := sock_type }
  let m :=
    if sock_type = .TCP_CLIENT then
      { m with status := .CONNETED, conn_num := 0 }
    else
      { m with status := .OPERATIONAL }
  let m := { m with account_id := -1 }
  let m :=
    match addr with
    | some addr => { m with addr := addr }
    | none => m
  let b ← place FD_SETSIZE fd
  some { t with
    sock_map := Function.update t.sock_map i m
    rfds := Function.update t.rfds b true
    maxfd := if t.maxfd - fd ≥ 0 then t.maxfd else fd }

def lastActive (sock_map : Fin SOCK_MAX → SockMap) : Int :=
  (List.finRange SOCK_MAX).foldl (fun maxfd i =>
    if (sock_map i).status ≠ .INVALID ∧ maxfd < (i.val : Int) then (i.val : Int) else maxfd) 0

def delFd (t : SockTable) (fd : Int) : Option SockTable := do
  let i ← place SOCK_MAX fd
  let sock_map := Function.update t.sock_map i { SockMap.zero with status := .INVALID }
  let b ← place FD_SETSIZE fd
  some { t with
    sock_map := sock_map
    rfds := Function.update t.rfds b false
    maxfd := if fd = t.maxfd then lastActive sock_map else t.maxfd
    g_client_connect_num := t.g_client_connect_num - 1 }

def serverInit (fd : Int) : Option SockTable :=
  let t := { SockTable.static with rfds := fun _ => false }
  let t := sockMapInit t
  addFd { t with listenfd := fd } .TCP_SERVER fd none

def acceptClient (t : SockTable) (conn_fd : Int) (addr : SockaddrIn) : Option SockTable :=
  -- `server_run` for a connection, `conn_fd` is the result of `accept`
  if conn_fd > 0 then do
    let t ← addFd t .TCP_CLIENT conn_fd (some addr)
    some { t with g_client_connect_num := t.g_client_connect_num + 1 }
  else
    some t

def serveFd (trfds : FdSet) (received : Fin SOCK_MAX → UInt32) (s : SockTable × UInt32)
    (i : Fin SOCK_MAX) : Option (SockTable × UInt32) :=
  let (t, length) := s
  if (t.sock_map i).status = .INVALID then
    some s
  else do
    let b ← place FD_SETSIZE i
    if trfds b then
      let length := if (t.sock_map i).sock_type = .TCP_CLIENT then received i else length
      if length ≤ 0 ∧ (t.sock_map i).sock_type = .TCP_CLIENT then do
        let t ← delFd t i
        some (t, length)
      else
        some (t, length)
    else
      some s

def serverRunTurn (t : SockTable) (trfds : FdSet) (conn_fd : Int) (addr : SockaddrIn)
    (length : UInt32) (received : Fin SOCK_MAX → UInt32) : Option SockTable := do
  let l ← place FD_SETSIZE t.listenfd
  let t ← if trfds l then acceptClient t conn_fd addr else some t
  let fds := (List.finRange SOCK_MAX).filter fun i => 3 ≤ i.val
  let (t, _) ← fds.foldlM (serveFd trfds received) (t, length)
  some t

def SockTable.slots (t : SockTable) : Slots (Fin SOCK_MAX) SockType := fun i =>
  if (t.sock_map i).status = .INVALID then none else some (t.sock_map i).sock_type

def SockTable.active (t : SockTable) : Set Int := (fun i => (i.val : Int)) '' t.slots.used

def SockTable.Watches (t : SockTable) (i : Fin SOCK_MAX) : Prop :=
  -- `FD_ISSET` of `rfds`
  ∃ b, place FD_SETSIZE i = some b ∧ t.rfds b

/-- The four views of the sockets in use. -/
structure SockInv (t : SockTable) : Prop where
  rfds : ∀ i, t.Watches i ↔ (t.sock_map i).status ≠ .INVALID
  maxfd : IsGreatest t.active t.maxfd
  g_client_connect_num : t.g_client_connect_num = t.slots.numOf .TCP_CLIENT

inductive SockCall where
  -- the calls in `server_run`, for the descriptors that `sock_map` has an entry for
  | add (fd : Fin SOCK_MAX) (addr : SockaddrIn)
  | del (fd : Fin SOCK_MAX)

namespace SockCall

def run (t : SockTable) : SockCall → Option SockTable
  | .add fd addr => do
    let t ← addFd t .TCP_CLIENT fd (some addr)
    some { t with g_client_connect_num := t.g_client_connect_num + 1 }
  | .del fd => delFd t fd

def Allowed (t : SockTable) : SockCall → Prop
  | .add fd _ => t.slots fd = none
  | .del fd => t.slots fd = some .TCP_CLIENT

/-- A `fd_set` has room for what is added. -/
def Fits : SockCall → Prop
  | .add fd _ => fd.val < FD_SETSIZE
  | .del _ => True

end SockCall

/-- The calls after `server_init`, nothing is said about a program that wrote outside of an array. -/
inductive SockRun (listenfd : Fin SOCK_MAX) : List SockCall → Option SockTable → Prop where
  | init : SockRun listenfd [] (serverInit listenfd)
  | call {calls : List SockCall} {t : SockTable} {c : SockCall}
      (h : SockRun listenfd calls (some t)) (hallowed : c.Allowed t)
      : SockRun listenfd (calls ++ [c]) (c.run t)

section Place

theorem place_natCast {n a : Nat} (h : a < n) : place n a = some ⟨a, h⟩ := by
  have hboth : (0 : Int) ≤ a ∧ (a : Int).toNat < n := ⟨Int.natCast_nonneg a, by simpa using h⟩
  rw [place, dif_pos hboth]
  rfl

theorem place_natCast_none {n a : Nat} (h : ¬ a < n) : place n a = none := by
  rw [place, dif_neg]
  rw [Int.toNat_natCast]
  exact fun hboth => h hboth.2

end Place

section Slots

variable {t : SockTable} {i : Fin SOCK_MAX}

theorem slots_ne_none : t.slots i ≠ none ↔ (t.sock_map i).status ≠ .INVALID := by
  simp [SockTable.slots]

theorem slots_update (t : SockTable) (i : Fin SOCK_MAX) (m : SockMap)
    : { t with sock_map := Function.update t.sock_map i m }.slots
        =
      if m.status = .INVALID then t.slots.remove i else t.slots.insert i m.sock_type := by
  funext j
  by_cases hji : j = i
  . subst hji
    simp only [SockTable.slots, Function.update_self]
    split
    . rw [Slots.remove_self]
    . rw [Slots.insert_self]
  . have hsame : (if m.status = .INVALID then t.slots.remove i else t.slots.insert i m.sock_type) j
        = t.slots j := by
      split
      . exact Slots.remove_of_ne hji
      . exact Slots.insert_of_ne hji
    rw [hsame]
    simp only [SockTable.slots, Function.update_of_ne hji]

end Slots

section Spec

variable {t : SockTable} {i : Fin SOCK_MAX} {sock_type : SockType} {addr : Option SockaddrIn}

theorem addFd_spec (t : SockTable) (sock_type : SockType) (addr : Option SockaddrIn)
    (hfits : i.val < FD_SETSIZE)
    : ∃ t', addFd t sock_type i addr = some t' ∧ t'.slots = t.slots.insert i sock_type
        ∧ t'.rfds = Function.update t.rfds ⟨i.val, hfits⟩ true ∧ t'.maxfd = max t.maxfd i
        ∧ t'.g_client_connect_num = t.g_client_connect_num := by
  simp only [addFd, place_natCast hfits, place_natCast i.isLt, Option.bind_eq_bind, Option.bind_some]
  refine ⟨_, rfl, ?_, rfl, ?_, rfl⟩
  . apply (slots_update t i _).trans
    cases sock_type
    all_goals
      cases addr
      all_goals rfl
  . simp only [ge_iff_le, sub_nonneg, max_comm t.maxfd, max_def]

theorem addFd_none (hfits : ¬ i.val < FD_SETSIZE) : addFd t sock_type i addr = none := by
  simp only [addFd, place_natCast_none hfits, place_natCast i.isLt, Option.bind_eq_bind,
    Option.bind_some, Option.bind_none]

theorem delFd_spec (hfits : i.val < FD_SETSIZE)
    : ∃ t', delFd t i = some t' ∧ t'.slots = t.slots.remove i
        ∧ t'.rfds = Function.update t.rfds ⟨i.val, hfits⟩ false
        ∧ t'.maxfd = (if (i.val : Int) = t.maxfd then lastActive t'.sock_map else t.maxfd)
        ∧ t'.g_client_connect_num = t.g_client_connect_num - 1 := by
  simp only [delFd, place_natCast hfits, place_natCast i.isLt, Option.bind_eq_bind, Option.bind_some]
  refine ⟨_, rfl, ?_, rfl, rfl, rfl⟩
  exact slots_update t i _

end Spec

section Invariant

variable {t t' : SockTable} {i j listenfd : Fin SOCK_MAX} {sock_type : SockType}

theorem watches_update (hfits : i.val < FD_SETSIZE) {isset : Bool}
    (h : t'.rfds = Function.update t.rfds ⟨i.val, hfits⟩ isset)
    : t'.Watches j ↔ if j = i then isset = true else t.Watches j := by
  simp only [SockTable.Watches, h]
  by_cases hji : j = i
  . subst hji
    simp [place_natCast hfits]
  . rw [if_neg hji]
    apply exists_congr
    intro b
    apply and_congr_right
    intro hb
    rw [Function.update_of_ne]
    rintro rfl
    by_cases hj : j.val < FD_SETSIZE
    . rw [place_natCast hj, Option.some.injEq, Fin.mk.injEq] at hb
      exact hji (Fin.ext hb)
    . rw [place_natCast_none hj] at hb
      contradiction

theorem active_insert (h : t'.slots = t.slots.insert i sock_type)
    : t'.active = insert (i.val : Int) t.active := by
  rw [SockTable.active, h, Slots.used_insert]
  exact Set.image_insert_eq

theorem active_remove (h : t'.slots = t.slots.remove i) : t'.active = t.active \ {(i.val : Int)} := by
  have hinj : Function.Injective (fun j : Fin SOCK_MAX => (j.val : Int)) := by
    intro a b hab
    exact Fin.ext (Int.natCast_inj.mp hab)
  rw [SockTable.active, h, Slots.used_remove, Set.image_sdiff hinj, Set.image_singleton]
  rfl

theorem isGreatest_lastActive (h : t.active.Nonempty) : IsGreatest t.active (lastActive t.sock_map) := by
  have hall : { c : Int | ∃ i ∈ List.finRange SOCK_MAX,
      (t.sock_map i).status ≠ .INVALID ∧ (i.val : Int) = c } = t.active := by
    ext c
    simp only [List.mem_finRange, true_and, SockTable.active, Slots.used, slots_ne_none, Set.mem_image,
      Set.mem_ofPred_eq]
  have hgreatest := Slots.isGreatest_foldl (p := fun i => (t.sock_map i).status ≠ .INVALID)
    (f := fun i => (i.val : Int)) (List.finRange SOCK_MAX) 0
  rw [hall] at hgreatest
  have hbound : ∀ c ∈ t.active, c ≤ lastActive t.sock_map := fun c hc => hgreatest.2 (Or.inr hc)
  refine ⟨?_, hbound⟩
  rcases hgreatest.1 with hzero | hmem
  . -- the loop starts with 0, which is in use when nothing greater is
    rcases h with ⟨c, hc⟩
    have hle := hbound c hc
    have hpos : 0 ≤ c := by
      rcases hc with ⟨i, -, rfl⟩
      exact Int.natCast_nonneg _
    have hlast : lastActive t.sock_map = 0 := hzero
    rw [hlast] at hle ⊢
    have hc0 : c = 0 := by omega
    exact hc0 ▸ hc
  . exact hmem

structure ListenInv (listenfd : Fin SOCK_MAX) (t : SockTable) : Prop where
  inv : SockInv t
  listen : t.slots listenfd = some .TCP_SERVER

theorem rfds_add {t t' : SockTable} (hfits : i.val < FD_SETSIZE)
    (h : ∀ j, t.Watches j ↔ t.slots j ≠ none) (hslots : t'.slots = t.slots.insert i sock_type)
    (hrfds : t'.rfds = Function.update t.rfds ⟨i.val, hfits⟩ true) (j : Fin SOCK_MAX)
    : t'.Watches j ↔ (t'.sock_map j).status ≠ .INVALID := by
  rw [← slots_ne_none, watches_update hfits hrfds, hslots]
  by_cases hji : j = i
  . rw [if_pos hji, hji, Slots.insert_self]
    simp
  . rw [if_neg hji, Slots.insert_of_ne hji]
    exact h j

theorem listenInv_of_serverInit (hfits : listenfd.val < FD_SETSIZE)
    : ∃ t, serverInit listenfd = some t ∧ ListenInv listenfd t := by
  rcases addFd_spec (sockMapInit { SockTable.static with listenfd := listenfd }) .TCP_SERVER none hfits
    with ⟨t, hadd, hslots, hrfds, hmaxfd, hnum⟩
  have hempty : (sockMapInit { SockTable.static with listenfd := listenfd }).slots
      = fun _ => none := rfl
  refine ⟨t, hadd, ⟨?_, ?_, ?_⟩, ?_⟩
  . apply rfds_add hfits _ hslots hrfds
    intro j
    rw [hempty]
    simp [SockTable.Watches, sockMapInit, SockTable.static]
  . have hactive : t.active = {(listenfd.val : Int)} := by
      rw [active_insert hslots, SockTable.active, hempty]
      simp [Slots.used]
    have hzero : max (0 : Int) listenfd.val = listenfd.val := max_eq_right (Int.natCast_nonneg _)
    rw [hactive, hmaxfd]
    simp only [sockMapInit, SockTable.static, hzero]
    exact isGreatest_singleton
  . rw [hnum, hslots, Slots.numOf_insert_of_ne (congrFun hempty listenfd) (by decide), hempty,
      Slots.numOf_empty]
    rfl
  . rw [hslots, Slots.insert_self]

theorem ListenInv.add (h : ListenInv listenfd t) (hfree : t.slots i = none)
    (hfits : i.val < FD_SETSIZE) (addr : SockaddrIn)
    : ∃ t', (SockCall.add i addr).run t = some t' ∧ ListenInv listenfd t' := by
  rcases addFd_spec t .TCP_CLIENT (some addr) hfits with
    ⟨t1, hadd, hslots, hrfds, hmaxfd, hnum⟩
  have hlisten : listenfd ≠ i := by
    rintro rfl
    have := h.listen
    simp [hfree] at this
  have hrun : (SockCall.add i addr).run t
      = some { t1 with g_client_connect_num := t1.g_client_connect_num + 1 } := by
    simp only [SockCall.run, hadd, Option.bind_eq_bind, Option.bind_some]
  refine ⟨_, hrun, ⟨?_, ?_, ?_⟩, ?_⟩
  . intro j
    refine rfds_add hfits (fun j => ?_) hslots hrfds j
    rw [slots_ne_none]
    exact h.inv.rfds j
  . have hinsert := h.inv.maxfd.insert (i.val : Int)
    rw [max_comm, ← hmaxfd, ← active_insert hslots] at hinsert
    exact hinsert
  . have hnumOf := Slots.numOf_insert (a := SockType.TCP_CLIENT) hfree
    rw [← hslots] at hnumOf
    simp only [hnum, h.inv.g_client_connect_num]
    exact_mod_cast hnumOf.symm
  . have hsame := Slots.insert_of_ne (s := t.slots) (a := SockType.TCP_CLIENT) hlisten
    rw [← hslots, h.listen] at hsame
    exact hsame

theorem ListenInv.fits (h : ListenInv listenfd t) (hused : t.slots i ≠ none)
    : i.val < FD_SETSIZE := by
  rw [slots_ne_none, ← h.inv.rfds] at hused
  rcases hused with ⟨b, hb, -⟩
  by_contra hfits
  rw [place_natCast_none hfits] at hb
  contradiction

theorem ListenInv.del (h : ListenInv listenfd t) (hclient : t.slots i = some .TCP_CLIENT)
    : ∃ t', (SockCall.del i).run t = some t' ∧ ListenInv listenfd t' := by
  have hused : t.slots i ≠ none := by
    rw [hclient]
    exact Option.some_ne_none _
  have hfits := h.fits hused
  rcases delFd_spec (t := t) hfits with ⟨t', hdel, hslots, hrfds, hmaxfd, hnum⟩
  have hlisten : listenfd ≠ i := by
    rintro rfl
    have := h.listen
    simp [hclient] at this
  have hlisten' : t'.slots listenfd = some .TCP_SERVER := by
    rw [hslots, Slots.remove_of_ne hlisten]
    exact h.listen
  refine ⟨t', hdel, ⟨?_, ?_, ?_⟩, hlisten'⟩
  . intro j
    rw [← slots_ne_none, watches_update hfits hrfds, hslots]
    by_cases hji : j = i
    . rw [if_pos hji, hji, Slots.remove_self]
      simp
    . rw [if_neg hji, Slots.remove_of_ne hji, slots_ne_none]
      exact h.inv.rfds j
  . rw [hmaxfd]
    split
    . apply isGreatest_lastActive
      refine ⟨listenfd.val, listenfd, ?_, rfl⟩
      rw [Slots.used, Set.mem_ofPred_eq, hlisten']
      exact Option.some_ne_none _
    . next hne =>
      rw [active_remove hslots]
      exact ⟨⟨h.inv.maxfd.1, Ne.symm hne⟩, fun c hc => h.inv.maxfd.2 hc.1⟩
  . have hnumOf := Slots.numOf_remove hclient
    rw [← hslots] at hnumOf
    rw [hnum, h.inv.g_client_connect_num]
    omega

theorem ListenInv.call {c : SockCall} (h : ListenInv listenfd t) (hallowed : c.Allowed t)
    (hfits : c.Fits) : ∃ t', c.run t = some t' ∧ ListenInv listenfd t' := by
  cases c with
  | add fd addr => exact h.add hallowed hfits addr
  | del fd => exact h.del hallowed

theorem run_none {c : SockCall} (hfits : ¬ c.Fits) : c.run t = none := by
  cases c with
  | add fd addr =>
    simp only [SockCall.run, addFd_none hfits, Option.bind_eq_bind, Option.bind_none]
  | del fd => exact absurd trivial hfits

end Invariant

section Run

variable {listenfd : Fin SOCK_MAX} {calls : List SockCall} {o : Option SockTable}

theorem listenInv_of_run (h : SockRun listenfd calls o) (hlisten : listenfd.val < FD_SETSIZE)
    (hfits : ∀ c ∈ calls, c.Fits) : ∃ t, o = some t ∧ ListenInv listenfd t := by
  induction h with
  | init => exact listenInv_of_serverInit hlisten
  | @call calls t c _ hallowed ih =>
    rcases ih (fun c hc => hfits c (List.mem_append_left _ hc)) with ⟨t', heq, hinv⟩
    rw [Option.some.injEq] at heq
    subst heq
    exact hinv.call hallowed (hfits c (List.mem_append_right _ (List.mem_singleton_self c)))

theorem fits_of_run {t : SockTable} (h : SockRun listenfd calls (some t))
    : listenfd.val < FD_SETSIZE ∧ ∀ c ∈ calls, c.Fits := by
  generalize ho : some t = o at h
  induction h generalizing t with
  | init =>
    refine ⟨?_, fun c hc => absurd hc List.not_mem_nil⟩
    by_contra hfits
    have hnone : serverInit listenfd = none := by
      rw [serverInit]
      exact addFd_none hfits
    rw [hnone] at ho
    contradiction
  | @call calls t1 c _ hallowed ih =>
    rcases ih rfl with ⟨hlisten, hcalls⟩
    refine ⟨hlisten, ?_⟩
    intro c' hc'
    rcases List.mem_append.mp hc' with hc' | hc'
    . exact hcalls c' hc'
    . rw [List.mem_singleton.mp hc']
      by_contra hfits
      rw [run_none hfits] at ho
      contradiction

/--
In a run of `add_fd` and `del_fd` the four views agree as long as everything that is added fits into a
`fd_set`, the first descriptor that does not fit is written behind it.
-/
theorem sockInv_iff (h : SockRun listenfd calls o)
    : (∃ t, o = some t ∧ SockInv t)
        ↔
      listenfd.val < FD_SETSIZE ∧ ∀ c ∈ calls, c.Fits := by
  constructor
  . rintro ⟨t, rfl, -⟩
    exact fits_of_run h
  . rintro ⟨hlisten, hfits⟩
    rcases listenInv_of_run h hlisten hfits with ⟨t, ho, hinv⟩
    exact ⟨t, ho, hinv.inv⟩

theorem sockInv_iff_accepted
    : ∃ o, SockRun 3 [.add 4 ⟨0, 0, 0⟩, .del 4] o ∧ ∃ t, o = some t ∧ SockInv t := by
  have hfree : (serverInit (3 : Fin SOCK_MAX)).map (·.slots 4) = some none := by decide +kernel
  have hclient : ((serverInit (3 : Fin SOCK_MAX)).bind fun t => (SockCall.add 4 ⟨0, 0, 0⟩).run t).map
      (·.slots 4) = some (some .TCP_CLIENT) := by decide +kernel
  have hroom : (4 : Fin SOCK_MAX).val < FD_SETSIZE := by decide
  rcases Option.map_eq_some_iff.mp hfree with ⟨t, hinit, hfree⟩
  rcases Option.map_eq_some_iff.mp hclient with ⟨t', hadded, hclient⟩
  rw [hinit, Option.bind_some] at hadded
  have hstart : SockRun 3 [] (some t) := hinit ▸ .init
  have hadd : SockRun 3 [.add 4 ⟨0, 0, 0⟩] (some t') := hadded ▸ hstart.call hfree
  have hrun := hadd.call (c := .del 4) hclient
  refine ⟨_, hrun, (sockInv_iff hrun).mpr ⟨by decide, ?_⟩⟩
  exact List.forall_mem_cons.mpr ⟨hroom, List.forall_mem_singleton.mpr trivial⟩

theorem not_forall_sockInv
    : ¬ ∀ calls o, SockRun 3 calls o → ∃ t, o = some t ∧ SockInv t := by
  intro h
  have hlisten : (3 : Fin SOCK_MAX).val < FD_SETSIZE := by decide
  have hroom : ¬ (1024 : Fin SOCK_MAX).val < FD_SETSIZE := by decide
  rcases listenInv_of_serverInit hlisten with ⟨t, hinit, hinv⟩
  have hfree : t.slots 1024 = none := by
    by_contra hused
    exact hroom (hinv.fits hused)
  have hrun : SockRun 3 [] (some t) := hinit ▸ .init
  have hcall := hrun.call (c := .add 1024 ⟨0, 0, 0⟩) hfree
  rcases h _ _ hcall with ⟨t', hsome, -⟩
  have hnone : (SockCall.add 1024 ⟨0, 0, 0⟩).run t = none := run_none hroom
  rw [hnone] at hsome
  contradiction

end Run

section Turn

variable {listenfd : Fin SOCK_MAX} {calls : List SockCall} {trfds : FdSet}
  {received : Fin SOCK_MAX → UInt32}

def Calls (listenfd : Fin SOCK_MAX) (calls : List SockCall) (t : SockTable) : Prop :=
  ∃ more, SockRun listenfd (calls ++ more) (some t)

theorem Calls.of_run {t : SockTable} (h : SockRun listenfd calls (some t))
    : Calls listenfd calls t := ⟨[], by rwa [List.append_nil]⟩

theorem Calls.call {t t' : SockTable} {c : SockCall} (h : Calls listenfd calls t)
    (hallowed : c.Allowed t) (hc : c.run t = some t') : Calls listenfd calls t' := by
  rcases h with ⟨more, h⟩
  refine ⟨more ++ [c], ?_⟩
  rw [← List.append_assoc, ← hc]
  exact h.call hallowed

theorem Calls.acceptClient {t t' : SockTable} {conn_fd : Int} {addr : SockaddrIn}
    (h : Calls listenfd calls t)
    (hconn : 0 < conn_fd → ∃ fd : Fin SOCK_MAX, conn_fd = fd.val ∧ t.slots fd = none)
    (haccept : acceptClient t conn_fd addr = some t') : Calls listenfd calls t' := by
  rw [Srv.acceptClient] at haccept
  split at haccept
  . next hpos =>
    rcases hconn hpos with ⟨fd, rfl, hfree⟩
    exact h.call (c := .add fd addr) hfree haccept
  . exact Option.some.inj haccept ▸ h

theorem Calls.serveFd {s s' : SockTable × UInt32} {i : Fin SOCK_MAX}
    (h : Calls listenfd calls s.1) (hserve : serveFd trfds received s i = some s')
    : Calls listenfd calls s'.1 := by
  simp only [Srv.serveFd] at hserve
  split at hserve
  . exact Option.some.inj hserve ▸ h
  . next hactive =>
    rw [Option.bind_eq_bind, Option.bind_eq_some_iff] at hserve
    rcases hserve with ⟨b, -, hserve⟩
    generalize (if (s.1.sock_map i).sock_type = .TCP_CLIENT then received i else s.2) = length
      at hserve
    split at hserve
    . split at hserve
      . next hclose =>
        rw [Option.bind_eq_bind, Option.bind_eq_some_iff] at hserve
        rcases hserve with ⟨t, hdel, hserve⟩
        have hclient : s.1.slots i = some .TCP_CLIENT := by
          rw [SockTable.slots, if_neg hactive, hclose.2]
        exact Option.some.inj hserve ▸ h.call (c := .del i) hclient hdel
      . exact Option.some.inj hserve ▸ h
    . exact Option.some.inj hserve ▸ h

theorem Calls.foldlM {fds : List (Fin SOCK_MAX)} {s s' : SockTable × UInt32}
    (h : Calls listenfd calls s.1) (hloop : fds.foldlM (Srv.serveFd trfds received) s = some s')
    : Calls listenfd calls s'.1 := by
  induction fds generalizing s with
  | nil =>
    rw [List.foldlM_nil, Option.pure_def, Option.some.injEq] at hloop
    exact hloop ▸ h
  | cons i fds ih =>
    rw [List.foldlM_cons, Option.bind_eq_bind, Option.bind_eq_some_iff] at hloop
    rcases hloop with ⟨s1, hserve, hloop⟩
    exact ih (h.serveFd hserve) hloop

theorem calls_of_serverRunTurn {t t' : SockTable} {conn_fd : Int} {addr : SockaddrIn}
    {length : UInt32} (h : SockRun listenfd calls (some t))
    (hconn : 0 < conn_fd → ∃ fd : Fin SOCK_MAX, conn_fd = fd.val ∧ t.slots fd = none)
    (hturn : serverRunTurn t trfds conn_fd addr length received = some t')
    : ∃ more, SockRun listenfd (calls ++ more) (some t') := by
  simp only [serverRunTurn, Option.bind_eq_bind] at hturn
  rw [Option.bind_eq_some_iff] at hturn
  rcases hturn with ⟨l, -, hturn⟩
  split at hturn
  . rw [Option.bind_eq_some_iff] at hturn
    rcases hturn with ⟨t1, haccept, hturn⟩
    rw [Option.bind_eq_some_iff] at hturn
    rcases hturn with ⟨s, hfds, hturn⟩
    have h1 : Calls listenfd calls t1 := (Calls.of_run h).acceptClient hconn haccept
    exact Option.some.inj hturn ▸ Calls.foldlM (s := (t1, length)) h1 hfds
  . rw [Option.bind_some, Option.bind_eq_some_iff] at hturn
    rcases hturn with ⟨s, hfds, hturn⟩
    exact Option.some.inj hturn ▸ Calls.foldlM (s := (t, length)) (Calls.of_run h) hfds

end Turn

end SecFw.Srv
