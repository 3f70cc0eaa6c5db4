import SecFw.Srv.Trans

/-!
This module contains the proof that the messages of a client connection are handed on exactly as
they were sent when no segment of its TCP stream ends inside of a header or of a body, and that
otherwise some of them are lost.
-/

namespace SecFw.Srv

section Parts

variable {sock : Segmented UInt8} {m : List UInt8} {ms : List (List UInt8)} {pos : Nat}

/-- The two reads of a message return its header and its body. -/
structure ReadsWhole (sock : Segmented UInt8) (m : List UInt8) : Prop where
  header : (sock.read MESSAGE_HEADER_LENGTH).1 = m.take MESSAGE_HEADER_LENGTH
  body : ((sock.read MESSAGE_HEADER_LENGTH).2.read (m.length - MESSAGE_HEADER_LENGTH)).1
    = m.drop MESSAGE_HEADER_LENGTH

def behind (sock : Segmented UInt8) (m : List UInt8) : Segmented UInt8 :=
  ((sock.read MESSAGE_HEADER_LENGTH).2.read (m.length - MESSAGE_HEADER_LENGTH)).2

theorem parts_cons (m : List UInt8) (ms : List (List UInt8))
    : parts (m :: ms)
        = m.take MESSAGE_HEADER_LENGTH :: m.drop MESSAGE_HEADER_LENGTH :: parts ms := rfl

theorem flatten_parts (msgs : List (List UInt8)) : (parts msgs).flatten = msgs.flatten := by
  induction msgs with
  | nil => rfl
  | cons m ms ih =>
    rw [parts_cons, List.flatten_cons, List.flatten_cons, ih, List.flatten_cons, ← List.append_assoc,
      List.take_append_drop]

theorem WellFormed.length_take (h : WellFormed m)
    : (m.take MESSAGE_HEADER_LENGTH).length = MESSAGE_HEADER_LENGTH := by
  rw [List.length_take]
  exact Nat.min_eq_left h.header

theorem WellFormed.ne_nil (h : WellFormed m) : m ≠ [] := by
  rintro rfl
  have := h.header
  simp at this

theorem ne_nil_behind (hs : ∀ seg ∈ sock, seg ≠ []) : ∀ seg ∈ behind sock m, seg ≠ [] :=
  Segmented.ne_nil_of_read (Segmented.ne_nil_of_read hs)

theorem uncut_parts_cons_iff (hm : WellFormed m) (hs : ∀ seg ∈ sock, seg ≠ [])
    (hflatten : sock.flatten = m ++ ms.flatten)
    : sock.Uncut pos pos (parts (m :: ms))
        ↔ ReadsWhole sock m
          ∧ (behind sock m).Uncut (pos + m.length) (pos + m.length) (parts ms) := by
  have hheader : sock.flatten = m.take MESSAGE_HEADER_LENGTH
      ++ (m.drop MESSAGE_HEADER_LENGTH :: parts ms).flatten := by
    rw [hflatten, List.flatten_cons, flatten_parts, ← List.append_assoc, List.take_append_drop]
  have hpos : pos + MESSAGE_HEADER_LENGTH + (m.length - MESSAGE_HEADER_LENGTH) = pos + m.length := by
    rw [Nat.add_assoc, Nat.add_sub_cancel' hm.header]
  rw [parts_cons, Segmented.uncut_cons_iff hs hheader, hm.length_take]
  constructor
  . rintro ⟨hread, h⟩
    have hrest := Segmented.flatten_read hheader (by rw [hm.length_take, hread])
    rw [hm.length_take, List.flatten_cons] at hrest
    rw [Segmented.uncut_cons_iff (Segmented.ne_nil_of_read hs) hrest, List.length_drop, hpos] at h
    exact ⟨⟨hread, h.1⟩, h.2⟩
  . rintro ⟨hwhole, h⟩
    have hrest := Segmented.flatten_read hheader (by rw [hm.length_take, hwhole.header])
    rw [hm.length_take, List.flatten_cons] at hrest
    rw [Segmented.uncut_cons_iff (Segmented.ne_nil_of_read hs) hrest, List.length_drop, hpos]
    exact ⟨hwhole.header, hwhole.body, h⟩

theorem flatten_behind (h : ReadsWhole sock m) (hflatten : sock.flatten = m ++ ms.flatten)
    : (behind sock m).flatten = ms.flatten := by
  have hfst := sock.read_append MESSAGE_HEADER_LENGTH
  have hsnd := (sock.read MESSAGE_HEADER_LENGTH).2.read_append (m.length - MESSAGE_HEADER_LENGTH)
  rw [h.header] at hfst
  rw [h.body] at hsnd
  rw [← hsnd, ← List.append_assoc, List.take_append_drop, hflatten] at hfst
  exact List.append_cancel_left hfst

theorem readsWhole_of_recv {rbuf : Buffer} {r : Received} (hm : WellFormed m)
    (hflatten : sock.flatten = m ++ ms.flatten) (h : recvTcpClientPacket sock rbuf = some r)
    (hret : r.ret = 0) : ReadsWhole sock m := by
  have hfst := sock.read_append MESSAGE_HEADER_LENGTH
  have hsnd := (sock.read MESSAGE_HEADER_LENGTH).2.read_append (m.length - MESSAGE_HEADER_LENGTH)
  simp only [recvTcpClientPacket, Option.bind_eq_bind, Option.bind_eq_some_iff] at h
  rcases h with ⟨rbuf1, hwrite, h⟩
  by_cases hlen : (sock.read MESSAGE_HEADER_LENGTH).1.length = MESSAGE_HEADER_LENGTH
  . rw [if_neg (by simpa using hlen)] at h
    have hsplit : sock.flatten
        = m.take MESSAGE_HEADER_LENGTH ++ (m.drop MESSAGE_HEADER_LENGTH ++ ms.flatten) := by
      rw [← List.append_assoc, List.take_append_drop, hflatten]
    rw [hsplit] at hfst
    rcases List.append_inj hfst (by rw [hlen, hm.length_take]) with ⟨hheader, hrest⟩
    have hhead : MessageHead.ofBytes rbuf1.bytes = MessageHead.ofBytes m := by
      have happend := MessageHead.ofBytes_append hm.length_take.ge (m.drop MESSAGE_HEADER_LENGTH)
      rw [List.take_append_drop] at happend
      rw [ofBytes_write hlen hwrite, hheader, happend]
    have hdata : dataLen rbuf1 = ((m.length - MESSAGE_HEADER_LENGTH : Nat) : Int) := by
      rw [dataLen, hhead, ← hm.total_len, Int.ofNat_sub hm.header]
    refine ⟨hheader, ?_⟩
    have hbodylen : ((sock.read MESSAGE_HEADER_LENGTH).2.read
        (m.length - MESSAGE_HEADER_LENGTH)).1.length = m.length - MESSAGE_HEADER_LENGTH :=
      length_of_recvDataBlock hm hdata h hret
    rw [hrest] at hsnd
    exact (List.append_inj hsnd (by rw [hbodylen, List.length_drop])).1
  . rw [if_pos (by simpa using hlen), Option.some.injEq] at h
    subst h
    simp at hret

end Parts

section Step

variable {s s' : Server} {i j : Fd} {sock : Segmented UInt8}

theorem serveClient_of_none (h : s.conns i = none) : serveClient s i = some s := by
  simp [serveClient, h]

theorem serveClient_eq_some (h : s.conns i = some sock)
    : serveClient s i = some s'
        ↔ ∃ r, recvTcpClientPacket sock s.buf_r = some r
          ∧ s' = ⟨Function.update s.conns i (if r.rlen ≤ 0 then none else some r.sock), r.rbuf,
              if r.ret = 0 then s.handed ++ [(i, r.rbuf.bytes.take r.rlen)] else s.handed⟩ := by
  simp only [serveClient, h, Option.bind_eq_bind, Option.bind_eq_some_iff, Option.some.injEq]
  apply exists_congr
  intro r
  rw [eq_comm (b := s')]

theorem handedTo_append (s : Server) (conns : Fd → Option (Segmented UInt8)) (rbuf : Buffer)
    (j : Fd) (m : List UInt8)
    : Server.handedTo ⟨conns, rbuf, s.handed ++ [(j, m)]⟩ i
        = if j = i then s.handedTo i ++ [m] else s.handedTo i := by
  by_cases h : j = i
  . simp [Server.handedTo, h]
  . simp [Server.handedTo, h]

theorem serveClient_other (h : serveClient s j = some s') (hne : j ≠ i)
    : s'.conns i = s.conns i ∧ s'.handedTo i = s.handedTo i := by
  cases hconn : s.conns j with
  | none =>
    rw [serveClient_of_none hconn, Option.some.injEq] at h
    subst h
    exact ⟨rfl, rfl⟩
  | some sock =>
    rcases (serveClient_eq_some hconn).mp h with ⟨r, -, rfl⟩
    refine ⟨Function.update_of_ne hne.symm _ _, ?_⟩
    by_cases hret : r.ret = 0
    . simp only [if_pos hret]
      rw [handedTo_append, if_neg hne]
    . simp only [if_neg hret]
      rfl

theorem serveClient_whole {m : List UInt8} (h : s.conns i = some sock) (hm : WellFormed m)
    (hs : ∀ seg ∈ sock, seg ≠ []) (hwhole : ReadsWhole sock m)
    : ∃ s', serveClient s i = some s' ∧ s'.conns i = some (behind sock m)
        ∧ s'.handedTo i = s.handedTo i ++ [m] := by
  rcases recv_whole hm hs hwhole.header hwhole.body s.buf_r with
    ⟨r, hrecv, hret, hrlen, hsock, hbytes⟩
  have hpos : ¬ r.rlen ≤ 0 := by
    have := hm.header
    simp only [MESSAGE_HEADER_LENGTH] at this
    omega
  refine ⟨_, (serveClient_eq_some h).mpr ⟨r, hrecv, rfl⟩, ?_, ?_⟩
  . rw [if_neg hpos, hsock]
    exact Function.update_self _ _ _
  . simp only [if_pos hret, hrlen, hbytes, List.take_left]
    rw [handedTo_append, if_pos rfl]

def Server.account (s : Server) (i : Fd) : Nat := (s.handedTo i).flatten.length + s.remaining i

theorem length_flatten_recv {rbuf : Buffer} {r : Received}
    (h : recvTcpClientPacket sock rbuf = some r)
    : r.sock.flatten.length ≤ (sock.read MESSAGE_HEADER_LENGTH).2.flatten.length := by
  rcases sock_of_recv h with hsock | ⟨want, hsock⟩
  . rw [hsock]
  . have := congrArg List.length ((sock.read MESSAGE_HEADER_LENGTH).2.read_append want)
    rw [List.length_append] at this
    rw [hsock]
    omega

theorem account_serveClient (h : serveClient s j = some s') (i : Fd) : s'.account i ≤ s.account i := by
  by_cases hne : j = i
  . subst hne
    cases hconn : s.conns j with
    | none =>
      rw [serveClient_of_none hconn, Option.some.injEq] at h
      exact h ▸ Nat.le_refl _
    | some sock =>
      rcases (serveClient_eq_some hconn).mp h with ⟨r, hrecv, rfl⟩
      by_cases hret : r.ret = 0
      . rcases recv_ok hrecv hret with ⟨hrlen, hbytes⟩
        have hpos : ¬ r.rlen ≤ 0 := by
          simp only [MESSAGE_HEADER_LENGTH] at hrlen
          omega
        have hlen := congrArg List.length hbytes
        rw [List.length_append] at hlen
        simp only [Server.account, if_pos hret, handedTo_append, ↓reduceIte, Server.remaining,
          if_neg hpos, Function.update_self, hconn, Option.getD_some, List.flatten_append,
          List.flatten_singleton, List.length_append]
        omega
      . have hle := length_flatten_recv hrecv
        have happend := congrArg List.length (sock.read_append MESSAGE_HEADER_LENGTH)
        rw [List.length_append] at happend
        simp only [Server.account, if_neg hret, Server.remaining, Function.update_self, hconn,
          Option.getD_some]
        apply Nat.add_le_add (Nat.le_refl _)
        split
        . simp
        . simp only [Option.getD_some]
          omega
  . rcases serveClient_other h hne with ⟨hconns, hhanded⟩
    rw [Server.account, Server.account, Server.remaining, Server.remaining, hconns, hhanded]

theorem account_lt_of_not_whole {m : List UInt8} {ms : List (List UInt8)}
    (hconn : s.conns i = some sock) (hs : ∀ seg ∈ sock, seg ≠ []) (hm : WellFormed m)
    (hflatten : sock.flatten = m ++ ms.flatten) (hwhole : ¬ ReadsWhole sock m)
    (h : serveClient s i = some s') : s'.account i < s.account i := by
  rcases (serveClient_eq_some hconn).mp h with ⟨r, hrecv, rfl⟩
  have hret : ¬ r.ret = 0 := fun hret => hwhole (readsWhole_of_recv hm hflatten hrecv hret)
  have hle := length_flatten_recv hrecv
  have happend := congrArg List.length (sock.read_append MESSAGE_HEADER_LENGTH)
  rw [List.length_append] at happend
  have hsock : sock ≠ [] := by
    rintro rfl
    rw [List.flatten_nil, eq_comm, List.append_eq_nil_iff] at hflatten
    exact hm.ne_nil hflatten.1
  have hread := List.length_pos_iff.mpr
    (Segmented.read_ne_nil hs hsock (by decide : 0 < MESSAGE_HEADER_LENGTH))
  simp only [Server.account, if_neg hret, Server.remaining, Function.update_self, hconn,
    Option.getD_some]
  apply Nat.add_lt_add_left
  split
  . simp only [Option.getD_none, List.flatten_nil, List.length_nil]
    omega
  . simp only [Option.getD_some]
    omega

end Step

section Run

variable {s s' : Server} {i : Fd} {sock : Segmented UInt8} {msgs : List (List UInt8)}
  {ready : List Fd} {pos : Nat}

theorem serverRun_nil : serverRun s [] = some s := rfl

theorem serverRun_cons {j : Fd}
    : serverRun s (j :: ready) = (serveClient s j).bind fun s1 => serverRun s1 ready := rfl

theorem account_serverRun (h : serverRun s ready = some s') : s'.account i ≤ s.account i := by
  induction ready generalizing s with
  | nil =>
    rw [serverRun_nil, Option.some.injEq] at h
    exact h ▸ Nat.le_refl _
  | cons j ready ih =>
    rcases Option.bind_eq_some_iff.mp (serverRun_cons ▸ h) with ⟨s1, hserve, h⟩
    exact Nat.le_trans (ih h) (account_serveClient hserve i)

theorem handedTo_of_closed (hclosed : s.conns i = none) (h : serverRun s ready = some s')
    : s'.handedTo i = s.handedTo i := by
  induction ready generalizing s with
  | nil =>
    rw [serverRun_nil, Option.some.injEq] at h
    exact h ▸ rfl
  | cons j ready ih =>
    rcases Option.bind_eq_some_iff.mp (serverRun_cons ▸ h) with ⟨s1, hserve, h⟩
    by_cases hne : j = i
    . rw [hne, serveClient_of_none hclosed, Option.some.injEq] at hserve
      subst hserve
      exact ih hclosed h
    . rcases serveClient_other hserve hne with ⟨hconns, hhanded⟩
      rw [ih (hconns.trans hclosed) h, hhanded]

theorem serveClient_nil (hconn : s.conns i = some []) (h : serveClient s i = some s')
    : s'.conns i = none ∧ s'.handedTo i = s.handedTo i := by
  rcases (serveClient_eq_some hconn).mp h with ⟨r, hrecv, rfl⟩
  simp only [recvTcpClientPacket, Option.bind_eq_bind, Option.bind_eq_some_iff] at hrecv
  rcases hrecv with ⟨rbuf1, -, hrecv⟩
  have hlen : (Segmented.read MESSAGE_HEADER_LENGTH ([] : Segmented UInt8)).1.length
      ≠ MESSAGE_HEADER_LENGTH := by decide
  rw [if_pos hlen, Option.some.injEq] at hrecv
  subst hrecv
  exact ⟨Function.update_self _ _ _, rfl⟩

theorem eq_nil_of_flatten (hs : ∀ seg ∈ sock, seg ≠ []) (h : sock.flatten = []) : sock = [] := by
  rw [List.flatten_eq_nil_iff] at h
  cases sock with
  | nil => rfl
  | cons seg sock =>
    exact absurd (h seg (List.mem_cons_self ..)) (hs seg (List.mem_cons_self ..))

theorem drains_of_uncut (hconn : s.conns i = some sock) (hs : ∀ seg ∈ sock, seg ≠ [])
    (hmsgs : ∀ m ∈ msgs, WellFormed m) (hflatten : sock.flatten = msgs.flatten)
    (huncut : sock.Uncut pos pos (parts msgs))
    : ∃ s', serverRun s (List.replicate msgs.length i) = some s' ∧ s'.Drained i := by
  induction msgs generalizing s sock pos with
  | nil =>
    have hnil := eq_nil_of_flatten hs hflatten
    exact ⟨s, rfl, Or.inr (hnil ▸ hconn)⟩
  | cons m ms ih =>
    have hm := hmsgs m (List.mem_cons_self ..)
    rcases (uncut_parts_cons_iff hm hs hflatten).mp huncut with ⟨hwhole, hrest⟩
    rcases serveClient_whole hconn hm hs hwhole with ⟨s1, hserve, hconn1, -⟩
    rcases ih hconn1 (ne_nil_behind hs) (fun m' h => hmsgs m' (List.mem_cons_of_mem m h))
      (flatten_behind hwhole hflatten) hrest with ⟨s', hrun, hdrained⟩
    refine ⟨s', ?_, hdrained⟩
    rw [List.length_cons, List.replicate_succ, serverRun_cons, hserve, Option.bind_some]
    exact hrun

theorem handedTo_of_uncut (hconn : s.conns i = some sock) (hs : ∀ seg ∈ sock, seg ≠ [])
    (hmsgs : ∀ m ∈ msgs, WellFormed m) (hflatten : sock.flatten = msgs.flatten)
    (huncut : sock.Uncut pos pos (parts msgs)) (h : serverRun s ready = some s')
    (hdrained : s'.Drained i) : s'.handedTo i = s.handedTo i ++ msgs := by
  induction ready generalizing s sock msgs pos with
  | nil =>
    rw [serverRun_nil, Option.some.injEq] at h
    subst h
    have hsock : sock = [] := by
      cases hdrained with
      | inl hnone =>
        rw [hconn] at hnone
        contradiction
      | inr hnil =>
        rw [hconn, Option.some.injEq] at hnil
        exact hnil
    cases msgs with
    | nil => rw [List.append_nil]
    | cons m ms =>
      rw [hsock, List.flatten_nil, List.flatten_cons, eq_comm, List.append_eq_nil_iff] at hflatten
      exact absurd hflatten.1 (hmsgs m (List.mem_cons_self ..)).ne_nil
  | cons j ready ih =>
    rcases Option.bind_eq_some_iff.mp (serverRun_cons ▸ h) with ⟨s1, hserve, h⟩
    by_cases hne : j = i
    . subst hne
      cases msgs with
      | nil =>
        have hnil := eq_nil_of_flatten hs hflatten
        rcases serveClient_nil (hnil ▸ hconn) hserve with ⟨hclosed, hhanded⟩
        rw [handedTo_of_closed hclosed h, hhanded, List.append_nil]
      | cons m ms =>
        have hm := hmsgs m (List.mem_cons_self ..)
        rcases (uncut_parts_cons_iff hm hs hflatten).mp huncut with ⟨hwhole, hrest⟩
        rcases serveClient_whole hconn hm hs hwhole with ⟨s1', hserve', hconn1, hhanded⟩
        rw [hserve, Option.some.injEq] at hserve'
        subst hserve'
        rw [ih hconn1 (ne_nil_behind hs) (fun m' h => hmsgs m' (List.mem_cons_of_mem m h))
          (flatten_behind hwhole hflatten) hrest h, hhanded, List.append_assoc, List.singleton_append]
    . rcases serveClient_other hserve hne with ⟨hconns, hhanded⟩
      rw [ih (hconns.trans hconn) hs hmsgs hflatten huncut h, hhanded]

theorem account_lt_of_cut {n : Nat} (hconn : s.conns i = some sock) (hs : ∀ seg ∈ sock, seg ≠ [])
    (hmsgs : ∀ m ∈ msgs, WellFormed m) (hflatten : sock.flatten = msgs.flatten)
    (hcut : ¬ sock.Uncut pos pos (parts msgs))
    (h : serverRun s (List.replicate n i) = some s') (hdrained : s'.Drained i)
    : s'.account i < s.account i := by
  induction msgs generalizing s sock pos n with
  | nil => exact absurd trivial hcut
  | cons m ms ih =>
    have hm := hmsgs m (List.mem_cons_self ..)
    cases n with
    | zero =>
      rw [List.replicate_zero, serverRun_nil, Option.some.injEq] at h
      subst h
      rcases hdrained with hnone | hnil
      . rw [hconn] at hnone
        contradiction
      . rw [hconn, Option.some.injEq] at hnil
        rw [hnil, List.flatten_nil, List.flatten_cons, eq_comm, List.append_eq_nil_iff] at hflatten
        exact absurd hflatten.1 hm.ne_nil
    | succ n =>
      rw [List.replicate_succ, serverRun_cons] at h
      rcases Option.bind_eq_some_iff.mp h with ⟨s1, hserve, h⟩
      by_cases hwhole : ReadsWhole sock m
      . have hrest : ¬ (behind sock m).Uncut (pos + m.length) (pos + m.length) (parts ms) :=
          fun hrest => hcut ((uncut_parts_cons_iff hm hs hflatten).mpr ⟨hwhole, hrest⟩)
        rcases serveClient_whole hconn hm hs hwhole with ⟨s1', hserve', hconn1, -⟩
        rw [hserve, Option.some.injEq] at hserve'
        subst hserve'
        have hlt := ih hconn1 (ne_nil_behind hs)
          (fun m' h => hmsgs m' (List.mem_cons_of_mem m h)) (flatten_behind hwhole hflatten) hrest h
        exact Nat.lt_of_lt_of_le hlt (account_serveClient hserve i)
      . have hlt := account_lt_of_not_whole hconn hs hm hflatten hwhole hserve
        exact Nat.lt_of_le_of_lt (account_serverRun h) hlt

theorem remaining_of_drained (h : s.Drained i) : s.remaining i = 0 := by
  cases h with
  | inl h => simp [Server.remaining, h]
  | inr h => simp [Server.remaining, h]

/--
The messages of a connection are handed on as they were sent exactly when no segment of the stream
ends inside of a header or of a body.
-/
theorem framed_iff (s : Server) (i : Fd) (hconn : s.conns i = some sock)
    (hs : ∀ seg ∈ sock, seg ≠ []) (hmsgs : ∀ m ∈ msgs, WellFormed m)
    (hflatten : sock.flatten = msgs.flatten)
    : Framed s i msgs ↔ sock.Uncut 0 0 (parts msgs) := by
  constructor
  . intro hframed
    by_contra hcut
    rcases hframed.drains with ⟨n, s', hrun, hdrained⟩
    have hlt := account_lt_of_cut hconn hs hmsgs hflatten hcut hrun hdrained
    have hhanded := congrArg (fun ms => ms.flatten.length) (hframed.handed _ s' hrun hdrained)
    simp only [List.flatten_append, List.length_append] at hhanded
    rw [Server.account, Server.account, remaining_of_drained hdrained, Server.remaining, hconn,
      Option.getD_some, hflatten] at hlt
    omega
  . intro huncut
    rcases drains_of_uncut hconn hs hmsgs hflatten huncut with ⟨s', hrun, hdrained⟩
    exact ⟨⟨_, s', hrun, hdrained⟩,
      fun ready s' hrun hdrained => handedTo_of_uncut hconn hs hmsgs hflatten huncut hrun hdrained⟩

def commitRequest : List UInt8 := [0x88, 0x1, 0x01, 0x13, 0, 0, 0, 1, 0, 3, 0, 0]

theorem wellFormed_commitRequest : ∀ m ∈ [commitRequest], WellFormed m := by
  intro m hm
  rw [List.mem_singleton] at hm
  subst hm
  exact ⟨by decide, by decide⟩

def cutServer : Server where
  conns i := if i = 4 then some [commitRequest.take 5, commitRequest.drop 5] else none
  buf_r := ⟨List.replicate BUF_R_SIZE 0, List.length_replicate⟩
  handed := []

theorem framed_iff_cutServer
    : Framed cutServer 4 [commitRequest]
        ↔ Segmented.Uncut [commitRequest.take 5, commitRequest.drop 5] 0 0 (parts [commitRequest]) :=
  framed_iff cutServer 4 rfl (by decide) wellFormed_commitRequest (by decide)

theorem not_framed_cutServer
    : (∀ m ∈ [commitRequest], WellFormed m)
        ∧ [commitRequest.take 5, commitRequest.drop 5].flatten = [commitRequest].flatten
        ∧ ¬ Framed cutServer 4 [commitRequest] := by
  refine ⟨wellFormed_commitRequest, by decide, ?_⟩
  have hcut : ¬ Segmented.Uncut [commitRequest.take 5, commitRequest.drop 5] 0 0
      (parts [commitRequest]) := by
    intro h
    exact h.1 5 (by decide) (by decide)
  intro h
  rcases h.drains with ⟨n, s', hrun, hdrained⟩
  have hlt := account_lt_of_cut rfl (by decide) wellFormed_commitRequest (by decide) hcut hrun hdrained
  have hhanded := h.handed _ s' hrun hdrained
  rw [Server.account, hhanded, remaining_of_drained hdrained] at hlt
  exact absurd hlt (by decide)

end Run

end SecFw.Srv
