import SecFw.Common.Mbuf
import SecFw.Common.Message
import SecFw.Segmented.Basic

/-!
This module contains how the management plane takes the messages of its clients out of their TCP
streams. A message is lost when the stream is cut inside of its header or of its body.
-/

namespace SecFw.Srv

abbrev BUF_R_SIZE : Nat := 1518

structure Buffer where
  bytes : List UInt8
  length_eq : bytes.length = BUF_R_SIZE

def Buffer.write (rbuf : Buffer) (pos : Nat) (src : List UInt8) : Option Buffer :=
  if h : pos + src.length ≤ BUF_R_SIZE then
    some ⟨memcpyAt rbuf.bytes pos src, by
      rw [length_memcpyAt (rbuf.length_eq ▸ h), rbuf.length_eq]⟩
  else
    none

structure Received where
  ret : Int
  rlen : Nat
  rbuf : Buffer
  sock : Segmented UInt8

def dataLen (rbuf : Buffer) : Int :=
  -- from the header at the start of the buffer
  ((MessageHead.ofBytes rbuf.bytes).length.toNat <<< 2 : Nat) - (MESSAGE_HEADER_LENGTH : Int)

def recvDataBlock (sock : Segmented UInt8) (rbuf : Buffer) : Option Received :=
  let data_len := dataLen rbuf
  if data_len ≠ 0 then do
    -- a negative length is a huge one for `recv`
    let (data, sock) := Segmented.read (UInt64.ofInt data_len).toNat sock
    let rbuf ← rbuf.write MESSAGE_HEADER_LENGTH data
    if data.length ≠ data_len then
      some ⟨1, MESSAGE_HEADER_LENGTH + data.length, rbuf, sock⟩
    else
      some ⟨0, MESSAGE_HEADER_LENGTH + data_len.toNat, rbuf, sock⟩
  else
    some ⟨0, MESSAGE_HEADER_LENGTH + data_len.toNat, rbuf, sock⟩

def recvTcpClientPacket (sock : Segmented UInt8) (rbuf : Buffer) : Option Received := do
  let (header, sock) := Segmented.read MESSAGE_HEADER_LENGTH sock
  let rbuf ← rbuf.write 0 header
  if header.length ≠ MESSAGE_HEADER_LENGTH then
    some ⟨1, 0, rbuf, sock⟩
  else
    recvDataBlock sock rbuf

abbrev Fd : Type := Nat

structure Server where
  -- the state of `server_run`: the streams of the connected clients, the receive buffer, and the
  -- messages that `tcp_client_message_handle` was called with
  conns : Fd → Option (Segmented UInt8)
  buf_r : Buffer
  handed : List (Fd × List UInt8)

def serveClient (s : Server) (i : Fd) : Option Server :=
  -- `server_run` for a client socket that is ready, `none` is a write behind `buf_r`
  match s.conns i with
  | none => some s
  | some sock => do
    let r ← recvTcpClientPacket sock s.buf_r
    let handed :=
      if r.ret = 0 then s.handed ++ [(i, r.rbuf.bytes.take r.rlen)] else s.handed
    let conns := Function.update s.conns i (if r.rlen ≤ 0 then none else some r.sock)
    some ⟨conns, r.rbuf, handed⟩

def serverRun (s : Server) (ready : List Fd) : Option Server := ready.foldlM serveClient s

namespace Server

def handedTo (s : Server) (i : Fd) : List (List UInt8) :=
  (s.handed.filter fun h => h.1 = i).map Prod.snd

def Drained (s : Server) (i : Fd) : Prop := s.conns i = none ∨ s.conns i = some []

def remaining (s : Server) (i : Fd) : Nat := ((s.conns i).getD []).flatten.length

end Server

/-- A message whose header counts its bytes. -/
structure WellFormed (m : List UInt8) : Prop where
  header : MESSAGE_HEADER_LENGTH ≤ m.length
  total_len : m.length = (MessageHead.ofBytes m).length.toNat <<< 2

def parts (msgs : List (List UInt8)) : List (List UInt8) :=
  msgs.flatMap fun m => [m.take MESSAGE_HEADER_LENGTH, m.drop MESSAGE_HEADER_LENGTH]

/--
A run that reads the connection to its end hands on exactly the messages, and there is such a run.
-/
structure Framed (s : Server) (i : Fd) (msgs : List (List UInt8)) : Prop where
  drains : ∃ n s', serverRun s (List.replicate n i) = some s' ∧ s'.Drained i
  handed : ∀ ready s', serverRun s ready = some s' → s'.Drained i
    → s'.handedTo i = s.handedTo i ++ msgs

section Buffer

theorem Buffer.write_eq_some (rbuf : Buffer) {pos : Nat} {src : List UInt8}
    (h : pos + src.length ≤ BUF_R_SIZE)
    : ∃ rbuf', rbuf.write pos src = some rbuf'
        ∧ rbuf'.bytes = rbuf.bytes.take pos ++ src ++ rbuf.bytes.drop (pos + src.length) := by
  refine ⟨_, dif_pos h, rfl⟩

theorem Buffer.take_write {rbuf rbuf' : Buffer} {pos : Nat} {src : List UInt8}
    (h : rbuf.write pos src = some rbuf')
    : rbuf'.bytes.take (pos + src.length) = rbuf.bytes.take pos ++ src := by
  by_cases hle : pos + src.length ≤ BUF_R_SIZE
  . rcases rbuf.write_eq_some hle with ⟨rbuf'', hwrite, hbytes⟩
    rw [h, Option.some.injEq] at hwrite
    subst hwrite
    have hpos : (rbuf.bytes.take pos).length = pos := by
      rw [List.length_take, rbuf.length_eq]
      omega
    rw [hbytes, List.take_left']
    rw [List.length_append, hpos]
  . rw [Buffer.write, dif_neg hle] at h
    contradiction

end Buffer

section Recv

variable {sock : Segmented UInt8} {rbuf : Buffer} {r : Received}

theorem take_toBytes_write {header : List UInt8} {rbuf' : Buffer}
    (h : rbuf.write 0 header = some rbuf') : rbuf'.bytes.take header.length = header := by
  have := Buffer.take_write h
  simpa using this

theorem ofBytes_write {header : List UInt8} {rbuf' : Buffer}
    (hlen : header.length = MESSAGE_HEADER_LENGTH) (h : rbuf.write 0 header = some rbuf')
    : MessageHead.ofBytes rbuf'.bytes = MessageHead.ofBytes header := by
  have hsplit := List.take_append_drop header.length rbuf'.bytes
  rw [take_toBytes_write h] at hsplit
  rw [← hsplit]
  exact MessageHead.ofBytes_append hlen.ge _

theorem sock_of_recvDataBlock (h : recvDataBlock sock rbuf = some r)
    : r.sock = sock ∨ ∃ want, r.sock = (sock.read want).2 := by
  simp only [recvDataBlock] at h
  split at h
  . simp only [Option.bind_eq_bind, Option.bind_eq_some_iff] at h
    rcases h with ⟨rbuf2, -, h⟩
    split at h
    all_goals
      rw [Option.some.injEq] at h
      subst h
      exact Or.inr ⟨_, rfl⟩
  . rw [Option.some.injEq] at h
    subst h
    exact Or.inl rfl

theorem sock_of_recv (h : recvTcpClientPacket sock rbuf = some r)
    : r.sock = (sock.read MESSAGE_HEADER_LENGTH).2
      ∨ ∃ want, r.sock = ((sock.read MESSAGE_HEADER_LENGTH).2.read want).2 := by
  simp only [recvTcpClientPacket, Option.bind_eq_bind, Option.bind_eq_some_iff] at h
  rcases h with ⟨rbuf1, -, h⟩
  split at h
  . rw [Option.some.injEq] at h
    subst h
    exact Or.inl rfl
  . exact sock_of_recvDataBlock h

theorem recvDataBlock_ok (h : recvDataBlock sock rbuf = some r) (hret : r.ret = 0)
    : MESSAGE_HEADER_LENGTH ≤ r.rlen
      ∧ r.rbuf.bytes.take r.rlen ++ r.sock.flatten
        = rbuf.bytes.take MESSAGE_HEADER_LENGTH ++ sock.flatten := by
  simp only [recvDataBlock] at h
  split at h
  . simp only [Option.bind_eq_bind, Option.bind_eq_some_iff] at h
    rcases h with ⟨rbuf2, hdata, h⟩
    have htake := Buffer.take_write hdata
    split at h
    . rw [Option.some.injEq] at h
      subst h
      simp at hret
    . next hlen =>
      rw [Option.some.injEq] at h
      subst h
      rw [not_not] at hlen
      refine ⟨Nat.le_add_right _ _, ?_⟩
      have hnat : (dataLen rbuf).toNat
          = (sock.read (UInt64.ofInt (dataLen rbuf)).toNat).1.length := by
        rw [← Int.toNat_natCast (sock.read (UInt64.ofInt (dataLen rbuf)).toNat).1.length, hlen]
      simp only
      rw [hnat, htake, List.append_assoc, Segmented.read_append]
  . next hzero =>
    rw [Option.some.injEq] at h
    subst h
    rw [not_not] at hzero
    refine ⟨Nat.le_add_right _ _, ?_⟩
    simp only
    rw [hzero, Int.toNat_zero, Nat.add_zero]

theorem recv_ok (h : recvTcpClientPacket sock rbuf = some r) (hret : r.ret = 0)
    : MESSAGE_HEADER_LENGTH ≤ r.rlen
      ∧ r.rbuf.bytes.take r.rlen ++ r.sock.flatten = sock.flatten := by
  simp only [recvTcpClientPacket, Option.bind_eq_bind, Option.bind_eq_some_iff] at h
  rcases h with ⟨rbuf1, hheader, h⟩
  split at h
  . rw [Option.some.injEq] at h
    subst h
    simp at hret
  . next hlen =>
    rw [not_not] at hlen
    have htake := take_toBytes_write hheader
    rw [hlen] at htake
    rw [← sock.read_append MESSAGE_HEADER_LENGTH, ← htake]
    exact recvDataBlock_ok h hret

theorem toNat_ofInt_length {n : Nat} (h : n ≤ BUF_R_SIZE) : (UInt64.ofInt (n : Int)).toNat = n := by
  have hmod : ((n : Int) % 2 ^ 64).toNat = n := by
    simp only [BUF_R_SIZE] at h
    omega
  rw [UInt64.ofInt, hmod, UInt64.toNat_ofNat']
  simp only [BUF_R_SIZE] at h
  omega

theorem WellFormed.length_le {m : List UInt8} (hm : WellFormed m) : m.length ≤ BUF_R_SIZE := by
  have htotal := hm.total_len
  have hbyte := (MessageHead.ofBytes m).length.toNat_lt
  rw [Nat.shiftLeft_eq] at htotal
  simp only [BUF_R_SIZE]
  omega

theorem length_of_recvDataBlock {m : List UInt8} (hm : WellFormed m)
    (hlen : dataLen rbuf = ((m.length - MESSAGE_HEADER_LENGTH : Nat) : Int))
    (h : recvDataBlock sock rbuf = some r) (hret : r.ret = 0)
    : (sock.read (m.length - MESSAGE_HEADER_LENGTH)).1.length
        = m.length - MESSAGE_HEADER_LENGTH := by
  have hle := hm.length_le
  simp only [recvDataBlock, hlen, toNat_ofInt_length (Nat.le_trans (Nat.sub_le _ _) hle)] at h
  split at h
  . simp only [Option.bind_eq_bind, Option.bind_eq_some_iff] at h
    rcases h with ⟨rbuf2, -, h⟩
    split at h
    . rw [Option.some.injEq] at h
      subst h
      simp at hret
    . next hdata =>
      rw [not_not] at hdata
      exact Int.natCast_inj.mp hdata
  . next hzero =>
    rw [not_not, Int.natCast_eq_zero] at hzero
    have := sock.length_read_le (m.length - MESSAGE_HEADER_LENGTH)
    omega

theorem recvDataBlock_whole {body : List UInt8} (hlen : dataLen rbuf = body.length)
    (hsize : MESSAGE_HEADER_LENGTH + body.length ≤ BUF_R_SIZE) (hs : ∀ seg ∈ sock, seg ≠ [])
    (hbody : (sock.read body.length).1 = body)
    : ∃ rbuf', recvDataBlock sock rbuf
          = some ⟨0, MESSAGE_HEADER_LENGTH + body.length, rbuf', (sock.read body.length).2⟩
        ∧ rbuf'.bytes = rbuf.bytes.take MESSAGE_HEADER_LENGTH ++ body
          ++ rbuf.bytes.drop (MESSAGE_HEADER_LENGTH + body.length) := by
  simp only [recvDataBlock, hlen, Int.toNat_natCast]
  by_cases hzero : body.length = 0
  . have hnil : body = [] := List.length_eq_zero_iff.mp hzero
    refine ⟨rbuf, ?_, ?_⟩
    . rw [hzero, if_neg (by simp), Segmented.read_zero hs]
    . rw [hnil, List.length_nil, Nat.add_zero, List.append_nil, List.take_append_drop]
  . have hwant := toNat_ofInt_length (Nat.le_trans (Nat.le_add_left _ _) hsize)
    rcases rbuf.write_eq_some hsize with ⟨rbuf', hwrite, hbytes⟩
    refine ⟨rbuf', ?_, hbytes⟩
    rw [if_pos (by omega), hwant, hbody, hwrite]
    simp

theorem recv_whole {m : List UInt8} (hm : WellFormed m) (hs : ∀ seg ∈ sock, seg ≠ [])
    (hheader : (sock.read MESSAGE_HEADER_LENGTH).1 = m.take MESSAGE_HEADER_LENGTH)
    (hbody : ((sock.read MESSAGE_HEADER_LENGTH).2.read (m.length - MESSAGE_HEADER_LENGTH)).1
      = m.drop MESSAGE_HEADER_LENGTH) (rbuf : Buffer)
    : ∃ r, recvTcpClientPacket sock rbuf = some r ∧ r.ret = 0 ∧ r.rlen = m.length
        ∧ r.sock = ((sock.read MESSAGE_HEADER_LENGTH).2.read (m.length - MESSAGE_HEADER_LENGTH)).2
        ∧ r.rbuf.bytes = m ++ rbuf.bytes.drop m.length := by
  have hheaderlen : (m.take MESSAGE_HEADER_LENGTH).length = MESSAGE_HEADER_LENGTH := by
    rw [List.length_take]
    exact Nat.min_eq_left hm.header
  have hroom : 0 + (m.take MESSAGE_HEADER_LENGTH).length ≤ BUF_R_SIZE := by
    rw [hheaderlen]
    decide
  rcases rbuf.write_eq_some hroom with ⟨rbuf1, hwrite, hbytes1⟩
  have htake := take_toBytes_write hwrite
  rw [hheaderlen] at htake
  rw [List.take_zero, List.nil_append, Nat.zero_add, hheaderlen] at hbytes1
  have hhead : MessageHead.ofBytes rbuf1.bytes = MessageHead.ofBytes m := by
    have happend := MessageHead.ofBytes_append hheaderlen.ge (m.drop MESSAGE_HEADER_LENGTH)
    rw [List.take_append_drop] at happend
    rw [ofBytes_write hheaderlen hwrite, happend]
  have hdata : dataLen rbuf1 = (m.drop MESSAGE_HEADER_LENGTH).length := by
    rw [dataLen, hhead, ← hm.total_len, List.length_drop, Int.ofNat_sub hm.header]
  have hsum : MESSAGE_HEADER_LENGTH + (m.length - MESSAGE_HEADER_LENGTH) = m.length :=
    Nat.add_sub_cancel' hm.header
  have hsize : MESSAGE_HEADER_LENGTH + (m.drop MESSAGE_HEADER_LENGTH).length ≤ BUF_R_SIZE := by
    rw [List.length_drop, hsum]
    exact hm.length_le
  rw [← List.length_drop] at hbody
  rcases recvDataBlock_whole hdata hsize (Segmented.ne_nil_of_read hs) hbody with
    ⟨rbuf2, hrecv, hbytes2⟩
  have hrest : rbuf1.bytes.drop m.length = rbuf.bytes.drop m.length := by
    rw [hbytes1, ← hsum, ← List.drop_drop, List.drop_left' hheaderlen, List.drop_drop]
  rw [htake, List.take_append_drop, List.length_drop, hsum, hrest] at hbytes2
  refine ⟨⟨0, m.length, rbuf2, _⟩, ?_, rfl, rfl, rfl, hbytes2⟩
  simp only [recvTcpClientPacket, hheader, hwrite, Option.bind_eq_bind, Option.bind_some, hheaderlen,
    ne_eq, not_true_eq_false, ↓reduceIte, hrecv, List.length_drop, hsum]

end Recv

end SecFw.Srv
